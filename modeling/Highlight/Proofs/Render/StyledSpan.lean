import Highlight.Proofs.Render.Piece
import Highlight.Proofs.Token.Tiling
import Highlight.Render.StyledSpan
import Mathlib.Data.List.Chain

/-!
# Styled spans paint what their tokens paint

Spans are made of tokens by joining neighbours that touch and look the same.  Joining
changes no byte's style and neither the order nor the number of times a byte is painted,
whether or not the tokens leave gaps, overlap or are empty.  It goes as far as it can: of
two neighbours that are left, the first does not touch the second or looks different.

`StyledSpan.merge_cases` says what one step of the joining does, and every property is
carried along the list by it.
-/

namespace Highlight

namespace Token

/-- The range of a token does not run backwards, ends within the text, and starts and
ends between two characters. -/
structure Sliceable (source : List Char) (token : Token) : Prop where
  ordered : token.start ≤ token.stop
  inside : token.stop ≤ Text.byteLength source
  startBoundary : Text.Boundary source token.start
  stopBoundary : Text.Boundary source token.stop

theorem inText_iff {source : List Char} {token : Token} :
    token.InText source ↔ token.Sliceable source := by
  rw [InText, Text.isSome_slice?_iff]
  constructor
  · rintro ⟨ordered, startBoundary, stopBoundary⟩
    exact ⟨ordered, stopBoundary.le_length, startBoundary, stopBoundary⟩
  · rintro ⟨ordered, _, startBoundary, stopBoundary⟩
    exact ⟨ordered, startBoundary, stopBoundary⟩

end Token

namespace StyledSpan

/-! ## What is painted -/

/-- The offsets of a range in order, each with the style. -/
def paint (start stop : Nat) (style : Style) : List (Nat × Style) :=
  (List.range' start (stop - start)).map (·, style)

/-- Two ranges that touch are painted like the range that they make up. -/
theorem paint_append {start middle stop : Nat} (left : start ≤ middle) (right : middle ≤ stop)
    (style : Style) :
    paint start middle style ++ paint middle stop style = paint start stop style := by
  have placeEq : start + (middle - start) = middle := Nat.add_sub_cancel' left
  have lengthEq : middle - start + (stop - middle) = stop - start := by omega
  have offsetsEq : List.range' start (middle - start) ++ List.range' middle (stop - middle) =
      List.range' start (stop - start) := by
    have appended := List.range'_append_1 (s := start) (m := middle - start) (n := stop - middle)
    rwa [placeEq, lengthEq] at appended
  rw [paint, paint, paint, ← offsetsEq, List.map_append]

/-- The spans lie side by side from `start` to `stop`, and none is empty. -/
def Tiles : (start : Nat) → List StyledSpan → (stop : Nat) → Prop
  | start, [], stop => start = stop
  | start, span :: rest, stop =>
      span.start = start ∧ span.start < span.stop ∧ Tiles span.stop rest stop

/-! ## One step of the joining -/

/-- The first span touches the second and looks the same. -/
def Joins (left right : StyledSpan) : Prop :=
  left.stop = right.start ∧ left.style = right.style

/-- A span is put in front of the joined rest, or it takes in the first span of the
rest, with which it joins. -/
theorem merge_cases (span : StyledSpan) (rest : List StyledSpan) :
    merge (span :: rest) = span :: merge rest ∧ (∀ next ∈ (merge rest).head?, ¬span.Joins next) ∨
      ∃ next others, merge rest = next :: others ∧ span.Joins next ∧
        merge (span :: rest) = ⟨span.start, next.stop, span.style⟩ :: others := by
  rw [merge]
  cases merge rest with
  | nil => exact Or.inl ⟨rfl, by simp⟩
  | cons next others =>
      by_cases joins : span.style = next.style ∧ span.stop = next.start
      · exact Or.inr ⟨next, others, rfl, joins.symm, if_pos joins⟩
      · left
        constructor
        · exact if_neg joins
        · rintro _ ⟨⟩ touching
          exact joins touching.symm

variable {spans : List StyledSpan}

/-- Joined spans do not run backwards if none of the spans does. -/
theorem ordered_merge (ordered : ∀ span ∈ spans, span.start ≤ span.stop) :
    ∀ span ∈ merge spans, span.start ≤ span.stop := by
  induction spans with
  | nil => exact List.forall_mem_nil _
  | cons span rest ih =>
      obtain ⟨spanOrdered, restOrdered⟩ := List.forall_mem_cons.mp ordered
      have mergedOrdered := ih restOrdered
      rcases merge_cases span rest with ⟨mergeEq, _⟩ | ⟨next, others, restEq, joins, mergeEq⟩
      · rw [mergeEq]
        exact List.forall_mem_cons.mpr ⟨spanOrdered, mergedOrdered⟩
      · rw [restEq, List.forall_mem_cons] at mergedOrdered
        rw [mergeEq]
        refine List.forall_mem_cons.mpr ⟨?_, mergedOrdered.2⟩
        calc
          span.start ≤ span.stop := spanOrdered
          _ = next.start := joins.1
          _ ≤ next.stop := mergedOrdered.1

/-- Joining changes nothing of what is painted. -/
theorem flatMap_paint_merge (ordered : ∀ span ∈ spans, span.start ≤ span.stop) :
    (merge spans).flatMap (fun span => paint span.start span.stop span.style) =
      spans.flatMap fun span => paint span.start span.stop span.style := by
  induction spans with
  | nil => rfl
  | cons span rest ih =>
      obtain ⟨spanOrdered, restOrdered⟩ := List.forall_mem_cons.mp ordered
      rw [List.flatMap_cons, ← ih restOrdered]
      rcases merge_cases span rest with ⟨mergeEq, _⟩ | ⟨next, others, restEq, joins, mergeEq⟩
      · rw [mergeEq, List.flatMap_cons]
      · have nextOrdered : next.start ≤ next.stop :=
          ordered_merge restOrdered next (by rw [restEq]; exact List.mem_cons_self)
        have joinedEq : paint span.start span.stop span.style ++
            paint next.start next.stop next.style = paint span.start next.stop span.style := by
          rw [← joins.1] at nextOrdered ⊢
          rw [← joins.2]
          exact paint_append spanOrdered nextOrdered span.style
        rw [mergeEq, restEq, List.flatMap_cons, List.flatMap_cons, ← List.append_assoc, joinedEq]

/-- No two neighbours are left that could be joined. -/
theorem isChain_merge (spans : List StyledSpan) :
    (merge spans).IsChain fun left right => ¬left.Joins right := by
  induction spans with
  | nil => exact .nil
  | cons span rest ih =>
      rcases merge_cases span rest with ⟨mergeEq, apart⟩ | ⟨next, others, restEq, joins, mergeEq⟩
      · rw [mergeEq]
        exact List.isChain_cons.mpr ⟨apart, ih⟩
      · -- The joined span ends where the one it has taken in ended, and looks the same.
        rw [restEq, List.isChain_cons] at ih
        rw [mergeEq]
        refine List.isChain_cons.mpr ⟨?_, ih.2⟩
        rintro other first ⟨touches, same⟩
        exact ih.1 other first ⟨touches, joins.2.symm.trans same⟩

/-- Spans that lie side by side do so when they are joined. -/
theorem Tiles.merge {start stop : Nat} (tiles : Tiles start spans stop) :
    Tiles start (merge spans) stop := by
  induction spans generalizing start with
  | nil => exact tiles
  | cons span rest ih =>
      obtain ⟨startEq, nonempty, restTiles⟩ := tiles
      have mergedTiles := ih restTiles
      rcases merge_cases span rest with ⟨mergeEq, _⟩ | ⟨next, others, restEq, joins, mergeEq⟩
      · rw [mergeEq]
        exact ⟨startEq, nonempty, mergedTiles⟩
      · rw [restEq] at mergedTiles
        obtain ⟨nextEq, nextNonempty, othersTiles⟩ := mergedTiles
        rw [mergeEq]
        refine ⟨startEq, ?_, othersTiles⟩
        exact Nat.lt_trans nonempty (nextEq ▸ nextNonempty)

/-! ## The spans of tokens -/

variable {tokens : List Token} {theme : Theme}

theorem tiles_map_ofToken {start stop : Nat} (tiles : Token.Tiles start tokens stop) :
    Tiles start (tokens.map (ofToken theme)) stop := by
  induction tokens generalizing start with
  | nil => exact tiles
  | cons token rest ih =>
      obtain ⟨startEq, nonempty, restTiles⟩ := tiles
      exact ⟨startEq, nonempty, ih restTiles⟩

/-- The check alone decides whether there are spans. -/
theorem ofTokens_eq_error_iff {text : String} {problem : SpanError} :
    ofTokens text tokens theme = .error problem ↔
      Token.check text.toList tokens = .error problem := by
  rw [ofTokens]
  cases Token.check text.toList tokens with
  | error other =>
      constructor
      · rintro ⟨⟩
        rfl
      · rintro ⟨⟩
        rfl
  | ok passed =>
      constructor
      · rintro ⟨⟩
      · rintro ⟨⟩

theorem ofTokens_eq_ok {text : String} (inText : ∀ token ∈ tokens, token.InText text.toList) :
    ofTokens text tokens theme = .ok (merge (tokens.map (ofToken theme))) := by
  rw [ofTokens, Token.check_eq_ok_iff.mpr inText]
  rfl

/-- Spans are refused for the first token whose range runs backwards, leaves the text or
cuts a character in two.  Without such a token the spans paint every offset as the tokens
do, in the same order.  No two neighbours touch and look the same, and the spans lie side
by side over the text if the tokens do. -/
theorem ofTokens_paints (text : String) (tokens : List Token) (theme : Theme) :
    (∀ problem, ofTokens text tokens theme = .error problem ↔
      ∃ earlier token later, tokens = earlier ++ token :: later ∧
        (∀ other ∈ earlier, other.Sliceable text.toList) ∧ ¬token.Sliceable text.toList ∧
        problem = ⟨token.start, token.stop, (Utf8.bytes text).length⟩) ∧
    ((∀ token ∈ tokens, token.Sliceable text.toList) →
      ∃ spans, ofTokens text tokens theme = .ok spans ∧
        spans.flatMap (fun span => paint span.start span.stop span.style) =
          tokens.flatMap (fun token => paint token.start token.stop (theme.styleOf token.kind)) ∧
        spans.IsChain (fun left right =>
          ¬(left.stop = right.start ∧ left.style = right.style)) ∧
        (Token.Tiles 0 tokens (Utf8.bytes text).length →
          Tiles 0 spans (Utf8.bytes text).length)) := by
  simp only [← Token.inText_iff]
  constructor
  · intro problem
    rw [ofTokens_eq_error_iff]
    exact Token.check_eq_error_iff
  · intro inText
    have ordered : ∀ span ∈ tokens.map (ofToken theme), span.start ≤ span.stop := by
      intro span member
      obtain ⟨token, listed, rfl⟩ := List.mem_map.mp member
      exact (Token.inText_iff.mp (inText token listed)).ordered
    refine ⟨_, ofTokens_eq_ok inText, ?_, isChain_merge _, ?_⟩
    · rw [flatMap_paint_merge ordered, List.flatMap_map]
      rfl
    · intro tiles
      exact (tiles_map_ofToken tiles).merge

/-- Two tokens that look the same are painted by spans that cover the text.  The second
one is refused if it ends within the last character. -/
theorem ofTokens_paints_accent :
    (∃ spans, ofTokens "aé" [⟨.text, 0, 1⟩, ⟨.operator, 1, 3⟩] .dark = .ok spans ∧
      Tiles 0 spans 3) ∧
    ofTokens "aé" [⟨.text, 0, 1⟩, ⟨.operator, 1, 2⟩] .dark = .error ⟨1, 2, 3⟩ := by
  have first : Token.InText "aé".toList ⟨.text, 0, 1⟩ := by rw [Token.InText]; decide
  have second : Token.InText "aé".toList ⟨.operator, 1, 3⟩ := by rw [Token.InText]; decide
  have cut : ¬Token.InText "aé".toList ⟨.operator, 1, 2⟩ := by rw [Token.InText]; decide
  rw [Token.inText_iff] at first second cut
  constructor
  · obtain ⟨spans, spansEq, _, _, tiles⟩ :=
      (ofTokens_paints "aé" [⟨.text, 0, 1⟩, ⟨.operator, 1, 3⟩] .dark).2
        (List.forall_mem_cons.mpr ⟨first, List.forall_mem_singleton.mpr second⟩)
    exact ⟨spans, spansEq, tiles (by decide)⟩
  · apply ((ofTokens_paints "aé" [⟨.text, 0, 1⟩, ⟨.operator, 1, 2⟩] .dark).1 ⟨1, 2, 3⟩).mpr
    exact ⟨[⟨.text, 0, 1⟩], ⟨.operator, 1, 2⟩, [], rfl, List.forall_mem_singleton.mpr first, cut,
      by decide⟩

end StyledSpan

end Highlight
