import Highlight.Proofs.Text.Boundary
import Highlight.Render.Piece

/-!
# The characters of the pieces

Cutting the text under some tokens into pieces succeeds if every token has a
slice of the text, and then loses nothing: whatever is done to each character
of the pieces, told the kind of its run unless it is bare, is done to each character
of the slices in order.  Renderers work piece by piece; `Piece.flatMap_paint_cut` and
`Piece.ofTokens_eq_ok` carry what they do over to tokens.
-/

namespace Highlight

namespace Text

/-- Splitting a text leaves all characters in their order. -/
theorem eq_append_of_splitAtByte? {chars left right : List Char} {offset : Nat}
    (split : splitAtByte? chars offset = some (left, right)) : chars = left ++ right := by
  fun_induction splitAtByte? chars offset generalizing left right with
  | case1 chars =>
      cases split
      rfl
  | case2 offset => cases split
  | case3 char rest offset sizeLe ih =>
      obtain ⟨⟨front, back⟩, restSplit, pairEq⟩ := Option.map_eq_some_iff.mp split
      cases pairEq
      rw [ih restSplit, List.cons_append]
  | case4 char rest offset sizeGt => cases split

/-- A slice stands somewhere in its text. -/
theorem isInfix_of_slice? {chars slice : List Char} {start stop : Nat}
    (sliced : slice? chars start stop = some slice) : slice <:+: chars := by
  rw [slice?, Option.ite_none_left_eq_some, Option.bind_eq_some_iff] at sliced
  obtain ⟨_, ⟨left, rest⟩, split, restSliced⟩ := sliced
  obtain ⟨⟨middle, right⟩, restSplit, rfl⟩ := Option.map_eq_some_iff.mp restSliced
  refine ⟨left, right, ?_⟩
  rw [eq_append_of_splitAtByte? split, eq_append_of_splitAtByte? restSplit, List.append_assoc]

end Text

namespace Token

/-- The characters under a token, or none if its range is no slice of the text. -/
def text (source : List Char) (token : Token) : List Char :=
  (Text.slice? source token.start token.stop).getD []

/-- The range of a token is a slice of the text. -/
def InText (source : List Char) (token : Token) : Prop :=
  (Text.slice? source token.start token.stop).isSome = true

variable {source : List Char} {token : Token} {tokens : List Token}

theorem chars_eq_ok (inText : token.InText source) :
    token.chars source = .ok (token.text source) := by
  obtain ⟨slice, sliced⟩ := Option.isSome_iff_exists.mp inText
  rw [chars, text, sliced]
  rfl

theorem inText_of_chars {slice : List Char} (charsEq : token.chars source = .ok slice) :
    token.InText source := by
  rw [chars] at charsEq
  split at charsEq
  · rename_i sliced
    rw [InText, sliced]
    rfl
  · cases charsEq

/-- The check passes exactly if every token has a slice of the text. -/
theorem check_eq_ok_iff : check source tokens = .ok () ↔ ∀ token ∈ tokens, token.InText source := by
  induction tokens with
  | nil => simp [check]
  | cons token rest ih =>
      rw [check, List.forall_mem_cons, ← ih]
      constructor
      · intro passed
        cases charsEq : token.chars source with
        | error problem =>
            rw [charsEq] at passed
            cases passed
        | ok slice =>
            rw [charsEq] at passed
            exact ⟨inText_of_chars charsEq, passed⟩
      · rintro ⟨inText, passed⟩
        rw [chars_eq_ok inText]
        exact passed

theorem chars_eq_error (outside : ¬token.InText source) :
    token.chars source = .error ⟨token.start, token.stop, Text.byteLength source⟩ := by
  rw [InText, Option.not_isSome_iff_eq_none] at outside
  rw [chars, outside]

/-- The check fails with the first token that has no slice of the text. -/
theorem check_eq_error_iff {problem : SpanError} : check source tokens = .error problem ↔
    ∃ earlier token later, tokens = earlier ++ token :: later ∧
      (∀ other ∈ earlier, other.InText source) ∧ ¬token.InText source ∧
      problem = ⟨token.start, token.stop, Text.byteLength source⟩ := by
  induction tokens with
  | nil => simp [check]
  | cons first rest ih =>
      rw [check]
      by_cases inText : first.InText source
      · rw [chars_eq_ok inText]
        change check source rest = .error problem ↔ _
        rw [ih]
        constructor
        · rintro ⟨earlier, token, later, rfl, allInText, outside, problemEq⟩
          exact ⟨first :: earlier, token, later, rfl,
            List.forall_mem_cons.mpr ⟨inText, allInText⟩, outside, problemEq⟩
        · rintro ⟨earlier, token, later, tokensEq, allInText, outside, problemEq⟩
          cases earlier with
          | nil =>
              cases tokensEq
              exact absurd inText outside
          | cons other earlier =>
              cases tokensEq
              exact ⟨earlier, token, later, rfl, (List.forall_mem_cons.mp allInText).2, outside,
                problemEq⟩
      · rw [chars_eq_error inText]
        change Except.error _ = Except.error problem ↔ _
        rw [Except.error.injEq]
        constructor
        · rintro rfl
          exact ⟨[], first, rest, rfl, List.forall_mem_nil _, inText, rfl⟩
        · rintro ⟨earlier, token, later, tokensEq, allInText, _, rfl⟩
          cases earlier with
          | nil =>
              cases tokensEq
              rfl
          | cons other earlier =>
              cases tokensEq
              exact absurd (allInText first List.mem_cons_self) inText

theorem mem_of_mem_text {char : Char} (member : char ∈ token.text source) : char ∈ source := by
  unfold text at member
  cases sliced : Text.slice? source token.start token.stop with
  | none =>
      rw [sliced] at member
      cases member
  | some slice =>
      rw [sliced] at member
      exact (Text.isInfix_of_slice? sliced).subset member

end Token

namespace Piece

variable {source : List Char} {tokens : List Token}

/-- The pieces of the slices under some tokens. -/
def under (source : List Char) (tokens : List Token) : List Piece :=
  tokens.flatMap fun token => cut token.kind (token.text source)

/-- Cutting succeeds if every token has a slice of the text, and cuts the slices
one after the other. -/
theorem ofTokens_eq_ok (inText : ∀ token ∈ tokens, token.InText source) :
    ofTokens source tokens = .ok (under source tokens) := by
  induction tokens with
  | nil => rfl
  | cons token rest ih =>
      obtain ⟨tokenInText, restInText⟩ := List.forall_mem_cons.mp inText
      rw [ofTokens, Token.chars_eq_ok tokenInText, ih restInText]
      rfl

/-- Every character of a piece as `look` makes it look, which is told the kind of
the run, and no kind for whitespace and for the newlines between runs. -/
def paint {α : Type} (look : Option TokenKind → Char → α) : Piece → List α
  | run kind body => body.map (look (if kind = .whitespace then none else some kind))
  | newline => [look none '\n']

/-- The runs that a slice is cut into are of one kind. -/
theorem kind_eq_of_mem_cut {kind other : TokenKind} {slice body : List Char}
    (member : run other body ∈ cut kind slice) : other = kind := by
  induction slice generalizing body with
  | nil => cases member
  | cons char slice ih =>
      rw [cut] at member
      split at member
      · rcases List.mem_cons.mp member with impossible | member
        · cases impossible
        · exact ih member
      · split at member
        · rename_i first others cutEq
          rcases List.mem_cons.mp member with runEq | member
          · cases runEq
            rfl
          · rw [cutEq] at ih
            exact ih (List.mem_cons_of_mem _ member)
        · rcases List.mem_cons.mp member with runEq | member
          · cases runEq
            rfl
          · exact ih member

/-- Painting the pieces of a slice is painting its characters one by one. -/
theorem flatMap_paint_cut {α : Type} (look : Option TokenKind → Char → α) (kind : TokenKind)
    (slice : List Char) :
    (cut kind slice).flatMap (paint look) =
      slice.map fun char =>
        look (if kind = .whitespace ∨ char = '\n' then none else some kind) char := by
  induction slice with
  | nil => rfl
  | cons char slice ih =>
      rw [List.map_cons, ← ih, cut]
      split
      · rename_i isNewline
        rw [isNewline, if_pos (Or.inr rfl)]
        rfl
      · rename_i noNewline
        simp only [noNewline, or_false]
        split
        · -- The character joins the run in front, which is of the same kind.
          rename_i other body others cutEq
          have kindEq : other = kind :=
            kind_eq_of_mem_cut (cutEq ▸ List.mem_cons_self : run other body ∈ cut kind slice)
          rw [cutEq, kindEq]
          rfl
        · rfl

/-- Painting the pieces under some tokens is painting the characters under each. -/
theorem flatMap_paint_under {α : Type} (look : Option TokenKind → Char → α) (source : List Char)
    (tokens : List Token) :
    (under source tokens).flatMap (paint look) =
      tokens.flatMap fun token => (token.text source).map fun char =>
        look (if token.kind = .whitespace ∨ char = '\n' then none else some token.kind) char := by
  rw [under, List.flatMap_assoc]
  simp only [flatMap_paint_cut]

/-- The characters of the pieces are those of the text. -/
theorem mem_of_mem_under {kind : TokenKind} {body : List Char}
    (member : run kind body ∈ under source tokens) : ∀ char ∈ body, char ∈ source := by
  intro char charMember
  obtain ⟨token, _, cutMember⟩ := List.mem_flatMap.mp member
  have charsEq := flatMap_paint_cut (fun _ char => char) token.kind (token.text source)
  rw [List.map_id'] at charsEq
  have textMember : char ∈ token.text source := by
    rw [← charsEq]
    refine List.mem_flatMap.mpr ⟨run kind body, cutMember, ?_⟩
    rwa [paint, List.map_id']
  exact Token.mem_of_mem_text textMember

end Piece

end Highlight
