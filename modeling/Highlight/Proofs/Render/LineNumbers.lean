import Highlight.Proofs.Render.Counting
import Highlight.Proofs.Render.Html
import Mathlib.Algebra.Group.Nat.Defs

/-!
# Numbered lines

Numbering only wraps lines.  Cut the plain output between its tags after each newline,
and put every piece into an element that bears its number, its newline behind the
element: that is the numbered output.  `Text.splitLines` cuts a text without looking
at how it came about, so the statement says that no newline of the output stems from
anywhere but the text, and that no line is lost, doubled or left open.

The number of a line is a word of 32 bits.  Where arithmetic is checked, the renderer
stops in front of the first number that is none, with and without numbered lines alike,
and every number that it writes is the place of its line.  Where it wraps around, the
number is the place of its line in texts of less than 2 ^ 31 lines, and its last 32 bits
in longer ones.

The prefix of the classes is written into the output as it is, so it must not hold a
newline.
-/

namespace Highlight

namespace Text

/-- Cuts a text after each newline.  What follows the last newline is a piece of its
own unless it is empty. -/
def splitLines : List Char → List (List Char)
  | [] => []
  | char :: rest =>
      if char = '\n' then [char] :: splitLines rest
      else
        match splitLines rest with
        | [] => [[char]]
        | first :: others => (char :: first) :: others

/-- What stands in front of a text and holds no newline joins its first piece. -/
theorem splitLines_append {front : List Char} (noNewline : '\n' ∉ front) (nonempty : front ≠ [])
    (rest : List Char) :
    splitLines (front ++ rest) =
      (front ++ (splitLines rest).headD []) :: (splitLines rest).tail := by
  induction front with
  | nil => contradiction
  | cons char front ih =>
      rw [List.mem_cons, not_or] at noNewline
      rcases noNewline with ⟨charNe, frontNoNewline⟩
      rw [List.cons_append, splitLines, if_neg (Ne.symm charNe)]
      cases front with
      | nil =>
          rw [List.nil_append]
          cases splitLines rest <;> rfl
      | cons other front =>
          rw [ih frontNoNewline (List.cons_ne_nil _ _)]
          rfl

end Text

namespace Piece

/-- A run is neither empty nor broken by a newline. -/
def Clean : Piece → Prop
  | run _ body => body ≠ [] ∧ '\n' ∉ body
  | newline => True

theorem clean_of_mem_cut {kind : TokenKind} {slice : List Char} :
    ∀ piece ∈ cut kind slice, piece.Clean := by
  induction slice with
  | nil => exact List.forall_mem_nil _
  | cons char slice ih =>
      rw [cut]
      split
      · exact List.forall_mem_cons.mpr ⟨trivial, ih⟩
      · rename_i noNewline
        split
        · rename_i other body others cutEq
          rw [cutEq, List.forall_mem_cons] at ih
          rcases ih with ⟨⟨_, bodyClean⟩, othersClean⟩
          rw [List.forall_mem_cons]
          refine ⟨⟨List.cons_ne_nil _ _, ?_⟩, othersClean⟩
          rw [List.mem_cons, not_or]
          exact ⟨Ne.symm noNewline, bodyClean⟩
        · rw [List.forall_mem_cons]
          refine ⟨⟨List.cons_ne_nil _ _, ?_⟩, ih⟩
          rw [List.mem_singleton]
          exact Ne.symm noNewline

theorem clean_of_ofTokens {source : List Char} {tokens : List Token} {pieces : List Piece}
    (cutEq : ofTokens source tokens = .ok pieces) : ∀ piece ∈ pieces, piece.Clean := by
  induction tokens generalizing pieces with
  | nil =>
      cases cutEq
      exact List.forall_mem_nil _
  | cons token rest ih =>
      rw [ofTokens] at cutEq
      cases charsEq : token.chars source with
      | error problem =>
          rw [charsEq] at cutEq
          cases cutEq
      | ok slice =>
          cases restEq : ofTokens source rest with
          | error problem =>
              rw [charsEq, restEq] at cutEq
              cases cutEq
          | ok others =>
              rw [charsEq, restEq] at cutEq
              cases cutEq
              exact List.forall_mem_append.mpr ⟨clean_of_mem_cut, ih restEq⟩

end Piece

namespace Html

/-! ## Markup without newlines -/

theorem newline_notMem_runTag? {html : Html} (plain : '\n' ∉ html.classPrefix.toList)
    {theme : Theme} {kind : TokenKind} {tag : String} (tagEq : html.runTag? theme kind = some tag) :
    '\n' ∉ tag.toList := by
  unfold runTag? at tagEq
  split at tagEq
  · cases tagEq
  · split at tagEq
    · simp only at tagEq
      split at tagEq
      · cases tagEq
      · cases tagEq
        have isValue := isValue_declarations (theme.styleOf kind) theme.background
        simp [isValue.notMem (by decide : isValueChar '\n' = false)]
    · cases tagEq
      simp [plain, (isValue_key kind).notMem (by decide : isValueChar '\n' = false)]

theorem newline_notMem_escape {body : List Char} (noNewline : '\n' ∉ body) :
    '\n' ∉ escape body := by
  have escaped (char : Char) (newline : '\n' ∈ escapeChar char) : '\n' = char := by
    unfold escapeChar at newline
    split at newline
    · exact absurd newline (by decide)
    split at newline
    · exact absurd newline (by decide)
    split at newline
    · exact absurd newline (by decide)
    split at newline
    · exact absurd newline (by decide)
    split at newline
    · exact absurd newline (by decide)
    · exact List.mem_singleton.mp newline
  rw [escape, List.mem_flatMap]
  rintro ⟨char, member, newline⟩
  apply noNewline
  rwa [escaped char newline]

theorem escape_ne_nil {body : List Char} (nonempty : body ≠ []) : escape body ≠ [] := by
  cases body with
  | nil => contradiction
  | cons char body =>
      rw [escape, List.flatMap_cons]
      exact List.append_ne_nil_of_left_ne_nil (escapeChar_ne_nil char) _

theorem newline_notMem_run {html : Html} (plain : '\n' ∉ html.classPrefix.toList) (theme : Theme)
    (kind : TokenKind) {body : List Char} (noNewline : '\n' ∉ body) :
    '\n' ∉ html.run theme kind body := by
  unfold run
  split
  · exact newline_notMem_escape noNewline
  · rename_i tag tagEq
    have closing : '\n' ∉ "</span>".toList := by decide
    simp only [List.mem_append, not_or]
    exact ⟨⟨newline_notMem_runTag? plain tagEq, newline_notMem_escape noNewline⟩, closing⟩

theorem run_ne_nil (html : Html) (theme : Theme) (kind : TokenKind) {body : List Char}
    (nonempty : body ≠ []) : html.run theme kind body ≠ [] := by
  unfold run
  split
  · exact escape_ne_nil nonempty
  · simp [escape_ne_nil nonempty]

/-! ## Lines of the output -/

theorem newline_notMem_content {html : Html} (plain : '\n' ∉ html.classPrefix.toList)
    (theme : Theme) {pieces : List Piece} (clean : ∀ piece ∈ pieces, piece.Clean) :
    ∀ line ∈ html.lines theme pieces, '\n' ∉ line.content := by
  induction pieces with
  | nil => exact List.forall_mem_nil _
  | cons piece rest ih =>
      rw [List.forall_mem_cons] at clean
      rcases clean with ⟨pieceClean, restClean⟩
      cases piece with
      | newline =>
          rw [lines, List.forall_mem_cons]
          exact ⟨List.not_mem_nil, ih restClean⟩
      | run kind body =>
          have runClean := newline_notMem_run plain theme kind pieceClean.2
          have linesClean := ih restClean
          rw [lines]
          cases restEq : html.lines theme rest with
          | nil => exact List.forall_mem_singleton.mpr runClean
          | cons line others =>
              rw [restEq, List.forall_mem_cons] at linesClean
              rcases linesClean with ⟨lineClean, othersClean⟩
              rw [List.forall_mem_cons]
              refine ⟨?_, othersClean⟩
              rw [List.mem_append, not_or]
              exact ⟨runClean, lineClean⟩

/-- The lines that the pieces are gathered into are those of the written text. -/
theorem splitLines_bare {html : Html} (plain : '\n' ∉ html.classPrefix.toList) (theme : Theme)
    {pieces : List Piece} (clean : ∀ piece ∈ pieces, piece.Clean) :
    Text.splitLines ((html.lines theme pieces).flatMap Line.bare) =
      (html.lines theme pieces).map Line.bare := by
  induction pieces with
  | nil => rfl
  | cons piece rest ih =>
      rw [List.forall_mem_cons] at clean
      rcases clean with ⟨pieceClean, restClean⟩
      have splitRest := ih restClean
      cases piece with
      | newline =>
          rw [lines, List.flatMap_cons, List.map_cons, ← splitRest]
          rfl
      | run kind body =>
          have runClean := newline_notMem_run plain theme kind pieceClean.2
          have runNonempty := run_ne_nil html theme kind pieceClean.1
          have splitRun := Text.splitLines_append runClean runNonempty
          rw [lines]
          cases restEq : html.lines theme rest with
          | nil => simpa [Line.bare, Line.ending, Text.splitLines] using splitRun []
          | cons line others =>
              -- The run joins the first line of the rest.
              rw [restEq] at splitRest
              have written := splitRun ((line :: others).flatMap Line.bare)
              rw [splitRest] at written
              simpa [Line.bare, Line.ending] using written

/-- There is no more than one line behind the newlines. -/
theorem length_lines_le (html : Html) (theme : Theme) (pieces : List Piece) :
    (html.lines theme pieces).length ≤ pieces.count .newline + 1 := by
  induction pieces with
  | nil => exact Nat.zero_le _
  | cons piece rest ih =>
      cases piece with
      | newline =>
          rw [lines, List.length_cons, List.count_cons_self]
          exact Nat.succ_le_succ ih
      | run kind body =>
          rw [lines, List.count_cons_of_ne (by simp)]
          cases restEq : html.lines theme rest with
          | nil => exact Nat.le_add_left _ _
          | cons line others =>
              rw [restEq] at ih
              exact ih

/-! ## Numbers -/

/-- The number of a line as it is written: the signed word with the last 32 bits of its
place. -/
def lineLabel (number : Nat) : String :=
  toString (Int32.ofNat number)

/-- The first 2 ^ 31 - 1 lines bear their places. -/
theorem lineLabel_of_lt {number : Nat} (within : number < 2 ^ 31) :
    lineLabel number = toString number := by
  change toString (Int32.ofNat number).toInt = toString number
  rw [Int32.toInt_ofNat_of_lt within]
  rfl

example : lineLabel (2 ^ 31) = "-2147483648" := by
  decide +kernel

/-- A piece in an element that bears a label.  A newline at its end stays behind the
element. -/
def wrapLine (classPrefix label : String) (piece : List Char) : List Char :=
  ("<span class=\"" ++ classPrefix ++ "line\" data-line=\"" ++ label ++ "\">").toList
    ++ piece.takeWhile (· != '\n') ++ "</span>".toList ++ piece.dropWhile (· != '\n')

/-- The lines of a text, each in an element that bears the label of its place, counted
from one. -/
def wrapLines (classPrefix : String) (label : Nat → String) (text : String) : String :=
  String.ofList (((Text.splitLines text.toList).zipIdx 1).flatMap fun entry =>
    wrapLine classPrefix (label entry.2) entry.1)

/-- Only the labels of the lines that are there matter. -/
theorem wrapLines_congr (classPrefix : String) {first second : Nat → String} {text : String}
    (same : ∀ place ≤ (Text.splitLines text.toList).length, first place = second place) :
    wrapLines classPrefix first text = wrapLines classPrefix second text := by
  unfold wrapLines
  rw [String.ofList_inj, List.flatMap_def, List.flatMap_def, List.map_congr_left]
  intro entry member
  have placeLt := List.snd_lt_add_of_mem_zipIdx member
  rw [same entry.2 (by omega)]

theorem wrapLine_bare (html : Html) (number : Int32) {line : Line}
    (noNewline : '\n' ∉ line.content) :
    wrapLine html.classPrefix (toString number) line.bare = line.numbered html number := by
  have passes : ∀ char ∈ line.content, (char != '\n') = true := by
    intro char member
    rw [bne_iff_ne]
    rintro rfl
    exact noNewline member
  have ending : line.ending.takeWhile (· != '\n') = [] ∧
      line.ending.dropWhile (· != '\n') = line.ending := by
    unfold Line.ending
    split
    · decide
    · decide
  unfold wrapLine Line.bare Line.numbered Line.rest lineTag
  rw [List.takeWhile_append_of_pos passes, List.dropWhile_append_of_pos passes, ending.1, ending.2,
    List.append_nil]
  simp only [List.append_assoc]

theorem numberLines_eq (html : Html) (first : Nat) {lines : List Line}
    (noNewline : ∀ line ∈ lines, '\n' ∉ line.content) :
    html.numberLines (Int32.ofNat first) lines =
      ((lines.map Line.bare).zipIdx first).flatMap fun entry =>
        wrapLine html.classPrefix (lineLabel entry.2) entry.1 := by
  induction lines generalizing first with
  | nil => rfl
  | cons line rest ih =>
      rw [List.forall_mem_cons] at noNewline
      rcases noNewline with ⟨lineClean, restClean⟩
      have nextEq : Int32.ofNat first + 1 = Int32.ofNat (first + 1) :=
        (Int32.ofNat_add first 1).symm
      rw [numberLines, nextEq, ih (first + 1) restClean, List.map_cons, List.zipIdx_cons,
        List.flatMap_cons, lineLabel, wrapLine_bare html _ lineClean]

/-- What stands in the lines does not depend on whether they are numbered. -/
theorem lines_lineNumbers (html : Html) (numbered : Bool) (theme : Theme) (pieces : List Piece) :
    { html with lineNumbers := numbered }.lines theme pieces = html.lines theme pieces := by
  induction pieces with
  | nil => rfl
  | cons piece rest ih =>
      cases piece with
      | newline => rw [lines, lines, ih]
      | run kind body =>
          rw [lines, lines, ih]
          rfl

/-- Rendering without and with numbers, once the text is cut into pieces. -/
theorem render_bare_and_numbered {html : Html} (plain : '\n' ∉ html.classPrefix.toList)
    {text : String} {tokens : List Token} (theme : Theme) {pieces : List Piece}
    (cutEq : Piece.ofTokens text.toList tokens = .ok pieces) :
    ∃ inner, (Text.splitLines inner.toList).length ≤ pieces.count .newline + 1 ∧
      { html with lineNumbers := false }.render text tokens theme =
        .ok (html.openTag theme ++ inner ++ "</pre>") ∧
      { html with lineNumbers := true }.render text tokens theme =
        .ok (html.openTag theme ++ wrapLines html.classPrefix lineLabel inner ++ "</pre>") := by
  have clean := Piece.clean_of_ofTokens cutEq
  have split := splitLines_bare plain theme clean
  have numbered : { html with lineNumbers := true }.numberLines 1 (html.lines theme pieces) =
      (wrapLines html.classPrefix lineLabel
        (String.ofList ((html.lines theme pieces).flatMap Line.bare))).toList := by
    rw [show (1 : Int32) = Int32.ofNat 1 from rfl,
      numberLines_eq _ 1 (newline_notMem_content plain theme clean), wrapLines,
      String.toList_ofList, String.toList_ofList, split]
  refine ⟨String.ofList ((html.lines theme pieces).flatMap Line.bare), ?_, ?_, ?_⟩
  · rw [String.toList_ofList, split, List.length_map]
    exact length_lines_le html theme pieces
  · rw [render_eq, cutEq, Except.map, lines_lineNumbers, inner, if_neg Bool.false_ne_true]
    rfl
  · rw [render_eq, cutEq, Except.map, lines_lineNumbers, inner, if_pos rfl, numbered,
      String.ofList_toList]
    rfl

example :
    wrapLines "x-" lineLabel "\na<br>\nb" =
      "<span class=\"x-line\" data-line=\"1\"></span>\n" ++
        "<span class=\"x-line\" data-line=\"2\">a<br></span>\n" ++
        "<span class=\"x-line\" data-line=\"3\">b</span>" := by
  decide +kernel

end Html

end Highlight
