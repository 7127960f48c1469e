import Highlight.Proofs.Lexer.Kind
import Highlight.Proofs.Lexer.Stop
import Highlight.Proofs.Lexer.Walk
import Highlight.Proofs.Text.Boundary
import Mathlib.Data.List.TakeWhile

/-!
# Tokens end at character boundaries

The scanner steps over single bytes, but it never stops inside of a character.
A rule stops next to an ASCII byte, at the end of the text, or behind a marker
of the table; each of these is a boundary of a text that is valid.  Only the rule
for what no other rule covers has to know how long a character is.
-/

namespace Highlight

open Highlight.Utf8 Highlight.Text

namespace Lexeme

/-! ## ASCII bytes -/

/-- The bytes at which rules stop are ASCII. -/
theorem delimits_ascii : Delimits (· < 0x80) where
  space := by
    intro b space
    rw [Byte.isSpace, Bool.or_eq_true, beq_iff_eq] at space
    rcases space with rfl | inline
    · decide
    · exact Byte.lt_of_isInlineSpace inline
  backslash := by decide
  doubleQuote := by decide
  apostrophe := by decide
  greaterThan := by decide
  bracket := by simp [brackets]
  separator := by simp [separators]

/-- In a valid text a rule that stops next to an ASCII byte stops at a boundary. -/
theorem Stops.boundary {chars : List Char} {length : Nat}
    (stops : Stops (· < 0x80) (encode chars) length) : Boundary chars length := by
  cases stops with
  | finish => exact boundary_length chars
  | before found ascii => exact boundary_of_not_isContinuation found (leads_of_ascii ascii).1
  | behind found ascii => exact boundary_succ_of_ascii found ascii

end Lexeme

namespace Bytes

/-- What is searched for stands where it is found. -/
theorem prefix_drop_of_find? {needle rest : Bytes} {offset : Nat}
    (found : find? needle rest = some offset) : needle <+: rest.drop offset := by
  induction rest generalizing offset with
  | nil =>
      rw [find?, Option.ite_none_right_eq_some] at found
      rw [List.isEmpty_iff.mp found.1]
      exact List.nil_prefix
  | cons b rest ih =>
      rw [find?] at found
      split at found
      · rename_i stands
        cases found
        exact List.isPrefixOf_iff_prefix.mp stands
      · rw [Option.map_eq_some_iff] at found
        obtain ⟨restOffset, restFound, rfl⟩ := found
        exact ih restFound

end Bytes

namespace Lexeme

/-! ## Comments -/

/-- A block comment with markers that are text ends at a boundary: where the
closing marker is found, its first byte does not continue a character. -/
theorem boundary_blockCommentTail (closing chars : List Char) :
    Boundary chars (blockCommentTail (encode closing) (encode chars)) := by
  unfold blockCommentTail
  cases found : Bytes.find? (encode closing) (encode chars) with
  | none => exact boundary_length chars
  | some offset =>
      have stands := Bytes.prefix_drop_of_find? found
      cases closing with
      | nil =>
          have offsetEq : offset = 0 := by
            cases bytesEq : encode chars with
            | nil => simpa [bytesEq, Bytes.find?] using found.symm
            | cons b rest => simpa [bytesEq, Bytes.find?] using found.symm
          rw [offsetEq]
          exact boundary_zero chars
      | cons char closing =>
          obtain ⟨first, tail, spellingEq, ⟨notContinuation, _⟩, _⟩ := utf8EncodeChar_eq_cons char
          have firstFound : (encode chars)[offset]? = some first := by
            obtain ⟨rest, restEq⟩ := stands
            rw [← List.head?_drop, ← restEq, encode_cons, spellingEq]
            rfl
          obtain ⟨left, right, rfl, rfl⟩ :=
            boundary_of_not_isContinuation firstFound notContinuation
          rw [encode_append, List.drop_left] at stands
          exact (boundary_of_spelled stands).append left

theorem boundary_blockComment? {grammar : Grammar} {chars : List Char} {found : Lexeme}
    (foundEq : blockComment? grammar (encode chars) = some found) :
    Boundary chars found.length := by
  simp only [blockComment?, Option.bind_eq_some_iff, blockCommentWith?,
    Option.ite_none_right_eq_some, Bool.and_eq_true, Option.some.injEq] at foundEq
  obtain ⟨markers, _, ⟨_, opens⟩, rfl⟩ := foundEq
  obtain ⟨left, right, rfl, leftLength⟩ :=
    boundary_of_spelled (List.isPrefixOf_iff_prefix.mp opens)
  dsimp only
  rw [Utf8.bytes, ← leftLength, encode_append, List.drop_left]
  exact (boundary_blockCommentTail _ right).append left

/-! ## Directives -/

theorem directiveTail_run (rest : Bytes) : RunOf (· < 0x80) rest (directiveTail rest) := by
  simp only [directiveTail]
  split
  · refine (RunOf.takeWhile (fun _ => Byte.lt_of_isBlank) rest).add ?_
    rw [← List.dropWhile_eq_drop]
    exact RunOf.takeWhile (fun _ => Byte.lt_of_isWord) _
  · exact .nil rest

theorem directive?_stops {grammar : Grammar} {before rest : Bytes} {found : Lexeme}
    (foundEq : directive? grammar before rest = some found) :
    Stops (· < 0x80) rest found.length := by
  have lengthPos := (directive?_fits foundEq).length_pos
  cases rest with
  | nil => cases foundEq
  | cons b rest =>
      simp only [directive?, Option.ite_none_right_eq_some, Bool.and_eq_true, beq_iff_eq,
        Option.some.injEq] at foundEq
      obtain ⟨⟨⟨_, rfl⟩, _⟩, rfl⟩ := foundEq
      exact (RunOf.cons (by decide) (directiveTail_run rest)).stops lengthPos

/-! ## Words -/

theorem word?_stops {grammar : Grammar} {rest : Bytes} {found : Lexeme}
    (foundEq : word? grammar rest = some found) : Stops (· < 0x80) rest found.length := by
  obtain ⟨starts, rawEq | prefixedEq | rfl⟩ := word?_cases foundEq
  · exact rawString?_stops delimits_ascii.closes rawEq
  · exact prefixedQuoted?_stops delimits_ascii.closes prefixedEq
  · exact (RunOf.takeWhile (fun _ => Byte.lt_of_isWord) rest).stops
      (bareWord_fits grammar starts).length_pos

/-! ## Numerals -/

theorem digitsLength_run {isDigit : UInt8 → Bool} (ascii : ∀ b, isDigit b = true → b < 0x80)
    (separators seen : Bool) (rest : Bytes) :
    RunOf (· < 0x80) rest (digitsLength isDigit separators seen rest) := by
  induction rest generalizing seen with
  | nil => exact .nil []
  | cons b rest ih =>
      rw [digitsLength]
      split
      · rename_i digit
        exact .cons (ascii b digit) (ih true)
      · split
        · rename_i separator
          simp only [Bool.and_eq_true, beq_iff_eq] at separator
          obtain ⟨⟨⟨rfl, _⟩, _⟩, _⟩ := separator
          exact .cons (by decide) (ih true)
        · exact .nil _

theorem fractionLength_run {isDigit : UInt8 → Bool} (ascii : ∀ b, isDigit b = true → b < 0x80)
    (separators : Bool) (rest : Bytes) :
    RunOf (· < 0x80) rest (fractionLength isDigit separators rest) := by
  cases rest with
  | nil => exact .nil []
  | cons b rest =>
      rw [fractionLength]
      split
      · rename_i point
        subst point
        exact .cons (by decide) (digitsLength_run ascii separators false rest)
      · exact .nil _

theorem signLength_run (rest : Bytes) : RunOf (· < 0x80) rest (signLength rest) := by
  rw [signLength]
  split
  · rename_i sign
    cases rest with
    | nil => simp at sign
    | cons b rest =>
        simp only [List.head?_cons, Option.some.injEq] at sign
        rcases sign with rfl | rfl
        · exact .one (by decide) rest
        · exact .one (by decide) rest
  · exact .nil rest

theorem exponentLength_run {isMark : UInt8 → Bool} (ascii : ∀ b, isMark b = true → b < 0x80)
    (separators : Bool) (rest : Bytes) :
    RunOf (· < 0x80) rest (exponentLength isMark separators rest) := by
  cases rest with
  | nil => exact .nil []
  | cons b rest =>
      simp only [exponentLength]
      split
      · rename_i mark
        rw [Nat.add_assoc]
        exact .cons (ascii b (Bool.and_eq_true_iff.mp mark).1) ((signLength_run rest).add
          (digitsLength_run (fun _ => Byte.lt_of_isDigit) separators false _))
      · exact .nil _

theorem realLength_run {isDigit isMark : UInt8 → Bool}
    (digitAscii : ∀ b, isDigit b = true → b < 0x80) (markAscii : ∀ b, isMark b = true → b < 0x80)
    (separators : Bool) (rest : Bytes) :
    RunOf (· < 0x80) rest (realLength isDigit isMark separators rest) := by
  exact ((digitsLength_run digitAscii separators false rest).add
    (fractionLength_run digitAscii separators _)).add (exponentLength_run markAscii separators _)

theorem lt_of_isDecimalMark {b : UInt8} (mark : isDecimalMark b = true) : b < 0x80 := by
  simp only [isDecimalMark, Bool.or_eq_true, beq_iff_eq] at mark
  rcases mark with rfl | rfl <;> decide

theorem lt_of_isHexMark {b : UInt8} (mark : isHexMark b = true) : b < 0x80 := by
  simp only [isHexMark, Bool.or_eq_true, beq_iff_eq] at mark
  rcases mark with rfl | rfl <;> decide

/-- The zero and the mark in front of a hexadecimal or a binary numeral. -/
theorem baseMark_run {rest : Bytes} {p : UInt8 → Bool} (ascii : ∀ b, p b = true → b < 0x80)
    (starts : (rest.head? == some 0x30 && (rest.drop 1).head?.any p) = true) :
    RunOf (· < 0x80) rest 2 := by
  rcases rest with _ | ⟨zero, _ | ⟨mark, rest⟩⟩
  · simp at starts
  · simp at starts
  · simp only [List.head?_cons, Bool.and_eq_true, beq_iff_eq, Option.some.injEq,
      List.drop_succ_cons, List.drop_zero, Option.any_some] at starts
    obtain ⟨rfl, isMark⟩ := starts
    exact .cons (by decide) (.one (p := (· < 0x80)) (ascii mark isMark) rest)

theorem numeralBody_run (separators : Bool) (rest : Bytes) :
    RunOf (· < 0x80) rest (numeralBody separators rest) := by
  rw [numeralBody]
  split
  · rename_i hexadecimal
    refine (baseMark_run ?_ hexadecimal).add
      (realLength_run (fun _ => Byte.lt_of_isHexDigit) (fun _ => lt_of_isHexMark) separators _)
    intro b mark
    simp only [Bool.or_eq_true, beq_iff_eq] at mark
    rcases mark with rfl | rfl <;> decide
  · split
    · rename_i binary
      refine (baseMark_run ?_ binary).add
        (digitsLength_run (fun _ => Byte.lt_of_isBinaryDigit) separators false _)
      intro b mark
      simp only [Bool.or_eq_true, beq_iff_eq] at mark
      rcases mark with rfl | rfl <;> decide
    · exact realLength_run (fun _ => Byte.lt_of_isDigit) (fun _ => lt_of_isDecimalMark) _ _

theorem numeral?_stops {grammar : Grammar} {rest : Bytes} {found : Lexeme}
    (foundEq : numeral? grammar rest = some found) : Stops (· < 0x80) rest found.length := by
  have lengthPos := (numeral?_fits foundEq).length_pos
  rw [numeral?, Option.ite_none_right_eq_some, Option.some.injEq] at foundEq
  obtain ⟨_, rfl⟩ := foundEq
  exact ((numeralBody_run grammar.digitSeparators rest).add
    (RunOf.takeWhile (fun _ => Byte.lt_of_isWord) _)).stops lengthPos

/-! ## Punctuation -/

theorem boundary_operator? {grammar : Grammar} {chars : List Char} {found : Lexeme}
    (foundEq : operator? grammar (encode chars) = some found) : Boundary chars found.length := by
  rw [operator?, Grammar.operatorLength?, Option.map_eq_some_iff] at foundEq
  obtain ⟨length, lengthEq, rfl⟩ := foundEq
  obtain ⟨text, _, _, spelled, rfl⟩ := longestMatch?_eq_some lengthEq
  exact boundary_of_spelled spelled

/-- In a valid text the length that the first byte calls for is that of the
first character. -/
theorem characterLength_encode (char : Char) (chars : List Char) :
    characterLength (encode (char :: chars)) = (String.utf8EncodeChar char).length := by
  obtain ⟨first, tail, spellingEq, ⟨_, tailLength⟩, continues⟩ := utf8EncodeChar_eq_cons char
  rw [encode_cons, spellingEq, List.cons_append, characterLength, ← tailLength, List.take_left,
    List.takeWhile_eq_self_iff.mpr continues, List.length_cons, Nat.add_comm]

theorem line_stops (rest : Bytes) : Stops (· < 0x80) rest (line rest).length := by
  change Stops (· < 0x80) rest (lineLength rest)
  induction rest with
  | nil => exact .finish
  | cons b rest ih =>
      rw [lineLength]
      split
      · rename_i newline
        rw [newline]
        exact .behind List.getElem?_cons_zero (by decide)
      · exact ih.cons b

/-! ## All rules together -/

/-- What is read from a valid text ends at a boundary. -/
theorem boundary_read (grammar : Grammar) (before : Bytes) {chars : List Char}
    (nonempty : chars ≠ []) :
    Boundary chars (read grammar before (encode chars)).length := by
  apply read_induction (motive := fun found => Boundary chars found.length)
  case ofSpace =>
    intro found foundEq
    exact (space?_stops delimits_ascii foundEq).boundary
  case ofLineJoin =>
    intro found foundEq
    exact (lineJoin?_stops delimits_ascii foundEq).boundary
  case ofLineComment =>
    intro found foundEq
    exact (lineComment?_stops delimits_ascii.closes foundEq).boundary
  case ofBlockComment =>
    intro found foundEq
    exact boundary_blockComment? foundEq
  case ofDirective =>
    intro found foundEq
    exact (directive?_stops foundEq).boundary
  case ofHeader =>
    intro found foundEq
    exact (header?_stops delimits_ascii.closes foundEq).boundary
  case ofQuoted =>
    intro found foundEq
    exact (quoted?_stops delimits_ascii.closes foundEq).boundary
  case ofNumeral =>
    intro found foundEq
    exact (numeral?_stops foundEq).boundary
  case ofWord =>
    intro found foundEq
    exact (word?_stops foundEq).boundary
  case ofBracket =>
    intro found foundEq
    exact (bracket?_stops delimits_ascii foundEq).boundary
  case ofOperator =>
    intro found foundEq
    exact boundary_operator? foundEq
  case ofUnknown =>
    intro _ _
    obtain ⟨char, rest, rfl⟩ := List.exists_cons_of_ne_nil nonempty
    change Boundary (char :: rest) (characterLength (encode (char :: rest)))
    rw [characterLength_encode]
    exact (boundary_zero rest).cons char

end Lexeme

namespace Lexer

variable (lexer : Lexer)

theorem boundary_lexeme (before : Bytes) {chars : List Char} (nonempty : chars ≠ []) :
    Boundary chars (lexer.lexeme before (encode chars)).length := by
  cases lexer with
  | plain => exact (Lexeme.line_stops (encode chars)).boundary
  | table grammar => exact Lexeme.boundary_read grammar before nonempty

/-- An error covers one character. -/
theorem length_lexeme_of_error {before : Bytes} {char : Char} {chars : List Char}
    (error : (lexer.lexeme before (encode (char :: chars))).kind = .error) :
    (lexer.lexeme before (encode (char :: chars))).length =
      (String.utf8EncodeChar char).length := by
  cases lexer with
  | plain => cases error
  | table grammar =>
      rw [lexeme, Lexeme.read_eq_unknown_of_error error]
      exact Lexeme.characterLength_encode char chars

/-- The token at a boundary ends at a boundary, and covers one character if it is
an error. -/
theorem tokenAt_boundary {chars : List Char} {start : Nat} (boundary : Boundary chars start)
    (inside : start < (encode chars).length) :
    Boundary chars (lexer.tokenAt (encode chars) start).stop ∧
      ((lexer.tokenAt (encode chars) start).kind = .error →
        ∃ char, slice? chars start (lexer.tokenAt (encode chars) start).stop = some [char]) := by
  obtain ⟨left, right, rfl, rfl⟩ := boundary
  have restEq : (encode (left ++ right)).drop (encode left).length = encode right := by
    rw [encode_append, List.drop_left]
  simp only [tokenAt, lexemeAt, restEq]
  constructor
  · refine (lexer.boundary_lexeme _ ?_).append left
    rintro rfl
    rw [List.append_nil] at inside
    exact Nat.lt_irrefl _ inside
  · intro error
    cases right with
    | nil =>
        rw [List.append_nil] at inside
        exact absurd inside (Nat.lt_irrefl _)
    | cons char right =>
        refine ⟨char, ?_⟩
        rw [lexer.length_lexeme_of_error error]
        have sliced := slice?_of_append left [char] right
        rwa [encode_cons, encode_nil, List.append_nil] at sliced

/-- From a character boundary of a text on, all tokens start and end at character
boundaries, and an error is a single character. -/
theorem tokensFrom_boundary (text : String) (start : Nat)
    (boundary : (splitAtByte? text.toList start).isSome = true) :
    ∀ token ∈ lexer.tokensFrom (Utf8.bytes text) start,
      (splitAtByte? text.toList token.start).isSome = true ∧
        (splitAtByte? text.toList token.stop).isSome = true ∧
        (token.kind = .error →
          ∃ char, slice? text.toList token.start token.stop = some [char]) := by
  simp only [isSome_splitAtByte?_iff] at boundary ⊢
  refine lexer.tokensFrom_induction (motive := fun start tokens => Boundary text.toList start →
    ∀ token ∈ tokens, Boundary text.toList token.start ∧ Boundary text.toList token.stop ∧
      (token.kind = .error → ∃ char, slice? text.toList token.start token.stop = some [char]))
    ?_ ?_ start boundary
  · intro start _ _ token member
    cases member
  · intro start inside ih boundary token member
    obtain ⟨stopBoundary, errorChar⟩ := lexer.tokenAt_boundary boundary inside
    rcases List.mem_cons.mp member with rfl | member
    · exact ⟨boundary, stopBoundary, errorChar⟩
    · exact ih stopBoundary token member

/-- A character of four bytes that no rule covers, behind a string that escapes
a character of two bytes. -/
theorem tokensFrom_boundary_multibyte :
    (splitAtByte? "€\"\\é\"😀".toList 8).isSome = true ∧
      (splitAtByte? "€\"\\é\"😀".toList 12).isSome = true ∧
      (TokenKind.error = .error →
        ∃ char, slice? "€\"\\é\"😀".toList 8 12 = some [char]) :=
  (ofLanguage .cpp).tokensFrom_boundary "€\"\\é\"😀" 3 (by decide) ⟨.error, 8, 12⟩
    (by decide +kernel)

end Lexer

end Highlight
