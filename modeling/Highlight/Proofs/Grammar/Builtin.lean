import Highlight.Lexer.Basic
import Highlight.Proofs.Grammar.Override
import Highlight.Proofs.Text.Byte

/-!
# The grammars of the C family

The built-in grammars differ in their words, in some operators and in raw strings.  What
they have in common is `Grammar.CFamily`, and no override takes it from them.

Both mark their comments with a slash.  At any other byte the rules for comments do not
apply, and `Lexeme.read_of_ne_slash` leaves only the rules that may.
-/

namespace Highlight

namespace Grammar

/-- What the grammars of C and C++ have in common. -/
structure CFamily (grammar : Grammar) : Prop where
  valid : grammar.IsValid
  lineComment : grammar.lineComment = some "//"
  blockComment : grammar.blockComment = some ⟨"/*", "*/"⟩
  operators : commonOperators ⊆ grammar.operators
  stringPrefixes : grammar.stringPrefixes = encodingPrefixes
  preprocessor : grammar.preprocessor = true

theorem cFamily_c : c.CFamily where
  valid := (by decide : c.fault? = none)
  lineComment := rfl
  blockComment := rfl
  operators := List.Subset.refl _
  stringPrefixes := rfl
  preprocessor := rfl

theorem cFamily_cpp : cpp.CFamily where
  valid := (by decide : cpp.fault? = none)
  lineComment := rfl
  blockComment := rfl
  operators := List.subset_append_left _ _
  stringPrefixes := rfl
  preprocessor := rfl

theorem cFamily_of_builtin? {language : Language} {grammar : Grammar}
    (builtIn : builtin? language = some grammar) : grammar.CFamily := by
  cases language with
  | plainText => cases builtIn
  | c =>
      cases builtIn
      exact cFamily_c
  | cpp =>
      cases builtIn
      exact cFamily_cpp

/-- Overrides add words and extensions only. -/
theorem CFamily.foldl_extend {grammar : Grammar} (family : grammar.CFamily)
    (overrides : List Override) : (overrides.foldl extend grammar).CFamily := by
  have alike := (grammar.grows_foldl_extend overrides).toAlike
  constructor
  · exact alike.fault?_eq.trans family.valid
  · exact alike.lineComment.trans family.lineComment
  · exact alike.blockComment.trans family.blockComment
  · rw [alike.operators]
    exact family.operators
  · exact alike.stringPrefixes.trans family.stringPrefixes
  · exact alike.preprocessor.trans family.preprocessor

end Grammar

namespace Lexeme

variable {grammar : Grammar} (family : grammar.CFamily) {b : UInt8}

/-- The byte with which the comments of the C family start. -/
abbrev slash : UInt8 := 0x2F

include family

theorem lineComment?_of_ne_slash (notSlash : b ≠ slash) (before rest : Bytes) :
    lineComment? grammar before (b :: rest) = none := by
  have markerEq : Utf8.bytes "//" = [slash, slash] := by decide
  rw [lineComment?, family.lineComment, Option.bind_some, markerEq, lineCommentWith?]
  simp [notSlash.symm]

theorem blockComment?_of_ne_slash (notSlash : b ≠ slash) (rest : Bytes) :
    blockComment? grammar (b :: rest) = none := by
  have openingEq : Utf8.bytes "/*" = [slash, 0x2A] := by decide
  rw [blockComment?, family.blockComment, Option.bind_some, openingEq, blockCommentWith?]
  simp [notSlash.symm]

/-- Neither space nor a comment starts at any other byte. -/
theorem read_of_ne_slash (noSpace : Byte.isSpace b = false) (notBackslash : b ≠ Byte.backslash)
    (notSlash : b ≠ slash) (before rest : Bytes) :
    read grammar before (b :: rest) =
      (directive? grammar before (b :: rest)
        |>.or (header? grammar before (b :: rest))
        |>.or (quoted? (b :: rest))
        |>.or (numeral? grammar (b :: rest))
        |>.or (word? grammar (b :: rest))
        |>.or (bracket? (b :: rest))
        |>.or (operator? grammar (b :: rest))).getD (unknown (b :: rest)) := by
  have spaceEq : space? (b :: rest) = none := by
    rw [space?, noSpace]
    rfl
  have joinEq : lineJoin? (b :: rest) = none := if_neg notBackslash
  rw [read, spaceEq, joinEq, lineComment?_of_ne_slash family notSlash,
    blockComment?_of_ne_slash family notSlash]
  rfl

/-- Where a word starts, nothing but the rule for words applies. -/
theorem read_of_isWordStart (starts : Byte.isWordStart b = true) {found : Lexeme}
    (before rest : Bytes) (foundEq : word? grammar (b :: rest) = some found) :
    read grammar before (b :: rest) = found := by
  have other {c : UInt8} (noStart : Byte.isWordStart c = false) : b ≠ c := by
    rintro rfl
    cases noStart.symm.trans starts
  have noDirective : directive? grammar before (b :: rest) = none := by
    simp [directive?, other (c := Byte.hash) rfl]
  have noHeader : header? grammar before (b :: rest) = none := by
    simp [header?, other (c := Byte.lessThan) rfl]
  have noQuote : quoted? (b :: rest) = none := by
    simp [quoted?, quoteKind?, other (c := Byte.doubleQuote) rfl,
      other (c := Byte.apostrophe) rfl]
  have noNumeral : numeral? grammar (b :: rest) = none := by
    simp [numeral?, isNumeralStart, Byte.isDigit_of_isWordStart starts,
      other (c := Byte.point) rfl]
  rw [read_of_ne_slash family (Byte.isSpace_of_isWordStart starts) (other rfl) (other rfl),
    noDirective, noHeader, noQuote, noNumeral, foundEq]
  rfl

end Lexeme

end Highlight
