import Highlight.Proofs.Grammar.Validity
import Highlight.Proofs.Lexer.Kind
import Highlight.Proofs.Lexer.Override
import Highlight.Proofs.Lexer.Stop

/-!
# Words

A valid grammar cuts no word in two: whatever stands in front of a word stops next to
a byte that belongs to none, or takes all of the word in.  The only exception would be
a block comment whose closing marker ends like a word, which is excluded here.

A token of a kind of words is therefore a whole word.  `Grammar.Classifies` says what
kind a word has: the class that the grammar lists it under, or else what its
surroundings and its spelling make of it.
-/

namespace Highlight

namespace Bytes

/-- Bytes of one word stand on both sides of a place. -/
def SplitsWord (text : Bytes) (place : Nat) : Prop :=
  ∃ last b c, place = last + 1 ∧ text[last]? = some b ∧ text[last + 1]? = some c ∧
    Byte.isWord b = true ∧ Byte.isWord c = true

/-- Behind some blanks, or none, `marker` comes next. -/
def Follows (marker rest : Bytes) : Prop :=
  ∃ blanks after, (∀ b ∈ blanks, Byte.isBlank b = true) ∧ rest = blanks ++ (marker ++ after)

/-- Two bytes or more, with a capital among them and nothing but capitals, digits and
underscores. -/
def Capitals (word : Bytes) : Prop :=
  2 ≤ word.length ∧ (∃ b ∈ word, Byte.isUpper b = true) ∧
    ∀ b ∈ word, Byte.isUpper b = true ∨ Byte.isDigit b = true ∨ b = Byte.underscore

/-- What follows behind blanks is what is left of the bytes without them. -/
theorem follows_iff {b : UInt8} (notBlank : Byte.isBlank b = false) (marker rest : Bytes) :
    Follows (b :: marker) rest ↔ b :: marker <+: rest.dropWhile Byte.isBlank := by
  constructor
  · rintro ⟨blanks, after, allBlank, rfl⟩
    rw [List.dropWhile_append_of_pos allBlank, List.cons_append, List.dropWhile_cons, notBlank]
    exact ⟨after, rfl⟩
  · rintro ⟨after, afterEq⟩
    refine ⟨rest.takeWhile Byte.isBlank, after, fun b member => List.mem_takeWhile_imp member, ?_⟩
    rw [afterEq, List.takeWhile_append_dropWhile]

end Bytes

open Bytes

/-- The kind that a grammar gives to the word `name` in front of the bytes `after`. -/
inductive Grammar.Classifies (grammar : Grammar) (name : String) (after : Bytes) :
    TokenKind → Prop where
  | boolean (listed : grammar.classify? name = some .boolean) :
      Classifies grammar name after .boolean
  | null (listed : grammar.classify? name = some .null) : Classifies grammar name after .null
  | control (listed : grammar.classify? name = some .control) :
      Classifies grammar name after .control
  | keyword (listed : grammar.classify? name = some .keyword) :
      Classifies grammar name after .keyword
  | typeName (listed : grammar.classify? name = some .typeName) :
      Classifies grammar name after .typeName
  | functionName (unlisted : grammar.classify? name = none)
      (call : Follows (Utf8.bytes "(") after) : Classifies grammar name after .functionName
  | scope (unlisted : grammar.classify? name = none)
      (noCall : ¬Follows (Utf8.bytes "(") after)
      (scope : Follows (Utf8.bytes "::") after ∧
        grammar.operatorLength? (Utf8.bytes "::") = some 2) : Classifies grammar name after .scope
  | constant (unlisted : grammar.classify? name = none)
      (noCall : ¬Follows (Utf8.bytes "(") after)
      (noScope : ¬(Follows (Utf8.bytes "::") after ∧
        grammar.operatorLength? (Utf8.bytes "::") = some 2))
      (capitals : Capitals (Utf8.bytes name)) : Classifies grammar name after .constant
  | identifier (unlisted : grammar.classify? name = none)
      (noCall : ¬Follows (Utf8.bytes "(") after)
      (noScope : ¬(Follows (Utf8.bytes "::") after ∧
        grammar.operatorLength? (Utf8.bytes "::") = some 2))
      (noCapitals : ¬Capitals (Utf8.bytes name)) : Classifies grammar name after .identifier

namespace Lexeme

/-! ## The kinds of words -/

theorem isConstantName_iff (word : Bytes) : isConstantName word = true ↔ Capitals word := by
  simp only [isConstantName, Capitals, Bool.and_eq_true, decide_eq_true_eq, List.any_eq_true,
    List.all_eq_true, Bool.or_eq_true, beq_iff_eq, or_assoc, and_assoc]
  exact Iff.rfl

theorem head?_eq_openParen_iff (after : Bytes) :
    (after.dropWhile Byte.isBlank).head? = some Byte.openParen ↔
      Follows (Utf8.bytes "(") after := by
  change _ ↔ Follows [Byte.openParen] after
  rw [follows_iff rfl]
  cases after.dropWhile Byte.isBlank with
  | nil => simp
  | cons b rest => simp [eq_comm]

theorem scopeOperator_isPrefixOf_iff (after : Bytes) :
    scopeOperator.isPrefixOf (after.dropWhile Byte.isBlank) = true ↔
      Follows (Utf8.bytes "::") after := by
  change _ ↔ Follows scopeOperator after
  rw [List.isPrefixOf_iff_prefix, scopeOperator, follows_iff rfl]

theorem unlistedKind_classifies {grammar : Grammar} {name : String}
    (unlisted : grammar.classify? name = none) (after : Bytes) :
    grammar.Classifies name after (unlistedKind grammar (Utf8.bytes name) after) := by
  simp only [unlistedKind]
  split
  · rename_i call
    exact .functionName unlisted ((head?_eq_openParen_iff after).mp call)
  · rename_i noCall
    rw [head?_eq_openParen_iff] at noCall
    split
    · rename_i scope
      rw [scopeOperator_isPrefixOf_iff] at scope
      exact .scope unlisted noCall scope
    · rename_i noScope
      rw [scopeOperator_isPrefixOf_iff] at noScope
      split
      · rename_i capitals
        exact .constant unlisted noCall noScope ((isConstantName_iff _).mp capitals)
      · rename_i noCapitals
        rw [isConstantName_iff] at noCapitals
        exact .identifier unlisted noCall noScope noCapitals

/-- A word that is spelled `name` has the kind that the grammar gives to the name. -/
theorem wordKind_classifies (grammar : Grammar) {word : Bytes}
    (letters : ∀ b ∈ word, Byte.isWord b = true) (after : Bytes) :
    grammar.Classifies (wordText word) after (wordKind grammar word after) := by
  rw [wordKind]
  cases classEq : grammar.classify? (wordText word) with
  | some wordClass =>
      cases wordClass with
      | boolean => exact .boolean classEq
      | null => exact .null classEq
      | control => exact .control classEq
      | keyword => exact .keyword classEq
      | typeName => exact .typeName classEq
  | none =>
      have classified := unlistedKind_classifies classEq after
      rwa [bytes_wordText letters] at classified

/-! ## Where words end -/

variable {grammar : Grammar} {before rest : Bytes} {found : Lexeme}

/-- The bytes at which rules stop stand in no word. -/
theorem delimits_words : Delimits (Byte.isWord · = false) where
  space _ := Byte.isWord_of_isSpace
  backslash := rfl
  doubleQuote := rfl
  apostrophe := rfl
  greaterThan := rfl
  bracket := by decide +kernel
  separator := by decide +kernel

/-- A run of bytes of a word takes the word in to its end. -/
theorem takeWhile_isWord_stops (rest : Bytes) :
    Stops (Byte.isWord · = false) rest (rest.takeWhile Byte.isWord).length := by
  induction rest with
  | nil => exact .finish
  | cons b rest ih =>
      cases word : Byte.isWord b with
      | false =>
          rw [List.takeWhile_cons_of_neg (by rw [word]; exact Bool.false_ne_true)]
          exact .before List.getElem?_cons_zero word
      | true =>
          rw [List.takeWhile_cons_of_pos word, List.length_cons, Nat.add_comm]
          exact ih.cons b

theorem directiveTail_stops_words (rest : Bytes) :
    Stops (Byte.isWord · = false) (Byte.hash :: rest) (1 + directiveTail rest) := by
  simp only [directiveTail]
  split
  · have blanksLe := (List.takeWhile_prefix Byte.isBlank (l := rest)).length_le
    refine (Stops.of_drop blanksLe ?_).cons Byte.hash
    rw [← List.dropWhile_eq_drop]
    exact takeWhile_isWord_stops _
  · exact .behind List.getElem?_cons_zero rfl

theorem directive?_stops_words (foundEq : directive? grammar before rest = some found) :
    Stops (Byte.isWord · = false) rest found.length := by
  cases rest with
  | nil => cases foundEq
  | cons b rest =>
      simp only [directive?, Option.ite_none_right_eq_some, Bool.and_eq_true, beq_iff_eq,
        Option.some.injEq] at foundEq
      obtain ⟨⟨⟨_, rfl⟩, _⟩, rfl⟩ := foundEq
      exact directiveTail_stops_words rest

theorem numeral?_stops_words (foundEq : numeral? grammar rest = some found) :
    Stops (Byte.isWord · = false) rest found.length := by
  rw [numeral?, Option.ite_none_right_eq_some, Option.some.injEq] at foundEq
  obtain ⟨_, rfl⟩ := foundEq
  exact .of_drop (numeralBody_le _ rest) (takeWhile_isWord_stops _)

theorem word?_stops_words (foundEq : word? grammar rest = some found) :
    Stops (Byte.isWord · = false) rest found.length := by
  obtain ⟨_, rawEq | prefixedEq | rfl⟩ := word?_cases foundEq
  · exact rawString?_stops delimits_words.closes rawEq
  · exact prefixedQuoted?_stops delimits_words.closes prefixedEq
  · exact takeWhile_isWord_stops rest

theorem operator?_stops_words (valid : grammar.IsValid)
    (foundEq : operator? grammar rest = some found) :
    Stops (Byte.isWord · = false) rest found.length := by
  have lengthPos := (operator?_fits foundEq).length_pos
  rw [operator?, Grammar.operatorLength?, Option.map_eq_some_iff] at foundEq
  obtain ⟨length, lengthEq, rfl⟩ := foundEq
  obtain ⟨operator, member, _, stands, rfl⟩ := longestMatch?_eq_some lengthEq
  have outside : ∀ b ∈ Utf8.bytes operator, Byte.isWord b = false := by
    intro b holds
    have unreserved := valid.isReserved_operator member holds
    simp only [Grammar.isReserved, Bool.or_eq_false_iff] at unreserved
    exact unreserved.1.1.2
  exact (RunOf.of_prefix outside stands).stops lengthPos

/-- Where neither a numeral nor a word starts, no byte of a word stands. -/
theorem isWord_eq_false_of_none {b : UInt8} (noNumeral : numeral? grammar (b :: rest) = none)
    (noWord : word? grammar (b :: rest) = none) : Byte.isWord b = false := by
  have noDigit : isNumeralStart (b :: rest) = false := by
    cases starts : isNumeralStart (b :: rest) with
    | false => rfl
    | true =>
        rw [numeral?, if_pos starts] at noNumeral
        cases noNumeral
  have noStart : Byte.isWordStart b = false := by
    cases starts : Byte.isWordStart b with
    | false => rfl
    | true =>
        rw [word?, List.head?_cons, Option.any_some, if_pos starts] at noWord
        cases noWord
  rw [isNumeralStart, Bool.or_eq_false_iff] at noDigit
  rw [Byte.isWord_eq, noDigit.1, noStart, Bool.or_false]

theorem unknown_stops_words (nonempty : rest ≠ []) (noNumeral : numeral? grammar rest = none)
    (noWord : word? grammar rest = none) :
    Stops (Byte.isWord · = false) rest (unknown rest).length := by
  obtain ⟨b, rest, rfl⟩ := List.exists_cons_of_ne_nil nonempty
  have first := isWord_eq_false_of_none noNumeral noWord
  have more : RunOf (Byte.isWord · = false) rest
      ((rest.take (expectedContinuation b)).takeWhile Byte.isContinuation).length := by
    refine RunOf.of_prefix ?_ ((List.takeWhile_prefix _).trans (List.take_prefix _ rest))
    intro c member
    exact Byte.isWord_of_isContinuation (List.mem_takeWhile_imp member)
  exact (RunOf.cons first more).stops (Nat.add_pos_left Nat.one_pos _)

/-- Whatever a valid grammar reads, it does not stop within a word. -/
theorem read_stops_words (valid : grammar.IsValid)
    (closing : ∀ markers ∈ grammar.blockComment, ∀ b ∈ (Utf8.bytes markers.closing).getLast?,
      Byte.isWord b = false)
    (before : Bytes) (nonempty : rest ≠ []) :
    Stops (Byte.isWord · = false) rest (read grammar before rest).length := by
  apply read_induction (motive := fun found => Stops (Byte.isWord · = false) rest found.length)
  case ofSpace =>
    intro found foundEq
    exact space?_stops delimits_words foundEq
  case ofLineJoin =>
    intro found foundEq
    exact lineJoin?_stops delimits_words foundEq
  case ofLineComment =>
    intro found foundEq
    exact lineComment?_stops delimits_words.closes foundEq
  case ofBlockComment =>
    intro found foundEq
    exact blockComment?_stops valid closing foundEq
  case ofDirective =>
    intro found foundEq
    exact directive?_stops_words foundEq
  case ofHeader =>
    intro found foundEq
    exact header?_stops delimits_words.closes foundEq
  case ofQuoted =>
    intro found foundEq
    exact quoted?_stops delimits_words.closes foundEq
  case ofNumeral =>
    intro found foundEq
    exact numeral?_stops_words foundEq
  case ofWord =>
    intro found foundEq
    exact word?_stops_words foundEq
  case ofBracket =>
    intro found foundEq
    exact bracket?_stops delimits_words foundEq
  case ofOperator =>
    intro found foundEq
    exact operator?_stops_words valid foundEq
  case ofUnknown =>
    intro noNumeral noWord
    exact unknown_stops_words nonempty noNumeral noWord

end Lexeme

namespace Lexer

open Lexeme

variable {grammar : Grammar} {text : Bytes} {start : Nat}

/-! ## Words in the token stream -/

/-- A rule that does not stop within a word leaves the words of the text whole. -/
theorem not_splitsWord_of_stops {length : Nat} (inside : start ≤ text.length)
    (stops : Stops (Byte.isWord · = false) (text.drop start) length) :
    ¬SplitsWord text (start + length) := by
  rintro ⟨last, b, c, placeEq, leftEq, rightEq, leftWord, rightWord⟩
  rw [← placeEq] at rightEq
  cases stops with
  | finish =>
      rw [List.length_drop, Nat.add_sub_cancel' inside, List.getElem?_length] at rightEq
      cases rightEq
  | before found outside =>
      rw [List.getElem?_drop, rightEq] at found
      cases found
      cases outside.symm.trans rightWord
  | behind found outside =>
      rw [← Nat.add_assoc, Nat.add_left_inj] at placeEq
      rw [List.getElem?_drop, placeEq, leftEq] at found
      cases found
      cases outside.symm.trans leftWord

/-- The token at a place where no word is split ends at such a place. -/
theorem not_splitsWord_tokenAt (valid : grammar.IsValid)
    (closing : ∀ markers ∈ grammar.blockComment, ∀ b ∈ (Utf8.bytes markers.closing).getLast?,
      Byte.isWord b = false)
    (inside : start < text.length) :
    ¬SplitsWord text ((table grammar).tokenAt text start).stop := by
  have nonempty : text.drop start ≠ [] := by
    intro empty
    exact absurd (List.drop_eq_nil_iff.mp empty) (Nat.not_le_of_gt inside)
  exact not_splitsWord_of_stops (Nat.le_of_lt inside)
    (read_stops_words valid closing (text.take start).reverse nonempty)

/-- From a place where no word is split on, no token splits a word. -/
theorem not_splitsWord_of_mem (valid : grammar.IsValid)
    (closing : ∀ markers ∈ grammar.blockComment, ∀ b ∈ (Utf8.bytes markers.closing).getLast?,
      Byte.isWord b = false)
    (whole : ¬SplitsWord text start) :
    ∀ token ∈ (table grammar).tokensFrom text start,
      ¬SplitsWord text token.start ∧ ¬SplitsWord text token.stop := by
  refine (table grammar).tokensFrom_induction (motive := fun start tokens =>
    ¬SplitsWord text start → ∀ token ∈ tokens,
      ¬SplitsWord text token.start ∧ ¬SplitsWord text token.stop) ?_ ?_ start whole
  · intro start _ _ token member
    cases member
  · intro start inside ih whole token member
    have stopWhole := not_splitsWord_tokenAt valid closing inside
    rcases List.mem_cons.mp member with rfl | member
    · exact ⟨whole, stopWhole⟩
    · exact ih stopWhole token member

/-- Where a word starts, its bytes are not none and the first of them is no digit. -/
theorem takeWhile_isWord_of_starts {rest : Bytes}
    (starts : rest.head?.any Byte.isWordStart = true) :
    rest.takeWhile Byte.isWord ≠ [] ∧
      ∀ b ∈ (rest.takeWhile Byte.isWord).head?, Byte.isDigit b = false := by
  cases rest with
  | nil => cases starts
  | cons b rest =>
      have starts : Byte.isWordStart b = true := starts
      rw [List.takeWhile_cons_of_pos (isWord_of_isWordStart starts)]
      constructor
      · exact List.cons_ne_nil _ _
      · rintro c ⟨⟩
        exact Byte.isDigit_of_isWordStart starts

/-- A token of a kind of words is the word that starts there. -/
theorem slice_of_isWord {token : Token} (member : token ∈ (table grammar).tokensFrom text start)
    (isWord : token.kind.isWord = true) :
    (text.drop token.start).head?.any Byte.isWordStart = true ∧
      token.slice text = (text.drop token.start).takeWhile Byte.isWord ∧
      token.kind = wordKind grammar (token.slice text) (text.drop token.stop) := by
  obtain ⟨_, tokenEq⟩ := (table grammar).eq_tokenAt_of_mem member
  generalize token.start = start at tokenEq
  subst tokenEq
  obtain ⟨starts, readEq⟩ := eq_bareWord_of_isWord isWord
  have lexemeEq : (table grammar).lexemeAt text start = bareWord grammar (text.drop start) :=
    readEq
  have sliceEq : ((table grammar).tokenAt text start).slice text =
      (text.drop start).takeWhile Byte.isWord := by
    rw [slice_tokenAt, lexemeEq]
    exact (List.prefix_iff_eq_take.mp (List.takeWhile_prefix _)).symm
  have dropEq : text.drop ((table grammar).tokenAt text start).stop =
      (text.drop start).dropWhile Byte.isWord := by
    rw [tokenAt, lexemeEq, List.dropWhile_eq_drop, List.drop_drop]
    rfl
  refine ⟨starts, sliceEq, ?_⟩
  rw [sliceEq, dropEq, tokenAt, lexemeEq]
  rfl

/-- With a valid grammar whose block comments do not end like a word, no token starts
or ends within a word.  A token of a kind of words consists of letters, digits and
underscores, does not start with a digit, and has the kind that the grammar gives to
its text. -/
theorem tokenize_words {grammar : Grammar} (accepted : grammar.validate = .ok grammar)
    (closing : ∀ markers ∈ grammar.blockComment, ∀ b ∈ (Utf8.bytes markers.closing).getLast?,
      Byte.isWord b = false)
    (text : Bytes) :
    ∀ token ∈ (table grammar).tokenize text,
      ¬SplitsWord text token.start ∧ ¬SplitsWord text token.stop ∧
        (token.kind.isWord = true →
          token.slice text ≠ [] ∧ (∀ b ∈ token.slice text, Byte.isWord b = true) ∧
            (∀ b ∈ (token.slice text).head?, Byte.isDigit b = false) ∧
            ∃ name : String, Utf8.bytes name = token.slice text ∧
              grammar.Classifies name (text.drop token.stop) token.kind) := by
  have valid := (Grammar.validate_eq_ok_iff.mp accepted).2
  have whole : ¬SplitsWord text 0 := by
    rintro ⟨last, _, _, zeroEq, _⟩
    cases zeroEq
  intro token member
  obtain ⟨startWhole, stopWhole⟩ := not_splitsWord_of_mem valid closing whole token member
  refine ⟨startWhole, stopWhole, ?_⟩
  intro isWord
  obtain ⟨starts, sliceEq, kindEq⟩ := slice_of_isWord member isWord
  obtain ⟨nonempty, noDigit⟩ := takeWhile_isWord_of_starts starts
  rw [← sliceEq] at nonempty noDigit
  have letters : ∀ b ∈ token.slice text, Byte.isWord b = true := by
    rw [sliceEq]
    exact fun b member => List.mem_takeWhile_imp member
  have classified := wordKind_classifies grammar letters (text.drop token.stop)
  rw [← kindEq] at classified
  exact ⟨nonempty, letters, noDigit, wordText (token.slice text), bytes_wordText letters,
    classified⟩

/-- A word that starts like an encoding prefix, in front of the scope operator. -/
theorem tokenize_words_scope :
    let grammar := { Grammar.base with
      name := "demo", operators := ["::"], stringPrefixes := ["u8"] }
    ∃ name : String, Utf8.bytes name = Utf8.bytes "u8foo" ∧
      grammar.Classifies name (Utf8.bytes "::MAX") .scope := by
  intro grammar
  have valid : grammar.fault? = none := by decide
  have accepted := Grammar.validate_eq_ok_iff.mpr ⟨rfl, valid⟩
  have closing : ∀ markers ∈ grammar.blockComment,
      ∀ b ∈ (Utf8.bytes markers.closing).getLast?, Byte.isWord b = false := by decide +kernel
  have member : (⟨.scope, 5, 10⟩ : Token) ∈
      (table grammar).tokenize (Utf8.bytes "0x1f u8foo::MAX") := by decide
  exact ((tokenize_words accepted closing _ _ member).2.2 rfl).2.2.2

end Lexer

end Highlight
