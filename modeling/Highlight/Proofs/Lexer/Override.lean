import Highlight.Proofs.Grammar.Override
import Highlight.Proofs.Lexer.Walk
import Highlight.Proofs.Text.Boundary
import Mathlib.Data.List.Forall2
import Mathlib.Data.List.TakeWhile

/-!
# Tokens under an override

Where a token ends depends on the markers, operators, prefixes and features of a
grammar, never on its words.  Grammars that are alike therefore cut a text in the
same way, and only the kind of a word can differ.  The bytes of such a token spell
a word that the two grammars classify differently, so for an extended grammar it is
one of the words that were added.
-/

namespace Highlight

namespace Utf8

theorem utf8EncodeChar_ofNat :
    ∀ n < 128, String.utf8EncodeChar (Char.ofNat n) = [UInt8.ofNat n] := by
  decide

/-- ASCII bytes are spelled by the characters with their codes. -/
theorem encode_map_ofNat {word : Bytes} (ascii : ∀ b ∈ word, b < 0x80) :
    encode (word.map fun b => Char.ofNat b.toNat) = word := by
  induction word with
  | nil => rfl
  | cons b word ih =>
      rcases List.forall_mem_cons.mp ascii with ⟨asciiByte, asciiWord⟩
      have lt : b.toNat < 128 := UInt8.lt_iff_toNat_lt.mp asciiByte
      rw [List.map_cons, encode_cons, utf8EncodeChar_ofNat b.toNat lt, ih asciiWord,
        UInt8.ofNat_toNat]
      rfl

end Utf8

namespace Lexeme

/-- The text of a word is spelled by its bytes. -/
theorem bytes_wordText {word : Bytes} (letters : ∀ b ∈ word, Byte.isWord b = true) :
    Utf8.bytes (wordText word) = word := by
  rw [Utf8.bytes, wordText, String.toList_ofList]
  exact Utf8.encode_map_ofNat fun b member => Byte.lt_of_isWord (letters b member)

/-! ## Grammars that are alike -/

variable {left right : Grammar} (alike : left.Alike right) {words : List String}
  (sameClass : ∀ word, word ∉ words → right.classify? word = left.classify? word)

/-- The two lexemes at the front of `rest` have the same length, and the same kind
unless their bytes spell one of `words`. -/
structure Recoloured (words : List String) (rest : Bytes) (found other : Lexeme) : Prop where
  length : other.length = found.length
  kind : other.kind ≠ found.kind → ∃ word ∈ words, rest.take found.length = Utf8.bytes word

theorem Recoloured.refl (words : List String) (rest : Bytes) (found : Lexeme) :
    Recoloured words rest found found where
  length := rfl
  kind differs := absurd rfl differs

include alike

theorem operatorLength?_of_alike (rest : Bytes) :
    right.operatorLength? rest = left.operatorLength? rest := by
  rw [Grammar.operatorLength?, Grammar.operatorLength?, alike.operators]

theorem prefixLength_of_alike (rest : Bytes) :
    prefixLength right rest = prefixLength left rest := by
  rw [prefixLength, prefixLength, Grammar.stringPrefixLength?, Grammar.stringPrefixLength?,
    alike.stringPrefixes]

theorem lineComment?_of_alike (before rest : Bytes) :
    lineComment? right before rest = lineComment? left before rest := by
  rw [lineComment?, lineComment?, alike.lineComment]

theorem blockComment?_of_alike (rest : Bytes) :
    blockComment? right rest = blockComment? left rest := by
  rw [blockComment?, blockComment?, alike.blockComment]

theorem directive?_of_alike (before rest : Bytes) :
    directive? right before rest = directive? left before rest := by
  cases rest with
  | nil => rfl
  | cons b rest => rw [directive?, directive?, alike.preprocessor]

theorem header?_of_alike (before rest : Bytes) :
    header? right before rest = header? left before rest := by
  cases rest with
  | nil => rfl
  | cons b rest => rw [header?, header?, alike.preprocessor]

theorem numeral?_of_alike (rest : Bytes) : numeral? right rest = numeral? left rest := by
  rw [numeral?, numeral?, alike.digitSeparators]

theorem rawString?_of_alike (rest : Bytes) : rawString? right rest = rawString? left rest := by
  simp only [rawString?, prefixLength_of_alike alike, alike.rawStrings]

theorem prefixedQuoted?_of_alike (rest : Bytes) :
    prefixedQuoted? right rest = prefixedQuoted? left rest := by
  simp only [prefixedQuoted?, prefixLength_of_alike alike]

theorem operator?_of_alike (rest : Bytes) : operator? right rest = operator? left rest := by
  rw [operator?, operator?, operatorLength?_of_alike alike]

theorem unlistedKind_of_alike (word after : Bytes) :
    unlistedKind right word after = unlistedKind left word after := by
  simp only [unlistedKind, operatorLength?_of_alike alike]

include sameClass

/-- A word of which the grammars have the same opinion has the same kind. -/
theorem wordKind_of_alike {word : Bytes} (unlisted : wordText word ∉ words) (after : Bytes) :
    wordKind right word after = wordKind left word after := by
  rw [wordKind, wordKind, sameClass _ unlisted, unlistedKind_of_alike alike]

theorem bareWord_recoloured (rest : Bytes) :
    Recoloured words rest (bareWord left rest) (bareWord right rest) where
  length := rfl
  kind := by
    intro differs
    have listed : wordText (rest.takeWhile Byte.isWord) ∈ words := by
      by_contra unlisted
      exact differs (wordKind_of_alike alike sameClass unlisted _)
    have letters : ∀ b ∈ rest.takeWhile Byte.isWord, Byte.isWord b = true :=
      fun b member => List.mem_takeWhile_imp member
    refine ⟨_, listed, ?_⟩
    rw [bytes_wordText letters]
    exact (List.prefix_iff_eq_take.mp (List.takeWhile_prefix _)).symm

theorem word?_recoloured (rest : Bytes) :
    Option.Rel (Recoloured words rest) (word? left rest) (word? right rest) := by
  rw [word?, word?, rawString?_of_alike alike, prefixedQuoted?_of_alike alike]
  split
  · cases (rawString? left rest).or (prefixedQuoted? left rest) with
    | some literal => exact .some (.refl words rest literal)
    | none => exact .some (bareWord_recoloured alike sameClass rest)
  · exact .none

/-- At every place, grammars that are alike read lexemes of the same length. -/
theorem read_recoloured (before rest : Bytes) :
    Recoloured words rest (read left before rest) (read right before rest) := by
  unfold read
  rw [lineComment?_of_alike alike, blockComment?_of_alike alike, directive?_of_alike alike,
    header?_of_alike alike, numeral?_of_alike alike, operator?_of_alike alike]
  -- Only the rule for words tells the grammars apart; the rules before it decide alike.
  generalize Option.or _ (numeral? left rest) = earlier
  cases earlier with
  | some found => exact .refl words rest found
  | none =>
      have agree := word?_recoloured alike sameClass rest
      revert agree
      generalize word? left rest = found
      generalize word? right rest = other
      intro agree
      cases agree with
      | none => exact .refl words rest _
      | some recoloured => exact recoloured

end Lexeme

namespace Lexer

/-- Grammars that are alike cut a text in the same way from every place on, and only
words of which they have different opinions differ in kind. -/
theorem tokensFrom_of_alike {left right : Grammar} (alike : left.Alike right) {words : List String}
    (sameClass : ∀ word, word ∉ words → right.classify? word = left.classify? word)
    (text : Bytes) (start : Nat) :
    List.Forall₂ (fun before after : Token =>
        after.start = before.start ∧ after.stop = before.stop ∧
          (after.kind ≠ before.kind → ∃ word ∈ words, before.slice text = Utf8.bytes word))
      ((table left).tokensFrom text start) ((table right).tokensFrom text start) := by
  apply (table left).tokensFrom_induction (motive := fun start tokens =>
    List.Forall₂ _ tokens ((table right).tokensFrom text start))
  case finish =>
    intro start outside
    rw [(table right).tokensFrom_of_le outside]
    exact .nil
  case step =>
    intro start inside ih
    have recoloured : Lexeme.Recoloured words (text.drop start)
        ((table left).lexemeAt text start) ((table right).lexemeAt text start) :=
      Lexeme.read_recoloured alike sameClass _ _
    have stopEq :
        ((table right).tokenAt text start).stop = ((table left).tokenAt text start).stop :=
      congrArg (start + ·) recoloured.length
    rw [(table right).tokensFrom_of_lt inside, stopEq]
    refine .cons ⟨rfl, stopEq, ?_⟩ ih
    intro differs
    have spelled := recoloured.kind differs
    simpa only [Token.slice, Token.length, tokenAt, Nat.add_sub_cancel_left] using spelled

/-- An override leaves every token of a text in its place.  The kind of a token
changes only if its text is one of the words that the override adds. -/
theorem tokenize_extend (grammar : Grammar) (extra : Override) (text : Bytes) :
    List.Forall₂ (fun before after : Token =>
        after.start = before.start ∧ after.stop = before.stop ∧
          (after.kind ≠ before.kind → ∃ word ∈ extra.words, before.slice text = Utf8.bytes word))
      ((table grammar).tokenize text) ((table (grammar.extend extra)).tokenize text) :=
  tokensFrom_of_alike (grammar.grows_extend extra).toAlike
    (fun _ unlisted => grammar.classify?_extend unlisted) text 0

example :
    let extra : Override := { types := ["word"] }
    (table Grammar.base).tokenize (Utf8.bytes "a word") =
        [⟨.identifier, 0, 1⟩, ⟨.whitespace, 1, 2⟩, ⟨.identifier, 2, 6⟩] ∧
      (table (Grammar.base.extend extra)).tokenize (Utf8.bytes "a word") =
        [⟨.identifier, 0, 1⟩, ⟨.whitespace, 1, 2⟩, ⟨.typeName, 2, 6⟩] := by
  decide

end Lexer

end Highlight
