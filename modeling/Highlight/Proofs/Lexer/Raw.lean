import Highlight.Proofs.Grammar.Builtin
import Highlight.Proofs.Lexer.Quoted
import Mathlib.Data.List.TakeWhile

/-!
# Where raw strings end

A raw string brings its own closing: a parenthesis, the delimiter chosen at its opening and
a quote.  Whatever stands in its body, the string ends at the first such closing.  That is
the one written behind the body, unless the body has one itself: the parenthesis is no
delimiter byte, so no closing can start in the body and end behind it.
-/

namespace Highlight

namespace Lexeme

/-! ## The first closing -/

/-- What has no closing runs to its end. -/
theorem blockCommentTail_of_not_infix {closing body : Bytes} (absent : ¬closing <:+: body) :
    blockCommentTail closing body = body.length := by
  induction body with
  | nil => exact blockCommentTail_nil closing
  | cons b body ih =>
      obtain ⟨notHere, notLater⟩ := not_or.mp (mt List.infix_cons_iff.mpr absent)
      rw [blockCommentTail_cons, if_neg (mt List.isPrefixOf_iff_prefix.mp notHere), ih notLater,
        List.length_cons, Nat.add_comm]

/-- A closing that has its first byte only once does not start in front of another one and
end in it. -/
theorem not_prefix_append {first b : UInt8} {more body : Bytes} (once : first ∉ more)
    (absent : ¬first :: more <+: b :: body) (rest : Bytes) :
    ¬first :: more <+: b :: (body ++ (first :: more ++ rest)) := by
  intro stands
  -- A closing that reaches the next one takes in the first byte of it.
  rcases Nat.lt_or_ge body.length more.length with longer | within
  · apply once
    have reaches : b :: (body ++ [first]) <+: first :: more := by
      refine List.prefix_of_prefix_length_le ⟨more ++ rest, ?_⟩ stands ?_
      · simp
      · simpa using Nat.succ_le_of_lt longer
    exact (List.cons_prefix_cons.mp reaches).2.subset (by simp)
  · apply absent
    refine List.prefix_of_prefix_length_le stands ⟨first :: more ++ rest, rfl⟩ ?_
    simpa using within

/-- What stands in front of a closing ends with it. -/
theorem blockCommentTail_append {first : UInt8} {more body : Bytes} (once : first ∉ more)
    (absent : ¬first :: more <:+: body) (rest : Bytes) :
    blockCommentTail (first :: more) (body ++ (first :: more ++ rest)) =
      body.length + (first :: more).length := by
  induction body with
  | nil =>
      have here : (first :: more).isPrefixOf (first :: more ++ rest) = true :=
        List.isPrefixOf_iff_prefix.mpr (List.prefix_append _ _)
      rw [List.nil_append, List.cons_append, blockCommentTail_cons, ← List.cons_append,
        if_pos here, List.length_nil, Nat.zero_add]
  | cons b body ih =>
      obtain ⟨notHere, notLater⟩ := not_or.mp (mt List.infix_cons_iff.mpr absent)
      have goesOn := not_prefix_append once notHere rest
      rw [List.cons_append, blockCommentTail_cons,
        if_neg (mt List.isPrefixOf_iff_prefix.mp goesOn), ih notLater, ← Nat.add_assoc,
        Nat.add_comm 1]
      rfl

/-! ## Delimiters -/

/-- What may stand between the quote and the parenthesis that open a raw string. -/
structure RawDelimiter (delimiter : Bytes) : Prop where
  length_le : delimiter.length ≤ 16
  printable : ∀ b ∈ delimiter, 0x20 < b ∧ b < 0x7F
  openParen : Byte.openParen ∉ delimiter
  closeParen : Byte.closeParen ∉ delimiter
  backslash : Byte.backslash ∉ delimiter
  doubleQuote : Byte.doubleQuote ∉ delimiter

theorem isRawDelimiter_iff {b : UInt8} : isRawDelimiter b = true ↔
    (0x20 < b ∧ b < 0x7F) ∧ b ≠ Byte.openParen ∧ b ≠ Byte.closeParen ∧ b ≠ Byte.backslash ∧
      b ≠ Byte.doubleQuote := by
  have above : 0x21 ≤ b ↔ 0x20 < b := by
    rw [UInt8.le_iff_toNat_le, UInt8.lt_iff_toNat_lt]
    exact Iff.rfl
  have below : b ≤ 0x7E ↔ b < 0x7F := by
    rw [UInt8.le_iff_toNat_le, UInt8.lt_iff_toNat_lt]
    exact Nat.lt_succ_iff.symm
  simp only [isRawDelimiter, Byte.isGraphic, Bool.and_eq_true, decide_eq_true_eq, bne_iff_ne,
    above, below, and_assoc]

theorem rawDelimiter_iff {delimiter : Bytes} : RawDelimiter delimiter ↔
    delimiter.length ≤ maxRawDelimiter ∧ ∀ b ∈ delimiter, isRawDelimiter b = true := by
  constructor
  · intro valid
    refine ⟨valid.length_le, fun b member => isRawDelimiter_iff.mpr ⟨valid.printable b member, ?_⟩⟩
    have other {c : UInt8} (absent : c ∉ delimiter) : b ≠ c := fun equal => absent (equal ▸ member)
    exact ⟨other valid.openParen, other valid.closeParen, other valid.backslash,
      other valid.doubleQuote⟩
  · rintro ⟨length_le, allowed⟩
    have absent {c : UInt8} (forbidden : isRawDelimiter c = false) : c ∉ delimiter := by
      intro member
      cases forbidden.symm.trans (allowed c member)
    exact ⟨length_le, fun b member => (isRawDelimiter_iff.mp (allowed b member)).1,
      absent rfl, absent rfl, absent rfl, absent rfl⟩

/-- The closing of a raw string has one closing parenthesis. -/
theorem RawDelimiter.closeParen_notMem {delimiter : Bytes} (valid : RawDelimiter delimiter) :
    Byte.closeParen ∉ delimiter ++ [Byte.doubleQuote] := by
  rw [List.mem_append, List.mem_singleton, not_or]
  exact ⟨valid.closeParen, by decide⟩

/-- Behind a delimiter and a parenthesis the closing is looked for. -/
theorem RawDelimiter.rawTail?_append {delimiter : Bytes} (valid : RawDelimiter delimiter)
    (rest : Bytes) : rawTail? (delimiter ++ Byte.openParen :: rest) =
      some (delimiter.length + 1 + blockCommentTail (rawClosing delimiter) rest) := by
  obtain ⟨length_le, allowed⟩ := rawDelimiter_iff.mp valid
  have ends : ∀ b ∈ (Byte.openParen :: rest).head?, isRawDelimiter b = false := by
    rintro b ⟨⟩
    rfl
  rw [rawTail?_eq, List.takeWhile_append_eq_left allowed ends, List.dropWhile_append_eq_right allowed ends,
    if_pos ⟨length_le, rfl⟩]
  rfl

/-- Without a delimiter and a parenthesis there is no raw string. -/
theorem rawTail?_eq_none {rest : Bytes}
    (absent : ∀ delimiter, RawDelimiter delimiter → ¬delimiter ++ [Byte.openParen] <+: rest) :
    rawTail? rest = none := by
  rw [rawTail?_eq]
  apply if_neg
  rintro ⟨length_le, opens⟩
  obtain ⟨after, afterEq⟩ := List.head?_eq_some_iff.mp opens
  apply absent (rest.takeWhile isRawDelimiter)
  · rw [rawDelimiter_iff]
    exact ⟨length_le, fun b member => List.mem_takeWhile_imp member⟩
  · refine ⟨after, ?_⟩
    rw [List.append_assoc, List.singleton_append, ← afterEq, List.takeWhile_append_dropWhile]

/-! ## Reading raw strings -/

section Opening

/-- The letter in front of the quote of a raw string. -/
abbrev rawMark : UInt8 := 0x52

variable {grammar : Grammar} (family : grammar.CFamily)
  {encoding : String} (listed : encoding ∈ "" :: Grammar.encodingPrefixes)

/-- No encoding prefix has the letter of raw strings, and together they are a word. -/
theorem encodingPrefixes_words : ∀ encoding ∈ "" :: Grammar.encodingPrefixes,
    rawMark ∉ Utf8.bytes encoding ∧
      (∀ b ∈ Utf8.bytes encoding ++ [rawMark], Byte.isWord b = true) ∧
      (Utf8.bytes encoding ++ [rawMark]).head?.any Byte.isWordStart = true := by
  decide +kernel

include listed

theorem bareWord_length_of_rawMark (after : Bytes) :
    (bareWord grammar (Utf8.bytes encoding ++ rawMark :: Byte.doubleQuote :: after)).length =
      (Utf8.bytes encoding).length + 1 := by
  obtain ⟨_, words, _⟩ := encodingPrefixes_words encoding listed
  have ends : ∀ b ∈ (Byte.doubleQuote :: after).head?, Byte.isWord b = false := by
    rintro b ⟨⟩
    rfl
  rw [bareWord, List.append_cons, List.takeWhile_append_eq_left words ends, List.length_append,
    List.length_singleton]

include family

theorem prefixLength_of_rawMark (after : Bytes) :
    prefixLength grammar (Utf8.bytes encoding ++ rawMark :: after) =
      (Utf8.bytes encoding).length := by
  apply prefixLength_of_notMem
  · rw [family.stringPrefixes]
    intro other otherListed
    exact (encodingPrefixes_words other (List.mem_cons_of_mem _ otherListed)).1
  · rw [family.stringPrefixes]
    rcases List.mem_cons.mp listed with rfl | listed
    · exact Or.inl rfl
    · exact Or.inr listed

/-- Behind a prefix, the letter and the quote there is a raw string, or the prefix and the
letter are a word. -/
theorem read_rawMark (raw : grammar.rawStrings = true) (before after : Bytes) :
    read grammar before (Utf8.bytes encoding ++ rawMark :: Byte.doubleQuote :: after) =
      ((rawTail? after).map fun tail =>
        ⟨.string, (Utf8.bytes encoding).length + 2 + tail⟩).getD
          (bareWord grammar (Utf8.bytes encoding ++ rawMark :: Byte.doubleQuote :: after)) := by
  have prefixEq := prefixLength_of_rawMark family listed (Byte.doubleQuote :: after)
  have markDrop : (Utf8.bytes encoding ++ rawMark :: Byte.doubleQuote :: after).drop
      (Utf8.bytes encoding).length = rawMark :: Byte.doubleQuote :: after := List.drop_left
  obtain ⟨_, _, starts⟩ := encodingPrefixes_words encoding listed
  obtain ⟨b, more, wordEq⟩ := List.exists_cons_of_ne_nil
    (List.append_ne_nil_of_right_ne_nil (Utf8.bytes encoding) (List.cons_ne_nil rawMark []))
  rw [wordEq, List.head?_cons, Option.any_some] at starts
  have restEq : Utf8.bytes encoding ++ rawMark :: Byte.doubleQuote :: after =
      b :: (more ++ Byte.doubleQuote :: after) := by
    rw [List.append_cons, wordEq, List.cons_append]
  rw [restEq] at prefixEq markDrop ⊢
  have rawEq : rawString? grammar (b :: (more ++ Byte.doubleQuote :: after)) =
      (rawTail? after).map fun tail => ⟨.string, (Utf8.bytes encoding).length + 2 + tail⟩ := by
    have afterDrop : (b :: (more ++ Byte.doubleQuote :: after)).drop
        ((Utf8.bytes encoding).length + 2) = after := by
      rw [← List.drop_drop, markDrop]
      rfl
    simp [rawString?, prefixEq, raw, markDrop, afterDrop]
  have quotedEq : prefixedQuoted? grammar (b :: (more ++ Byte.doubleQuote :: after)) = none := by
    have noQuote : quoted? (rawMark :: Byte.doubleQuote :: after) = none := rfl
    simp [prefixedQuoted?, prefixEq, markDrop, noQuote]
  apply read_of_isWordStart family starts
  rw [word?, List.head?_cons, Option.any_some, if_pos starts, rawEq, quotedEq, Option.or_none]

/-- The bytes that open a raw string. -/
def rawOpening (encoding : String) (delimiter : Bytes) : Bytes :=
  Utf8.bytes encoding ++ rawMark :: Byte.doubleQuote :: (delimiter ++ [Byte.openParen])

theorem read_rawOpening (raw : grammar.rawStrings = true) {delimiter : Bytes}
    (valid : RawDelimiter delimiter) (before body : Bytes) :
    read grammar before (rawOpening encoding delimiter ++ body) =
      ⟨.string, (rawOpening encoding delimiter).length +
        blockCommentTail (rawClosing delimiter) body⟩ := by
  have textEq : rawOpening encoding delimiter ++ body = Utf8.bytes encoding ++
      rawMark :: Byte.doubleQuote :: (delimiter ++ Byte.openParen :: body) := by
    simp [rawOpening]
  rw [textEq, read_rawMark family listed raw, valid.rawTail?_append, Option.map_some,
    Option.getD_some, Lexeme.mk.injEq]
  refine ⟨rfl, ?_⟩
  simp only [rawOpening, List.length_append, List.length_cons, List.length_nil]
  omega

end Opening

end Lexeme

namespace Lexer

open Lexeme

/-- With the grammar of C++ and any overrides, a raw string with an encoding prefix or none
and a proper delimiter ends at the closing behind its body, if the body has none, and with
the text if there is no closing at all.  Without a proper delimiter and a parenthesis behind
the quote there is no raw string, but a word. -/
theorem tokenize_rawString (overrides : List Override) {encoding : String}
    (listed : encoding ∈ ["", "u8", "u", "U", "L"]) :
    (∀ delimiter body, RawDelimiter delimiter → ¬rawClosing delimiter <:+: body →
      (∀ rest, ((table (overrides.foldl Grammar.extend Grammar.cpp)).tokenize
        (rawOpening encoding delimiter ++ body ++ rawClosing delimiter ++ rest)).head? =
          some ⟨.string, 0,
            (rawOpening encoding delimiter ++ body ++ rawClosing delimiter).length⟩) ∧
      (table (overrides.foldl Grammar.extend Grammar.cpp)).tokenize
        (rawOpening encoding delimiter ++ body) =
          [⟨.string, 0, (rawOpening encoding delimiter ++ body).length⟩]) ∧
    ∀ after, (∀ delimiter, RawDelimiter delimiter → ¬delimiter ++ [Byte.openParen] <+: after) →
      ∃ kind, kind.isWord = true ∧
        ((table (overrides.foldl Grammar.extend Grammar.cpp)).tokenize
          (Utf8.bytes encoding ++ rawMark :: Byte.doubleQuote :: after)).head? =
            some ⟨kind, 0, (Utf8.bytes encoding ++ [rawMark]).length⟩ := by
  have family := Grammar.cFamily_cpp.foldl_extend overrides
  have raw : (overrides.foldl Grammar.extend Grammar.cpp).rawStrings = true :=
    (Grammar.cpp.grows_foldl_extend overrides).rawStrings
  generalize overrides.foldl Grammar.extend Grammar.cpp = grammar at family raw ⊢
  have opens (delimiter body : Bytes) : rawOpening encoding delimiter ++ body ≠ [] := by
    simp [rawOpening]
  constructor
  · intro delimiter body valid absent
    have reads := read_rawOpening family listed raw valid []
    constructor
    · intro rest
      rw [List.append_assoc, List.append_assoc, tokenize_eq_cons _ (opens _ _), List.head?_cons,
        lexeme, reads, rawClosing, blockCommentTail_append valid.closeParen_notMem absent]
      simp only [List.length_append, Nat.add_assoc]
    · rw [tokenize_eq_cons _ (opens _ _), lexeme, reads, blockCommentTail_of_not_infix absent,
        ← List.length_append, tokensFrom_of_le _ (Nat.le_refl _)]
  · intro after absent
    have nonempty : Utf8.bytes encoding ++ rawMark :: Byte.doubleQuote :: after ≠ [] := by simp
    refine ⟨(bareWord grammar (Utf8.bytes encoding ++ rawMark :: Byte.doubleQuote :: after)).kind,
      bareWord_isWord grammar _, ?_⟩
    rw [tokenize_eq_cons _ nonempty, List.head?_cons, lexeme, read_rawMark family listed raw,
      rawTail?_eq_none absent, Option.map_none, Option.getD_none,
      bareWord_length_of_rawMark listed, List.length_append, List.length_singleton]

/-- A line break, a quote and parts of the closing do not end the body, and a delimiter of
seventeen bytes opens nothing. -/
theorem tokenize_rawString_nearMisses :
    ((table ([{ keywords := ["u8R"] }].foldl Grammar.extend Grammar.cpp)).tokenize
      (rawOpening "u8" (Utf8.bytes "ab") ++ Utf8.bytes ")a\"\n)a" ++
        rawClosing (Utf8.bytes "ab") ++ Utf8.bytes ")ab\"")).head? = some ⟨.string, 0, 17⟩ ∧
    ∃ kind, kind.isWord = true ∧
      ((table ([{ keywords := ["u8R"] }].foldl Grammar.extend Grammar.cpp)).tokenize
        (Utf8.bytes "u8" ++ rawMark :: Byte.doubleQuote ::
          (List.replicate 17 rawMark ++ [Byte.openParen]))).head? = some ⟨kind, 0, 3⟩ := by
  have listed : "u8" ∈ ["", "u8", "u", "U", "L"] := by decide
  obtain ⟨closed, unopened⟩ := tokenize_rawString [{ keywords := ["u8R"] }] listed
  constructor
  · have valid : RawDelimiter (Utf8.bytes "ab") :=
      rawDelimiter_iff.mpr ⟨by decide, by decide +kernel⟩
    have absent : ¬rawClosing (Utf8.bytes "ab") <:+: Utf8.bytes ")a\"\n)a" := by
      intro stands
      have member : 0x62 ∈ Utf8.bytes ")a\"\n)a" := stands.subset (by decide)
      exact absurd member (by decide)
    have lengthEq : (rawOpening "u8" (Utf8.bytes "ab") ++ Utf8.bytes ")a\"\n)a" ++
        rawClosing (Utf8.bytes "ab")).length = 17 := by decide
    rw [(closed _ _ valid absent).1, lengthEq]
  · apply unopened
    intro delimiter valid stands
    have short : (delimiter ++ [Byte.openParen]).length ≤ 17 := by
      rw [List.length_append]
      exact Nat.succ_le_succ valid.length_le
    have within : delimiter ++ [Byte.openParen] <+: List.replicate 17 rawMark :=
      List.prefix_take_iff.mpr ⟨stands, short⟩
    cases List.eq_of_mem_replicate (within.subset (List.mem_append_right _ List.mem_cons_self))

end Lexer

end Highlight
