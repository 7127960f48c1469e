import Highlight.Proofs.Grammar.Override
import Highlight.Proofs.Lexer.Kind
import Highlight.Proofs.Lexer.Walk
import Mathlib.Algebra.Ring.Parity

/-!
# Where quoted literals end

The scanner steps through a quoted literal escape by escape.  Where it ends can be said
without it: at the first quote or newline that is not escaped, and whether a byte is
escaped shows in the backslashes in front of it.

The places that the scanner steps on are those that are not escaped.  That is the
invariant of the walk, together with the fact that no place passed so far ends the
literal.
-/

namespace Highlight

namespace Bytes

/-- The number of backslashes right in front of a place. -/
def backslashesBefore (text : Bytes) (place : Nat) : Nat :=
  ((text.take place).reverse.takeWhile (· == Byte.backslash)).length

/-- A place is escaped if the backslashes in front of it are odd in number.  A newline is
also escaped if it belongs to one line break with an escaped carriage return. -/
def IsEscaped (text : Bytes) (place : Nat) : Prop :=
  Odd (backslashesBefore text place) ∨
    text[place]? = some Byte.newline ∧ ∃ last, place = last + 1 ∧
      text[last]? = some Byte.carriageReturn ∧ Odd (backslashesBefore text last)

/-- The quote, or a newline, that is not escaped. -/
def EndsQuoted (text : Bytes) (quote : UInt8) (place : Nat) : Prop :=
  (text[place]? = some quote ∨ text[place]? = some Byte.newline) ∧ ¬IsEscaped text place

/-- Nothing behind `opening` ends the literal in front of a place. -/
def Unclosed (text : Bytes) (quote : UInt8) (opening place : Nat) : Prop :=
  ∀ other, opening < other → other < place → ¬EndsQuoted text quote other

/-- Where the literal ends that a quote at `opening` starts: behind the quote or in front
of the newline that comes first, or with the text if there is neither. -/
inductive QuotedStop (text : Bytes) (quote : UInt8) (opening : Nat) : Nat → Prop where
  | closed {place : Nat} (behind : opening < place)
      (first : Unclosed text quote opening place)
      (found : text[place]? = some quote) (unescaped : ¬IsEscaped text place) :
      QuotedStop text quote opening (place + 1)
  | lineEnd {place : Nat} (behind : opening < place)
      (first : Unclosed text quote opening place)
      (found : text[place]? = some Byte.newline) (unescaped : ¬IsEscaped text place) :
      QuotedStop text quote opening place
  | textEnd (unclosed : Unclosed text quote opening text.length) :
      QuotedStop text quote opening text.length

variable {text rest : Bytes} {place opening : Nat} {b quote : UInt8}

/-! ## Backslashes and escapes -/

theorem backslashesBefore_succ (found : text[place]? = some b) :
    backslashesBefore text (place + 1) =
      if b = Byte.backslash then backslashesBefore text place + 1 else 0 := by
  rw [backslashesBefore, List.take_add_one, found, Option.toList_some, List.reverse_append,
    List.reverse_singleton, List.singleton_append, List.takeWhile_cons]
  by_cases backslash : b = Byte.backslash
  · rw [if_pos backslash, if_pos (beq_iff_eq.mpr backslash), List.length_cons, backslashesBefore]
  · rw [if_neg backslash, if_neg (fun equal => backslash (beq_iff_eq.mp equal)), List.length_nil]

theorem not_odd_of_not_isEscaped (unescaped : ¬IsEscaped text place) :
    ¬Odd (backslashesBefore text place) :=
  fun odd => unescaped (Or.inl odd)

/-- A backslash that is not escaped escapes what comes behind it. -/
theorem odd_behind_backslash (unescaped : ¬IsEscaped text place)
    (found : text[place]? = some Byte.backslash) :
    Odd (backslashesBefore text (place + 1)) := by
  rw [backslashesBefore_succ found, if_pos rfl]
  exact (Nat.not_odd_iff_even.mp (not_odd_of_not_isEscaped unescaped)).add_one

theorem not_odd_behind (found : text[place]? = some b) (notBackslash : b ≠ Byte.backslash) :
    ¬Odd (backslashesBefore text (place + 1)) := by
  rw [backslashesBefore_succ found, if_neg notBackslash]
  decide

/-- Only behind a carriage return may a newline be escaped from further away. -/
theorem not_isEscaped_behind (found : text[place]? = some b)
    (even : ¬Odd (backslashesBefore text (place + 1)))
    (noBreak : b = Byte.carriageReturn → text[place + 1]? = some Byte.newline →
      ¬Odd (backslashesBefore text place)) :
    ¬IsEscaped text (place + 1) := by
  rintro (odd | ⟨newline, last, placeEq, carriageReturn, odd⟩)
  · exact even odd
  · obtain rfl : place = last := Nat.succ.inj placeEq
    rw [found, Option.some.injEq] at carriageReturn
    exact noBreak carriageReturn newline odd

/-! ## The walk through a literal -/

theorem not_endsQuoted_of_isEscaped (escaped : IsEscaped text place) :
    ¬EndsQuoted text quote place :=
  fun ends => ends.2 escaped

theorem not_endsQuoted_of_byte (found : text[place]? = some b) (notQuote : b ≠ quote)
    (notNewline : b ≠ Byte.newline) : ¬EndsQuoted text quote place := by
  rintro ⟨isQuote | isNewline, _⟩
  · exact notQuote (Option.some.inj (found.symm.trans isQuote))
  · exact notNewline (Option.some.inj (found.symm.trans isNewline))

theorem Unclosed.succ (unclosed : Unclosed text quote opening place)
    (goesOn : ¬EndsQuoted text quote place) : Unclosed text quote opening (place + 1) := by
  intro other behind inFront
  rcases Nat.lt_succ_iff_lt_or_eq.mp inFront with before | rfl
  · exact unclosed other behind before
  · exact goesOn

theorem Unclosed.textEnd (unclosed : Unclosed text quote opening place)
    (beyond : text.length ≤ place) : QuotedStop text quote opening text.length :=
  .textEnd fun other behind inside => unclosed other behind (Nat.lt_of_lt_of_le inside beyond)

/-- The scanner steps on a place behind `opening`, and nothing has ended the literal. -/
structure Reached (text : Bytes) (quote : UInt8) (opening place : Nat) : Prop where
  behind : opening < place
  inside : place ≤ text.length
  unescaped : ¬IsEscaped text place
  unclosed : Unclosed text quote opening place

namespace Reached

/-- Right behind the opening quote nothing is escaped. -/
theorem start (isQuote : quote = Byte.doubleQuote ∨ quote = Byte.apostrophe)
    (found : text[opening]? = some quote) : Reached text quote opening (opening + 1) where
  behind := Nat.lt_succ_self opening
  inside := (List.getElem?_eq_some_iff.mp found).1
  unescaped := by
    have notBackslash : quote ≠ Byte.backslash := by rcases isQuote with rfl | rfl <;> decide
    have notReturn : quote ≠ Byte.carriageReturn := by rcases isQuote with rfl | rfl <;> decide
    exact not_isEscaped_behind found (not_odd_behind found notBackslash) fun isReturn =>
      absurd isReturn notReturn
  unclosed := fun other behind inFront =>
    absurd (Nat.lt_of_le_of_lt behind inFront) (Nat.lt_irrefl _)

variable (reached : Reached text quote opening place)

include reached

theorem plain (found : text[place]? = some b) (notBackslash : b ≠ Byte.backslash)
    (notNewline : b ≠ Byte.newline) (notQuote : b ≠ quote) :
    Reached text quote opening (place + 1) where
  behind := Nat.lt_succ_of_lt reached.behind
  inside := (List.getElem?_eq_some_iff.mp found).1
  unescaped := by
    apply not_isEscaped_behind found (not_odd_behind found notBackslash)
    intro _ _
    exact not_odd_of_not_isEscaped reached.unescaped
  unclosed := reached.unclosed.succ (not_endsQuoted_of_byte found notQuote notNewline)

/-- Neither a backslash nor what it escapes ends the literal. -/
theorem unclosed_backslash (found : text[place]? = some Byte.backslash)
    (notQuote : Byte.backslash ≠ quote) : Unclosed text quote opening (place + 2) := by
  have goesOn : ¬EndsQuoted text quote place :=
    not_endsQuoted_of_byte found notQuote (by decide)
  have escaped : IsEscaped text (place + 1) :=
    Or.inl (odd_behind_backslash reached.unescaped found)
  exact (reached.unclosed.succ goesOn).succ (not_endsQuoted_of_isEscaped escaped)

theorem escape (found : text[place]? = some Byte.backslash) (notQuote : Byte.backslash ≠ quote)
    (next : text[place + 1]? = some b)
    (noBreak : b = Byte.carriageReturn → text[place + 2]? ≠ some Byte.newline) :
    Reached text quote opening (place + 2) where
  behind := Nat.lt_add_right 2 reached.behind
  inside := (List.getElem?_eq_some_iff.mp next).1
  unescaped := by
    have even : ¬Odd (backslashesBefore text (place + 2)) := by
      by_cases backslash : b = Byte.backslash
      · -- Of two backslashes the first escapes the second, and the number stays even.
        rw [backslashesBefore_succ next, if_pos backslash, Nat.not_odd_iff_even]
        exact (odd_behind_backslash reached.unescaped found).add_one
      · exact not_odd_behind next backslash
    exact not_isEscaped_behind next even fun isReturn isNewline =>
      absurd isNewline (noBreak isReturn)
  unclosed := reached.unclosed_backslash found notQuote

theorem escapedBreak (found : text[place]? = some Byte.backslash)
    (notQuote : Byte.backslash ≠ quote) (next : text[place + 1]? = some Byte.carriageReturn)
    (last : text[place + 2]? = some Byte.newline) :
    Reached text quote opening (place + 3) where
  behind := Nat.lt_add_right 3 reached.behind
  inside := (List.getElem?_eq_some_iff.mp last).1
  unescaped := by
    apply not_isEscaped_behind last (not_odd_behind last (by decide))
    intro isReturn
    exact absurd isReturn (by decide)
  unclosed := by
    have escaped : IsEscaped text (place + 2) :=
      Or.inr ⟨last, place + 1, rfl, next, odd_behind_backslash reached.unescaped found⟩
    exact (reached.unclosed_backslash found notQuote).succ (not_endsQuoted_of_isEscaped escaped)

theorem add_length (dropEq : text.drop place = rest) : place + rest.length = text.length := by
  rw [← dropEq, List.length_drop, Nat.add_sub_cancel' reached.inside]

end Reached

theorem getElem?_of_drop_eq_cons (dropEq : text.drop place = b :: rest) :
    text[place]? = some b ∧ text.drop (place + 1) = rest := by
  constructor
  · rw [← Nat.add_zero place, ← List.getElem?_drop, dropEq, List.getElem?_cons_zero]
  · rw [← List.drop_drop, dropEq, List.drop_succ_cons, List.drop_zero]

end Bytes

namespace Lexeme

open Bytes

/-- From wherever the scanner has got to, it walks to the end of the literal. -/
theorem quotedStop_quotedTail {text rest : Bytes} {quote : UInt8} {opening place : Nat}
    (isQuote : quote = Byte.doubleQuote ∨ quote = Byte.apostrophe)
    (reached : Reached text quote opening place) (dropEq : text.drop place = rest) :
    QuotedStop text quote opening (place + quotedTail quote rest) := by
  have notQuote : Byte.backslash ≠ quote := by rcases isQuote with rfl | rfl <;> decide
  -- First the end of the text, also behind a backslash or an escaped carriage return; then the
  -- three kinds of escapes; then the newline, the quote and any other byte.
  fun_induction quotedTail quote rest generalizing place with
  | case1 =>
      have lengthEq : place + 0 = text.length := reached.add_length dropEq
      rw [lengthEq]
      exact reached.unclosed.textEnd (Nat.le_of_eq lengthEq.symm)
  | case2 =>
      have lengthEq : place + 1 = text.length := reached.add_length dropEq
      obtain ⟨found, _⟩ := getElem?_of_drop_eq_cons dropEq
      rw [lengthEq]
      apply (reached.unclosed_backslash found notQuote).textEnd
      omega
  | case3 =>
      have lengthEq : place + 2 = text.length := reached.add_length dropEq
      obtain ⟨found, _⟩ := getElem?_of_drop_eq_cons dropEq
      rw [lengthEq]
      exact (reached.unclosed_backslash found notQuote).textEnd (Nat.le_of_eq lengthEq.symm)
  | case4 rest ih =>
      obtain ⟨found, dropEq⟩ := getElem?_of_drop_eq_cons dropEq
      obtain ⟨next, dropEq⟩ := getElem?_of_drop_eq_cons dropEq
      obtain ⟨last, dropEq⟩ := getElem?_of_drop_eq_cons dropEq
      rw [← Nat.add_assoc]
      exact ih (reached.escapedBreak found notQuote next last) dropEq
  | case5 next rest notNewline ih =>
      obtain ⟨found, dropEq⟩ := getElem?_of_drop_eq_cons dropEq
      obtain ⟨carriageReturn, dropEq⟩ := getElem?_of_drop_eq_cons dropEq
      obtain ⟨last, _⟩ := getElem?_of_drop_eq_cons dropEq
      have noBreak : text[place + 2]? ≠ some Byte.newline := by
        rw [last]
        exact fun isNewline => notNewline (Option.some.inj isNewline)
      rw [← Nat.add_assoc]
      exact ih (reached.escape found notQuote carriageReturn fun _ => noBreak) dropEq
  | case6 escaped rest notReturn ih =>
      obtain ⟨found, dropEq⟩ := getElem?_of_drop_eq_cons dropEq
      obtain ⟨next, dropEq⟩ := getElem?_of_drop_eq_cons dropEq
      rw [← Nat.add_assoc]
      exact ih (reached.escape found notQuote next fun isReturn => absurd isReturn notReturn) dropEq
  | case7 rest _ =>
      obtain ⟨found, _⟩ := getElem?_of_drop_eq_cons dropEq
      exact .lineEnd reached.behind reached.unclosed found reached.unescaped
  | case8 rest _ _ =>
      obtain ⟨found, _⟩ := getElem?_of_drop_eq_cons dropEq
      exact .closed reached.behind reached.unclosed found reached.unescaped
  | case9 b rest notBackslash notNewline other ih =>
      obtain ⟨found, dropEq⟩ := getElem?_of_drop_eq_cons dropEq
      rw [← Nat.add_assoc]
      exact ih (reached.plain found notBackslash notNewline other) dropEq

/-! ## The rules for quoted literals -/

variable {grammar : Grammar} {before tail : Bytes} {quote : UInt8} {found : Lexeme}

/-- In front of a byte that no prefix has, the longest prefix is the one that reaches it. -/
theorem prefixLength_of_notMem {b : UInt8}
    (absent : ∀ other ∈ grammar.stringPrefixes, b ∉ Utf8.bytes other) {encoding : String}
    (listed : Utf8.bytes encoding = [] ∨ encoding ∈ grammar.stringPrefixes) (tail : Bytes) :
    prefixLength grammar (Utf8.bytes encoding ++ b :: tail) = (Utf8.bytes encoding).length := by
  apply Nat.le_antisymm
  · rw [prefixLength, Grammar.stringPrefixLength?]
    cases lengthEq : Grammar.longestMatch? grammar.stringPrefixes
        (Utf8.bytes encoding ++ b :: tail) with
    | none => exact Nat.zero_le _
    | some length =>
        obtain ⟨other, otherListed, _, stands, rfl⟩ := longestMatch?_eq_some lengthEq
        by_contra longer
        -- A longer prefix would have the byte in it.
        have reaches : Utf8.bytes encoding ++ [b] <+: Utf8.bytes other := by
          refine List.prefix_of_prefix_length_le ⟨tail, ?_⟩ stands ?_
          · rw [List.append_assoc, List.singleton_append]
          · rw [List.length_append, List.length_singleton]
            exact Nat.lt_of_not_le longer
        apply absent other otherListed
        exact reaches.subset (List.mem_append_right _ (List.mem_singleton_self b))
  · rcases eq_or_ne (Utf8.bytes encoding) [] with empty | nonempty
    · rw [empty]
      exact Nat.zero_le _
    · obtain ⟨length, lengthEq, le⟩ := exists_longestMatch? (listed.resolve_left nonempty) nonempty
        (List.prefix_append (Utf8.bytes encoding) (b :: tail))
      rw [prefixLength, Grammar.stringPrefixLength?, lengthEq]
      exact le

/-- A literal that starts with a quote goes on to its end. -/
theorem length_of_quote (isQuote : quote = Byte.doubleQuote ∨ quote = Byte.apostrophe)
    (literal : Literal grammar before (quote :: tail) found) :
    found.length = 1 + quotedTail quote tail := by
  cases literal with
  | header foundEq =>
      simp only [header?, Option.ite_none_right_eq_some, Bool.and_eq_true, beq_iff_eq] at foundEq
      obtain ⟨⟨⟨_, rfl⟩, _⟩, _⟩ := foundEq
      rcases isQuote with isQuote | isQuote <;> cases isQuote
  | quoted foundEq =>
      rw [quoted?, Option.map_eq_some_iff] at foundEq
      obtain ⟨_, _, rfl⟩ := foundEq
      rfl
  | raw starts _ => rcases isQuote with rfl | rfl <;> cases starts
  | prefixed starts _ => rcases isQuote with rfl | rfl <;> cases starts

/-- A literal whose quote stands behind a prefix goes on to its end. -/
theorem length_of_prefix
    (words : ∀ other ∈ grammar.stringPrefixes, ∀ b ∈ Utf8.bytes other, Byte.isWord b = true)
    (isQuote : quote = Byte.doubleQuote ∨ quote = Byte.apostrophe) {encoding : String}
    (listed : encoding ∈ grammar.stringPrefixes) (nonempty : Utf8.bytes encoding ≠ [])
    (literal : Literal grammar before (Utf8.bytes encoding ++ quote :: tail) found) :
    found.length = (Utf8.bytes encoding).length + (1 + quotedTail quote tail) := by
  have noWord : Byte.isWord quote = false := by rcases isQuote with rfl | rfl <;> rfl
  have absent : ∀ other ∈ grammar.stringPrefixes, quote ∉ Utf8.bytes other := by
    intro other otherListed member
    cases noWord.symm.trans (words other otherListed quote member)
  have prefixEq := prefixLength_of_notMem absent (Or.inr listed) tail
  obtain ⟨b, more, bytesEq⟩ := List.exists_cons_of_ne_nil nonempty
  have isWord : Byte.isWord b = true :=
    words encoding listed b (by rw [bytesEq]; exact List.mem_cons_self)
  cases literal with
  | header foundEq =>
      simp only [bytesEq, List.cons_append, header?, Option.ite_none_right_eq_some,
        Bool.and_eq_true, beq_iff_eq] at foundEq
      obtain ⟨⟨⟨_, rfl⟩, _⟩, _⟩ := foundEq
      cases isWord
  | quoted foundEq =>
      rw [bytesEq, List.cons_append, quoted?, Option.map_eq_some_iff] at foundEq
      obtain ⟨kind, kindEq, _⟩ := foundEq
      rw [quoteKind?] at kindEq
      split at kindEq
      · rename_i isDouble
        rw [isDouble] at isWord
        cases isWord
      · rw [Option.ite_none_right_eq_some] at kindEq
        rw [kindEq.1] at isWord
        cases isWord
  | raw _ foundEq =>
      simp only [rawString?, prefixEq, List.drop_left, Option.ite_none_right_eq_some,
        Bool.and_eq_true, List.isPrefixOf_iff_prefix, List.cons_prefix_cons] at foundEq
      obtain ⟨⟨_, rfl, _⟩, _⟩ := foundEq
      cases noWord
  | prefixed _ foundEq =>
      simp only [prefixedQuoted?, prefixEq, List.drop_left, Option.ite_none_left_eq_some,
        quoted?, Option.map_map, Option.map_eq_some_iff] at foundEq
      obtain ⟨_, _, _, rfl⟩ := foundEq
      rfl

end Lexeme

namespace Lexer

open Bytes Lexeme

/-- Where a grammar's prefixes are words, a literal whose quote stands behind a prefix, or
behind nothing, ends where its quote says. -/
theorem quotedStop_tokenAt {grammar : Grammar}
    (words : ∀ other ∈ grammar.stringPrefixes, ∀ b ∈ Utf8.bytes other, Byte.isWord b = true)
    {encoding : String} (listed : Utf8.bytes encoding = [] ∨ encoding ∈ grammar.stringPrefixes)
    {quote : UInt8} (isQuote : quote = Byte.doubleQuote ∨ quote = Byte.apostrophe)
    {text : Bytes} {start : Nat}
    (opens : Utf8.bytes encoding ++ [quote] <+: text.drop start)
    (literal : ((table grammar).tokenAt text start).kind = .string ∨
      ((table grammar).tokenAt text start).kind = .char) :
    QuotedStop text quote (start + (Utf8.bytes encoding).length)
      ((table grammar).tokenAt text start).stop := by
  obtain ⟨tail, restEq⟩ := opens
  rw [List.append_assoc, List.singleton_append] at restEq
  have lengthEq : ((table grammar).lexemeAt text start).length =
      (Utf8.bytes encoding).length + (1 + quotedTail quote tail) := by
    have read : Literal grammar (text.take start).reverse (text.drop start)
        ((table grammar).lexemeAt text start) := literal_of_kind literal
    rw [← restEq] at read
    rcases eq_or_ne (Utf8.bytes encoding) [] with empty | nonempty
    · rw [empty, List.nil_append] at read
      rw [empty, List.length_nil, Nat.zero_add]
      exact length_of_quote isQuote read
    · exact length_of_prefix words isQuote (listed.resolve_left nonempty) nonempty read
  have quoteDrop : text.drop (start + (Utf8.bytes encoding).length) = quote :: tail := by
    rw [← List.drop_drop, ← restEq, List.drop_left]
  obtain ⟨found, tailDrop⟩ := getElem?_of_drop_eq_cons quoteDrop
  have stops := quotedStop_quotedTail isQuote (.start isQuote found) tailDrop
  rw [tokenAt, lengthEq]
  simpa only [Nat.add_assoc] using stops

/-- With a built-in grammar and any overrides, a literal that opens with an encoding prefix,
or none, and a quote ends behind the first quote of its kind that is not escaped, in front
of the first newline that is not escaped, or with the text, whichever comes first. -/
theorem tokenize_quoted {language : Language} {base : Grammar}
    (builtIn : Grammar.builtin? language = some base) (overrides : List Override)
    (text : Bytes) {encoding : String}
    (listed : encoding = "" ∨ encoding ∈ Grammar.encodingPrefixes)
    {quote : UInt8} (isQuote : quote = Byte.doubleQuote ∨ quote = Byte.apostrophe) :
    ∀ token ∈ (table (overrides.foldl Grammar.extend base)).tokenize text,
      token.kind = .string ∨ token.kind = .char →
        Utf8.bytes encoding ++ [quote] <+: text.drop token.start →
          QuotedStop text quote (token.start + (Utf8.bytes encoding).length) token.stop := by
  have prefixesEq :
      (overrides.foldl Grammar.extend base).stringPrefixes = Grammar.encodingPrefixes := by
    rw [(base.grows_foldl_extend overrides).stringPrefixes]
    cases language with
    | plainText => cases builtIn
    | c =>
        cases builtIn
        rfl
    | cpp =>
        cases builtIn
        rfl
  have words : ∀ other ∈ Grammar.encodingPrefixes, ∀ b ∈ Utf8.bytes other,
      Byte.isWord b = true := by decide +kernel
  rw [← prefixesEq] at words listed
  intro token member literal opens
  obtain ⟨_, tokenEq⟩ := (table _).eq_tokenAt_of_mem member
  generalize token.start = start at tokenEq opens ⊢
  subst tokenEq
  refine quotedStop_tokenAt words ?_ isQuote opens literal
  rcases listed with rfl | listed
  · exact Or.inl rfl
  · exact Or.inr listed

/-- Escaped backslashes, an escaped quote and an escaped line break in front of the quote
that closes the literal. -/
theorem tokenize_quoted_escapes :
    QuotedStop (Utf8.bytes "u8\"\\\\\\\"\\\r\n\\\\\";") Byte.doubleQuote 2 13 := by
  have builtIn : Grammar.builtin? .c = some Grammar.c := rfl
  have member : (⟨.string, 0, 13⟩ : Token) ∈
      (table ([{ keywords := ["u8"] }].foldl Grammar.extend Grammar.c)).tokenize
        (Utf8.bytes "u8\"\\\\\\\"\\\r\n\\\\\";") := by decide +kernel
  have opens : Utf8.bytes "u8" ++ [Byte.doubleQuote] <+:
      Utf8.bytes "u8\"\\\\\\\"\\\r\n\\\\\";" := by decide
  exact tokenize_quoted builtIn _ _ (Or.inr (by decide)) (Or.inl rfl) _ member (Or.inl rfl) opens

end Lexer

end Highlight
