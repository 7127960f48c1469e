import Highlight.Proofs.Grammar.Validity
import Highlight.Proofs.Lexer.Progress

/-!
# Where the rules stop

A rule stops at the end of the text, in front of a byte or behind one, and for most
rules that byte is a newline, a quote or other punctuation.  What follows from it
depends on the class of the byte: next to an ASCII byte no character is cut in two,
and next to a byte that stands in no word no word is.  The rules are taken here for
every class that holds the bytes at which they stop.
-/

namespace Highlight.Lexeme

/-! ## Runs and stops -/

/-- The first `length` bytes are there, and all of them are of the class `p`. -/
inductive RunOf (p : UInt8 → Prop) : (rest : Bytes) → (length : Nat) → Prop where
  | nil (rest : Bytes) : RunOf p rest 0
  | cons {b : UInt8} {rest : Bytes} {length : Nat} (holds : p b) (run : RunOf p rest length) :
      RunOf p (b :: rest) (1 + length)

/-- A rule stops at the end of the text, in front of a byte of the class `p` or
behind one. -/
inductive Stops (p : UInt8 → Prop) (rest : Bytes) : (length : Nat) → Prop where
  | finish : Stops p rest rest.length
  | before {length : Nat} {b : UInt8} (found : rest[length]? = some b) (holds : p b) :
      Stops p rest length
  | behind {length : Nat} {b : UInt8} (found : rest[length]? = some b) (holds : p b) :
      Stops p rest (length + 1)

/-- The class `p` holds space and the punctuation at which literals, comments and
brackets stop. -/
structure Delimits (p : UInt8 → Prop) : Prop where
  space : ∀ b, Byte.isSpace b = true → p b
  backslash : p Byte.backslash
  doubleQuote : p Byte.doubleQuote
  apostrophe : p Byte.apostrophe
  greaterThan : p Byte.greaterThan
  bracket : ∀ b ∈ brackets, p b
  separator : ∀ b ∈ separators, p b

/-- The class `p` holds the bytes at which comments, header names and literals stop, apart
from the closing of a block comment. -/
structure Closes (p : UInt8 → Prop) : Prop where
  newline : p Byte.newline
  doubleQuote : p Byte.doubleQuote
  apostrophe : p Byte.apostrophe
  greaterThan : p Byte.greaterThan

theorem Delimits.newline {p : UInt8 → Prop} (delimits : Delimits p) : p Byte.newline :=
  delimits.space Byte.newline rfl

theorem Delimits.closes {p : UInt8 → Prop} (delimits : Delimits p) : Closes p :=
  ⟨delimits.newline, delimits.doubleQuote, delimits.apostrophe, delimits.greaterThan⟩

variable {p : UInt8 → Prop} {grammar : Grammar} {before rest : Bytes} {length : Nat}
  {found : Lexeme}

namespace Stops

/-- Whatever bytes were passed in front, a rule stops where it stops. -/
theorem append (stops : Stops p rest length) (front : Bytes) :
    Stops p (front ++ rest) (front.length + length) := by
  cases stops with
  | finish =>
      rw [← List.length_append]
      exact .finish
  | before found holds =>
      refine .before ?_ holds
      rwa [List.getElem?_append_right (Nat.le_add_right _ _), Nat.add_sub_cancel_left]
  | @behind length _ found holds =>
      change Stops p (front ++ rest) (front.length + length + 1)
      refine .behind ?_ holds
      rwa [List.getElem?_append_right (Nat.le_add_right _ _), Nat.add_sub_cancel_left]

theorem cons (stops : Stops p rest length) (b : UInt8) : Stops p (b :: rest) (1 + length) :=
  stops.append [b]

theorem of_drop {count : Nat} (inside : count ≤ rest.length)
    (stops : Stops p (rest.drop count) length) : Stops p rest (count + length) := by
  have appended := stops.append (rest.take count)
  rwa [List.take_append_drop, List.length_take_of_le inside] at appended

end Stops

namespace RunOf

theorem one {b : UInt8} (holds : p b) (rest : Bytes) : RunOf p (b :: rest) 1 :=
  .cons holds (.nil rest)

/-- One run after the other is a run. -/
theorem add {more : Nat} (run : RunOf p rest length) (next : RunOf p (rest.drop length) more) :
    RunOf p rest (length + more) := by
  induction run with
  | nil rest => rwa [Nat.zero_add]
  | cons holds run ih =>
      rw [Nat.add_assoc]
      rw [Nat.add_comm 1, List.drop_succ_cons] at next
      exact .cons holds (ih next)

theorem takeWhile {q : UInt8 → Bool} (within : ∀ b, q b = true → p b) (rest : Bytes) :
    RunOf p rest (rest.takeWhile q).length := by
  induction rest with
  | nil => exact .nil []
  | cons b rest ih =>
      by_cases holds : q b = true
      · rw [List.takeWhile_cons_of_pos holds, List.length_cons, Nat.add_comm]
        exact .cons (within b holds) ih
      · rw [List.takeWhile_cons_of_neg holds]
        exact .nil _

/-- Bytes of the class at the front are a run. -/
theorem of_prefix {front : Bytes} (holds : ∀ b ∈ front, p b) (stands : front <+: rest) :
    RunOf p rest front.length := by
  obtain ⟨after, rfl⟩ := stands
  induction front with
  | nil => exact .nil after
  | cons b front ih =>
      rw [List.forall_mem_cons] at holds
      rw [List.length_cons, Nat.add_comm]
      exact .cons holds.1 (ih holds.2)

/-- A run that is not empty stops behind its last byte. -/
theorem stops (run : RunOf p rest length) (nonempty : 0 < length) : Stops p rest length := by
  induction run with
  | nil rest => exact absurd nonempty (Nat.lt_irrefl 0)
  | @cons b rest length holds run ih =>
      rcases Nat.eq_zero_or_pos length with rfl | restNonempty
      · exact .behind (List.getElem?_cons_zero) holds
      · exact (ih restNonempty).cons b

end RunOf

/-! ## Space and line breaks -/

theorem spaceLength_run (delimits : Delimits p) (rest : Bytes) :
    RunOf p rest (spaceLength rest) := by
  induction rest with
  | nil => exact .nil []
  | cons b rest ih =>
      rw [spaceLength]
      split
      · rename_i newline
        rw [newline]
        exact .one delimits.newline rest
      · split
        · rename_i inline
          exact .cons (delimits.space b (by rw [Byte.isSpace, inline, Bool.or_true])) ih
        · exact .nil _

theorem space?_stops (delimits : Delimits p) (foundEq : space? rest = some found) :
    Stops p rest found.length := by
  have lengthPos := (space?_fits foundEq).length_pos
  cases rest with
  | nil => cases foundEq
  | cons b rest =>
      rw [space?, Option.ite_none_right_eq_some, Option.some.injEq] at foundEq
      obtain ⟨_, rfl⟩ := foundEq
      exact (spaceLength_run delimits (b :: rest)).stops lengthPos

theorem lineBreakLength?_run (delimits : Delimits p)
    (lengthEq : Bytes.lineBreakLength? rest = some length) : RunOf p rest length := by
  cases rest with
  | nil => cases lengthEq
  | cons b rest =>
      rw [Bytes.lineBreakLength?] at lengthEq
      split at lengthEq
      · rename_i newline
        cases lengthEq
        rw [newline]
        exact .one delimits.newline rest
      · rw [Option.ite_none_right_eq_some] at lengthEq
        obtain ⟨⟨rfl, nextNewline⟩, lengthEq⟩ := lengthEq
        cases lengthEq
        cases rest with
        | nil => cases nextNewline
        | cons next rest =>
            cases nextNewline
            exact .cons (delimits.space Byte.carriageReturn rfl) (.one delimits.newline rest)

theorem lineJoin?_stops (delimits : Delimits p) (foundEq : lineJoin? rest = some found) :
    Stops p rest found.length := by
  have lengthPos := (lineJoin?_fits foundEq).length_pos
  cases rest with
  | nil => cases foundEq
  | cons b rest =>
      rw [lineJoin?, Option.ite_none_right_eq_some, Option.map_eq_some_iff] at foundEq
      obtain ⟨rfl, length, lengthEq, rfl⟩ := foundEq
      exact (RunOf.cons delimits.backslash (lineBreakLength?_run delimits lengthEq)).stops lengthPos

/-! ## Comments and header names -/

theorem lineCommentTail_stops (closes : Closes p) (before rest : Bytes) :
    Stops p rest (lineCommentTail before rest) := by
  induction rest generalizing before with
  | nil => exact .finish
  | cons b rest ih =>
      rw [lineCommentTail]
      split
      · rename_i newline
        rw [newline.1]
        exact .before List.getElem?_cons_zero closes.newline
      · exact (ih (b :: before)).cons b

theorem lineComment?_stops (closes : Closes p)
    (foundEq : lineComment? grammar before rest = some found) : Stops p rest found.length := by
  simp only [lineComment?, Option.bind_eq_some_iff, lineCommentWith?,
    Option.ite_none_right_eq_some, Bool.and_eq_true, Option.some.injEq] at foundEq
  obtain ⟨marker, _, ⟨_, opens⟩, rfl⟩ := foundEq
  exact .of_drop (List.isPrefixOf_iff_prefix.mp opens).length_le
    (lineCommentTail_stops closes _ _)

/-- What is closed by a byte of the class stops behind it. -/
theorem blockCommentTail_stops {last : UInt8} (holds : p last) (front rest : Bytes) :
    Stops p rest (blockCommentTail (front ++ [last]) rest) := by
  induction rest with
  | nil =>
      rw [blockCommentTail_nil]
      exact .finish
  | cons b rest ih =>
      rw [blockCommentTail_cons]
      split
      · rename_i closes
        obtain ⟨after, afterEq⟩ := List.isPrefixOf_iff_prefix.mp closes
        rw [List.length_append]
        refine .behind (b := last) ?_ holds
        rw [← afterEq, List.append_assoc, List.getElem?_append_right (Nat.le_refl _),
          Nat.sub_self]
        rfl
      · exact ih.cons b

theorem blockComment?_stops (valid : grammar.IsValid)
    (closing : ∀ markers ∈ grammar.blockComment, ∀ b ∈ (Utf8.bytes markers.closing).getLast?,
      p b)
    (foundEq : blockComment? grammar rest = some found) : Stops p rest found.length := by
  simp only [blockComment?, Option.bind_eq_some_iff, blockCommentWith?,
    Option.ite_none_right_eq_some, Bool.and_eq_true, Option.some.injEq] at foundEq
  obtain ⟨markers, markersEq, ⟨_, opens⟩, rfl⟩ := foundEq
  rcases List.eq_nil_or_concat (Utf8.bytes markers.closing) with empty | ⟨front, last, closingEq⟩
  · exact absurd empty (valid.closing_ne_nil markersEq)
  · rw [List.concat_eq_append] at closingEq
    have holds : p last :=
      closing markers markersEq last (by rw [closingEq, List.getLast?_concat]; rfl)
    dsimp only
    rw [closingEq]
    exact .of_drop (List.isPrefixOf_iff_prefix.mp opens).length_le
      (blockCommentTail_stops holds front _)

theorem headerTail_stops (closes : Closes p) (rest : Bytes) :
    Stops p rest (headerTail rest) := by
  induction rest with
  | nil => exact .finish
  | cons b rest ih =>
      rw [headerTail]
      split
      · rename_i newline
        rw [newline]
        exact .before List.getElem?_cons_zero closes.newline
      · split
        · rename_i isClosing
          rw [isClosing]
          exact .behind List.getElem?_cons_zero closes.greaterThan
        · exact ih.cons b

theorem header?_stops (closes : Closes p)
    (foundEq : header? grammar before rest = some found) : Stops p rest found.length := by
  cases rest with
  | nil => cases foundEq
  | cons b rest =>
      rw [header?, Option.ite_none_right_eq_some, Option.some.injEq] at foundEq
      obtain ⟨_, rfl⟩ := foundEq
      exact (headerTail_stops closes rest).cons b

/-! ## Literals -/

/-- A backslash may step over any byte, but a literal only stops next to its quote,
at a newline or at the end of the text. -/
theorem quotedTail_stops (closes : Closes p) {quote : UInt8} (holds : p quote)
    (rest : Bytes) : Stops p rest (quotedTail quote rest) := by
  fun_induction quotedTail quote rest with
  | case1 => exact .finish
  | case2 => exact .finish
  | case3 => exact .finish
  | case4 rest ih => exact ih.append [Byte.backslash, Byte.carriageReturn, Byte.newline]
  | case5 next rest _ ih => exact ih.append [Byte.backslash, Byte.carriageReturn]
  | case6 escaped rest _ ih => exact ih.append [Byte.backslash, escaped]
  | case7 rest => exact .before List.getElem?_cons_zero closes.newline
  | case8 rest => exact .behind List.getElem?_cons_zero holds
  | case9 b rest _ _ _ ih => exact ih.cons b

theorem quoted?_stops (closes : Closes p) (foundEq : quoted? rest = some found) :
    Stops p rest found.length := by
  cases rest with
  | nil => cases foundEq
  | cons b rest =>
      rw [quoted?, Option.map_eq_some_iff] at foundEq
      obtain ⟨kind, kindEq, rfl⟩ := foundEq
      have holds : p b := by
        rw [quoteKind?] at kindEq
        split at kindEq
        · rename_i isQuote
          rw [isQuote]
          exact closes.doubleQuote
        · rw [Option.ite_none_right_eq_some] at kindEq
          rw [kindEq.1]
          exact closes.apostrophe
      exact (quotedTail_stops closes holds rest).cons b

theorem rawTail?_stops (closes : Closes p) (lengthEq : rawTail? rest = some length) :
    Stops p rest length := by
  rw [rawTail?_eq, Option.ite_none_right_eq_some, Option.some.injEq] at lengthEq
  obtain ⟨⟨_, opens⟩, rfl⟩ := lengthEq
  have splitEq := List.length_takeWhile_add_dropWhile isRawDelimiter rest
  have inside : (rest.takeWhile isRawDelimiter).length + 1 ≤ rest.length := by
    cases afterEq : rest.dropWhile isRawDelimiter with
    | nil => simp [afterEq] at opens
    | cons b after =>
        rw [afterEq, List.length_cons] at splitEq
        omega
  refine .of_drop inside ?_
  rw [← List.drop_drop, ← List.dropWhile_eq_drop, rawClosing, ← List.cons_append]
  exact blockCommentTail_stops closes.doubleQuote _ _

theorem rawString?_stops (closes : Closes p)
    (foundEq : rawString? grammar rest = some found) : Stops p rest found.length := by
  simp only [rawString?, Option.ite_none_right_eq_some, Bool.and_eq_true,
    Option.map_eq_some_iff] at foundEq
  obtain ⟨⟨_, opens⟩, tail, tailEq, rfl⟩ := foundEq
  have opensLe := (List.isPrefixOf_iff_prefix.mp opens).length_le
  rw [List.length_drop] at opensLe
  have inside : prefixLength grammar rest + 2 ≤ rest.length :=
    Nat.add_le_of_le_sub' (prefixLength_le grammar rest) opensLe
  exact .of_drop inside (rawTail?_stops closes tailEq)

theorem prefixedQuoted?_stops (closes : Closes p)
    (foundEq : prefixedQuoted? grammar rest = some found) : Stops p rest found.length := by
  simp only [prefixedQuoted?, Option.ite_none_left_eq_some, Option.map_eq_some_iff] at foundEq
  obtain ⟨_, literal, literalEq, rfl⟩ := foundEq
  exact .of_drop (prefixLength_le grammar rest) (quoted?_stops closes literalEq)

/-! ## Brackets -/

theorem bracket?_stops (delimits : Delimits p) (foundEq : bracket? rest = some found) :
    Stops p rest found.length := by
  cases rest with
  | nil => cases foundEq
  | cons b rest =>
      rw [bracket?] at foundEq
      split at foundEq
      · rename_i isBracket
        cases foundEq
        exact .behind List.getElem?_cons_zero
          (delimits.bracket b (List.contains_iff_mem.mp isBracket))
      · rw [Option.ite_none_right_eq_some] at foundEq
        obtain ⟨isSeparator, foundEq⟩ := foundEq
        cases foundEq
        exact .behind List.getElem?_cons_zero
          (delimits.separator b (List.contains_iff_mem.mp isSeparator))

end Highlight.Lexeme
