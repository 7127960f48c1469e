import Highlight.Proofs.Lexer.Kind
import Highlight.Proofs.Lexer.Walk
import Mathlib.Data.List.TakeWhile

/-!
# Numerals

`Numeral` is the grammar of numerals: digits, fraction, exponent and suffix of each
base.  The scanner walks through these parts once and commits itself at every byte.
Here that is shown to be the longest match: what the scanner takes in is a numeral,
and no longer numeral starts at the same place.

For each part there are three facts.  What the scanner takes in is such a part; it
takes in at least as much as any such part at the front; and it takes in just the
part where a byte follows that the part cannot go on with.
-/

namespace Highlight

/-! ## The grammar of numerals -/

namespace Numeral

/-- Digits in a row.  With `separators`, an apostrophe may stand between two of them. -/
inductive Digits (isDigit : UInt8 → Bool) (separators : Bool) : Bytes → Prop where
  | one {b : UInt8} (digit : isDigit b = true) : Digits isDigit separators [b]
  | cons {b : UInt8} {rest : Bytes} (digit : isDigit b = true)
      (digits : Digits isDigit separators rest) : Digits isDigit separators (b :: rest)
  | separated {b : UInt8} {rest : Bytes} (digit : isDigit b = true)
      (allowed : separators = true) (digits : Digits isDigit separators rest) :
      Digits isDigit separators (b :: Byte.apostrophe :: rest)

/-- A part, or nothing. -/
inductive Optional (part : Bytes → Prop) : Bytes → Prop where
  | absent : Optional part []
  | present {bytes : Bytes} (holds : part bytes) : Optional part bytes

/-- A point and the digits behind it, if there are any. -/
inductive Fraction (isDigit : UInt8 → Bool) (separators : Bool) : Bytes → Prop where
  | point {digits : Bytes} (optional : Optional (Digits isDigit separators) digits) :
      Fraction isDigit separators (Byte.point :: digits)

/-- A plus or a minus. -/
inductive Sign : Bytes → Prop where
  | plus : Sign [0x2B]
  | minus : Sign [0x2D]

/-- A mark, a sign if there is one, and decimal digits. -/
inductive Exponent (isMark : UInt8 → Bool) (separators : Bool) : Bytes → Prop where
  | marked {mark : UInt8} {sign digits : Bytes} (opens : isMark mark = true)
      (signed : Optional Sign sign) (holds : Digits Byte.isDigit separators digits) :
      Exponent isMark separators (mark :: (sign ++ digits))

end Numeral

open Numeral

/-- The numerals.  Their suffix is any run of letters, digits and underscores. -/
inductive Numeral (separators : Bool) : Bytes → Prop where
  | hexadecimal {mark : UInt8} {whole fraction exponent suffix : Bytes}
      (opens : mark = 0x78 ∨ mark = 0x58)
      (digits : Optional (Digits Byte.isHexDigit separators) whole)
      (point : Optional (Fraction Byte.isHexDigit separators) fraction)
      (power : Optional (Exponent Lexeme.isHexMark separators) exponent)
      (letters : ∀ b ∈ suffix, Byte.isWord b = true) :
      Numeral separators (0x30 :: mark :: (whole ++ (fraction ++ exponent)) ++ suffix)
  | binary {mark : UInt8} {whole suffix : Bytes}
      (opens : mark = 0x62 ∨ mark = 0x42)
      (digits : Optional (Digits Byte.isBinaryDigit separators) whole)
      (letters : ∀ b ∈ suffix, Byte.isWord b = true) :
      Numeral separators (0x30 :: mark :: whole ++ suffix)
  | decimal {whole fraction exponent suffix : Bytes}
      (digits : Digits Byte.isDigit separators whole)
      (point : Optional (Fraction Byte.isDigit separators) fraction)
      (power : Optional (Exponent Lexeme.isDecimalMark separators) exponent)
      (letters : ∀ b ∈ suffix, Byte.isWord b = true) :
      Numeral separators (whole ++ (fraction ++ exponent) ++ suffix)
  | pointFirst {digits exponent suffix : Bytes}
      (holds : Digits Byte.isDigit separators digits)
      (power : Optional (Exponent Lexeme.isDecimalMark separators) exponent)
      (letters : ∀ b ∈ suffix, Byte.isWord b = true) :
      Numeral separators (Byte.point :: digits ++ exponent ++ suffix)

namespace Lexeme

/-- Neither the point nor the mark of an exponent is taken for a digit or a
separator. -/
structure Base (isDigit isMark : UInt8 → Bool) : Prop where
  apostrophe : isDigit Byte.apostrophe = false
  point : isDigit Byte.point = false
  mark : ∀ b, isMark b = true → isDigit b = false ∧ b ≠ Byte.apostrophe ∧ b ≠ Byte.point

theorem decimalBase : Base Byte.isDigit isDecimalMark where
  apostrophe := rfl
  point := rfl
  mark := by
    intro b mark
    simp only [isDecimalMark, Bool.or_eq_true, beq_iff_eq] at mark
    rcases mark with rfl | rfl <;> decide

theorem hexBase : Base Byte.isHexDigit isHexMark where
  apostrophe := rfl
  point := rfl
  mark := by
    intro b mark
    simp only [isHexMark, Bool.or_eq_true, beq_iff_eq] at mark
    rcases mark with rfl | rfl <;> decide

variable {isDigit isMark : UInt8 → Bool} {separators : Bool} {rest bytes after : Bytes}

/-! ## Digits -/

theorem head?_of_digits (digits : Digits isDigit separators bytes) :
    bytes.head?.any isDigit = true := by
  cases digits with
  | one digit => exact digit
  | cons digit _ => exact digit
  | separated digit _ _ => exact digit

/-- What the scanner takes in are digits if the first byte is one, and also together
with a digit in front if it has seen that one. -/
theorem digits_take_digitsLength (isDigit : UInt8 → Bool) (separators seen : Bool)
    (rest : Bytes) :
    (rest.head?.any isDigit = true →
      Digits isDigit separators (rest.take (digitsLength isDigit separators seen rest))) ∧
      (seen = true → ∀ b, isDigit b = true → Digits isDigit separators
        (b :: rest.take (digitsLength isDigit separators seen rest))) := by
  fun_induction digitsLength isDigit separators seen rest with
  | case1 seen =>
      refine ⟨fun starts => Bool.noConfusion starts, fun _ b digit => ?_⟩
      exact .one digit
  | case2 seen b rest digit ih =>
      rw [Nat.add_comm, List.take_succ_cons]
      have digits := ih.2 rfl b digit
      exact ⟨fun _ => digits, fun _ c first => .cons first digits⟩
  | case3 seen b rest noDigit separates ih =>
      simp only [Bool.and_eq_true, beq_iff_eq] at separates
      obtain ⟨⟨⟨rfl, allowed⟩, _⟩, follows⟩ := separates
      rw [Nat.add_comm, List.take_succ_cons]
      exact ⟨fun starts => absurd starts noDigit,
        fun _ c first => .separated first allowed (ih.1 follows)⟩
  | case4 seen b rest noDigit _ =>
      rw [List.take_zero]
      exact ⟨fun starts => absurd starts noDigit, fun _ c first => .one first⟩

theorem optional_digits_take (isDigit : UInt8 → Bool) (separators : Bool) (rest : Bytes) :
    Optional (Digits isDigit separators)
      (rest.take (digitsLength isDigit separators false rest)) := by
  cases starts : rest.head?.any isDigit with
  | true => exact .present ((digits_take_digitsLength isDigit separators false rest).1 starts)
  | false =>
      have none : digitsLength isDigit separators false rest = 0 := by
        cases rest with
        | nil => rfl
        | cons b rest =>
            have noDigit : isDigit b = false := starts
            simp [digitsLength, noDigit]
      rw [none, List.take_zero]
      exact .absent

/-- The scanner passes over digits and goes on behind them. -/
theorem digitsLength_append (apostrophe : isDigit Byte.apostrophe = false)
    (digits : Digits isDigit separators bytes) (seen : Bool) (after : Bytes) :
    digitsLength isDigit separators seen (bytes ++ after) =
      bytes.length + digitsLength isDigit separators true after := by
  induction digits generalizing seen with
  | one digit => simp [digitsLength, digit]
  | cons digit _ ih =>
      rw [List.cons_append, digitsLength, if_pos digit, ih, List.length_cons]
      omega
  | @separated b rest digit allowed digits ih =>
      have follows : (rest ++ after).head?.any isDigit = true := by
        have starts := head?_of_digits digits
        cases rest with
        | nil => cases starts
        | cons c rest => exact starts
      have passes : (Byte.apostrophe == Byte.apostrophe && separators && true &&
          (rest ++ after).head?.any isDigit) = true := by
        rw [follows, allowed]
        rfl
      rw [List.cons_append, List.cons_append, digitsLength, if_pos digit, digitsLength,
        apostrophe, if_neg Bool.false_ne_true, if_pos passes, ih, List.length_cons,
        List.length_cons]
      omega

theorem length_le_digitsLength (apostrophe : isDigit Byte.apostrophe = false)
    (digits : Optional (Digits isDigit separators) bytes) (after : Bytes) :
    bytes.length ≤ digitsLength isDigit separators false (bytes ++ after) := by
  cases digits with
  | absent => exact Nat.zero_le _
  | present digits =>
      rw [digitsLength_append apostrophe digits]
      exact Nat.le_add_right _ _

theorem digitsLength_eq_of_stop (apostrophe : isDigit Byte.apostrophe = false)
    (digits : Optional (Digits isDigit separators) bytes) {b : UInt8}
    (noDigit : isDigit b = false) (noSeparator : b ≠ Byte.apostrophe) (after : Bytes) :
    digitsLength isDigit separators false (bytes ++ b :: after) = bytes.length := by
  have stops (seen : Bool) : digitsLength isDigit separators seen (b :: after) = 0 := by
    simp [digitsLength, noDigit, noSeparator]
  cases digits with
  | absent => exact stops false
  | present digits => rw [digitsLength_append apostrophe digits, stops, Nat.add_zero]

/-! ## Fractions and exponents -/

theorem optional_fraction_take (isDigit : UInt8 → Bool) (separators : Bool) (rest : Bytes) :
    Optional (Fraction isDigit separators)
      (rest.take (fractionLength isDigit separators rest)) := by
  cases rest with
  | nil => exact .absent
  | cons b rest =>
      rw [fractionLength]
      split
      · rename_i point
        rw [point, Nat.add_comm, List.take_succ_cons]
        exact .present (.point (optional_digits_take isDigit separators rest))
      · exact .absent

theorem length_le_fractionLength (apostrophe : isDigit Byte.apostrophe = false)
    (fraction : Optional (Fraction isDigit separators) bytes) (after : Bytes) :
    bytes.length ≤ fractionLength isDigit separators (bytes ++ after) := by
  cases fraction with
  | absent => exact Nat.zero_le _
  | present fraction =>
      cases fraction with
      | point digits =>
          have digitsLe := length_le_digitsLength apostrophe digits after
          rw [List.cons_append, fractionLength, if_pos rfl, List.length_cons]
          omega

theorem fractionLength_eq_of_stop (apostrophe : isDigit Byte.apostrophe = false)
    (fraction : Optional (Fraction isDigit separators) bytes) {b : UInt8}
    (noDigit : isDigit b = false) (noSeparator : b ≠ Byte.apostrophe)
    (noPoint : b ≠ Byte.point) (after : Bytes) :
    fractionLength isDigit separators (bytes ++ b :: after) = bytes.length := by
  cases fraction with
  | absent => rw [List.nil_append, fractionLength, if_neg noPoint, List.length_nil]
  | present fraction =>
      cases fraction with
      | point digits =>
          rw [List.cons_append, fractionLength, if_pos rfl,
            digitsLength_eq_of_stop apostrophe digits noDigit noSeparator, List.length_cons,
            Nat.add_comm]

theorem optional_sign_take (rest : Bytes) : Optional Sign (rest.take (signLength rest)) := by
  rw [signLength]
  split
  · rename_i sign
    cases rest with
    | nil => simp at sign
    | cons b rest =>
        simp only [List.head?_cons, Option.some.injEq] at sign
        rcases sign with rfl | rfl
        · exact .present .plus
        · exact .present .minus
  · exact .absent

/-- In front of a digit a sign is as long as it is read. -/
theorem signLength_append {sign : Bytes} (signed : Optional Sign sign)
    (starts : after.head?.any Byte.isDigit = true) : signLength (sign ++ after) = sign.length := by
  cases signed with
  | absent =>
      cases after with
      | nil => cases starts
      | cons b after =>
          have digit : Byte.isDigit b = true := starts
          have noSign : ¬(b = 0x2B ∨ b = 0x2D) := by
            rintro (rfl | rfl)
            · cases digit
            · cases digit
          simp [signLength, noSign]
  | present sign =>
      cases sign with
      | plus => rfl
      | minus => rfl

theorem optional_exponent_take (isMark : UInt8 → Bool) (separators : Bool) (rest : Bytes) :
    Optional (Exponent isMark separators)
      (rest.take (exponentLength isMark separators rest)) := by
  cases rest with
  | nil => exact .absent
  | cons b rest =>
      simp only [exponentLength]
      split
      · rename_i marked
        obtain ⟨mark, starts⟩ := Bool.and_eq_true_iff.mp marked
        rw [Nat.add_assoc, Nat.add_comm, List.take_succ_cons, List.take_add]
        exact .present (.marked mark (optional_sign_take rest)
          ((digits_take_digitsLength Byte.isDigit separators false _).1 starts))
      · exact .absent

theorem length_le_exponentLength
    (exponent : Optional (Exponent isMark separators) bytes) (after : Bytes) :
    bytes.length ≤ exponentLength isMark separators (bytes ++ after) := by
  cases exponent with
  | absent => exact Nat.zero_le _
  | present exponent =>
      cases exponent with
      | @marked mark sign digits opens signed holds =>
          have starts : (digits ++ after).head?.any Byte.isDigit = true := by
            have starts := head?_of_digits holds
            cases digits with
            | nil => cases starts
            | cons c digits => exact starts
          have digitsLe := length_le_digitsLength rfl (.present holds) after
          simp only [List.cons_append, List.append_assoc, exponentLength,
            signLength_append signed starts, List.drop_left, opens, starts, Bool.and_self,
            if_true, List.length_cons, List.length_append]
          omega

/-! ## Digits, fraction and exponent in a row -/

theorem exponent_cases (exponent : Optional (Exponent isMark separators) bytes) :
    bytes = [] ∨ ∃ mark tail, bytes = mark :: tail ∧ isMark mark = true := by
  cases exponent with
  | absent => exact Or.inl rfl
  | present exponent =>
      cases exponent with
      | marked opens _ _ => exact Or.inr ⟨_, _, rfl, opens⟩

theorem length_le_fraction_exponent (base : Base isDigit isMark) {fraction exponent : Bytes}
    (point : Optional (Fraction isDigit separators) fraction)
    (power : Optional (Exponent isMark separators) exponent) (after : Bytes) {length : Nat}
    (lengthEq : fractionLength isDigit separators (fraction ++ exponent ++ after) = length) :
    (fraction ++ exponent).length ≤
      length + exponentLength isMark separators ((fraction ++ exponent ++ after).drop length) := by
  rcases exponent_cases power with rfl | ⟨mark, tail, rfl, opens⟩
  · rw [List.append_nil] at lengthEq ⊢
    have fractionLe := length_le_fractionLength base.apostrophe point after
    omega
  · -- The mark stops the fraction, so the exponent is met where it starts.
    obtain ⟨noDigit, noSeparator, noPoint⟩ := base.mark mark opens
    have stops := fractionLength_eq_of_stop base.apostrophe point noDigit noSeparator noPoint
      (tail ++ after)
    rw [← List.cons_append, ← List.append_assoc, lengthEq] at stops
    rw [stops, List.append_assoc, List.drop_left, List.length_append]
    exact Nat.add_le_add_left (length_le_exponentLength power after) _

/-- Neither a fraction nor an exponent starts like digits go on. -/
theorem fraction_exponent_cases (base : Base isDigit isMark) {fraction exponent : Bytes}
    (point : Optional (Fraction isDigit separators) fraction)
    (power : Optional (Exponent isMark separators) exponent) :
    fraction ++ exponent = [] ∨ ∃ b tail, fraction ++ exponent = b :: tail ∧
      isDigit b = false ∧ b ≠ Byte.apostrophe := by
  cases point with
  | absent =>
      rcases exponent_cases power with rfl | ⟨mark, tail, rfl, opens⟩
      · exact Or.inl rfl
      · obtain ⟨noDigit, noSeparator, _⟩ := base.mark mark opens
        exact Or.inr ⟨mark, tail, rfl, noDigit, noSeparator⟩
  | present point =>
      cases point with
      | point _ => exact Or.inr ⟨Byte.point, _, rfl, base.point, by decide⟩

theorem realLength_eq (isDigit isMark : UInt8 → Bool) (separators : Bool) (rest : Bytes)
    {whole fraction : Nat} (wholeEq : digitsLength isDigit separators false rest = whole)
    (fractionEq : fractionLength isDigit separators (rest.drop whole) = fraction) :
    realLength isDigit isMark separators rest = whole +
      (fraction + exponentLength isMark separators ((rest.drop whole).drop fraction)) := by
  rw [realLength, wholeEq, fractionEq, List.drop_drop, Nat.add_assoc]

/-- The scanner gets as far as any digits, fraction and exponent at the front. -/
theorem length_le_realLength (base : Base isDigit isMark) {whole fraction exponent : Bytes}
    (digits : Optional (Digits isDigit separators) whole)
    (point : Optional (Fraction isDigit separators) fraction)
    (power : Optional (Exponent isMark separators) exponent) (after : Bytes) :
    (whole ++ (fraction ++ exponent)).length ≤
      realLength isDigit isMark separators (whole ++ (fraction ++ exponent) ++ after) := by
  rw [realLength_eq isDigit isMark separators _ rfl rfl]
  rcases fraction_exponent_cases base point power with
    empty | ⟨b, tail, tailEq, noDigit, noSeparator⟩
  · rw [empty, List.append_nil]
    exact Nat.le_add_right_of_le (length_le_digitsLength base.apostrophe digits after)
  · have stops := digitsLength_eq_of_stop base.apostrophe digits noDigit noSeparator
      (tail ++ after)
    rw [← List.cons_append, ← tailEq, ← List.append_assoc] at stops
    have restLe := length_le_fraction_exponent base point power after rfl
    rw [stops, List.append_assoc, List.drop_left, List.length_append]
    exact Nat.add_le_add_left restLe _

theorem take_realLength (isDigit isMark : UInt8 → Bool) (separators : Bool) (rest : Bytes)
    {whole fraction : Nat} (wholeEq : digitsLength isDigit separators false rest = whole)
    (fractionEq : fractionLength isDigit separators (rest.drop whole) = fraction) :
    rest.take (realLength isDigit isMark separators rest) =
      rest.take whole ++ ((rest.drop whole).take fraction ++
        ((rest.drop whole).drop fraction).take
          (exponentLength isMark separators ((rest.drop whole).drop fraction))) := by
  rw [realLength_eq isDigit isMark separators rest wholeEq fractionEq, List.take_add,
    List.take_add]

/-! ## The suffix -/

theorem take_numeralLength (separators : Bool) (rest : Bytes) :
    rest.take (numeralLength separators rest) = rest.take (numeralBody separators rest) ++
      (rest.drop (numeralBody separators rest)).takeWhile Byte.isWord := by
  rw [numeralLength, List.take_add]
  congr 1
  exact (List.prefix_iff_eq_take.mp (List.takeWhile_prefix _)).symm

/-- Whoever gets as far as the body gets, behind it, as far as the suffix. -/
theorem length_le_of_body_le {body suffix : Bytes} (letters : ∀ b ∈ suffix, Byte.isWord b = true)
    (after : Bytes) {reached : Nat} (bodyLe : body.length ≤ reached) :
    (body ++ suffix).length ≤
      reached + (((body ++ suffix ++ after).drop reached).takeWhile Byte.isWord).length := by
  obtain ⟨more, rfl⟩ := Nat.exists_eq_add_of_le bodyLe
  rw [List.length_append, List.append_assoc, ← List.drop_drop, List.drop_left]
  by_cases passed : suffix.length ≤ more
  · omega
  · have lettersLeft : ∀ b ∈ suffix.drop more, Byte.isWord b = true :=
      fun b member => letters b (List.mem_of_mem_drop member)
    rw [List.drop_append_of_le_length (by omega), List.takeWhile_append_of_pos lettersLeft,
      List.length_append, List.length_drop]
    omega

/-! ## The base -/

theorem zero_mark_iff (isMark : UInt8 → Bool) (rest : Bytes) :
    (rest.head? == some 0x30 && (rest.drop 1).head?.any isMark) = true ↔
      ∃ mark tail, rest = 0x30 :: mark :: tail ∧ isMark mark = true := by
  constructor
  · intro starts
    match rest with
    | [] => cases starts
    | [b] => simp at starts
    | b :: mark :: tail =>
        simp only [List.head?_cons, List.drop_succ_cons, List.drop_zero, Option.any_some,
          Bool.and_eq_true, beq_iff_eq, Option.some.injEq] at starts
        obtain ⟨rfl, opens⟩ := starts
        exact ⟨mark, tail, rfl, opens⟩
  · rintro ⟨mark, tail, rfl, opens⟩
    exact opens

theorem isHexStart_iff : isHexStart rest = true ↔
    ∃ mark tail, rest = 0x30 :: mark :: tail ∧ (mark = 0x78 ∨ mark = 0x58) := by
  simpa [isHexStart] using zero_mark_iff (fun b => b == 0x78 || b == 0x58) rest

theorem isBinaryStart_iff : isBinaryStart rest = true ↔
    ∃ mark tail, rest = 0x30 :: mark :: tail ∧ (mark = 0x62 ∨ mark = 0x42) := by
  simpa [isBinaryStart] using zero_mark_iff (fun b => b == 0x62 || b == 0x42) rest

/-- Read as a decimal, a numeral ends in front of the letter that announces another base. -/
theorem realLength_zero_letter {mark : UInt8}
    (letter : (mark = 0x78 ∨ mark = 0x58) ∨ mark = 0x62 ∨ mark = 0x42) (tail : Bytes) :
    realLength Byte.isDigit isDecimalMark separators (0x30 :: mark :: tail) = 1 := by
  obtain ⟨noDigit, noSeparator, noPoint, noMark⟩ : Byte.isDigit mark = false ∧
      mark ≠ Byte.apostrophe ∧ mark ≠ Byte.point ∧ isDecimalMark mark = false := by
    rcases letter with (rfl | rfl) | rfl | rfl <;> decide
  have zero : Optional (Digits Byte.isDigit separators) [0x30] := .present (.one rfl)
  have wholeEq : digitsLength Byte.isDigit separators false (0x30 :: mark :: tail) = 1 :=
    digitsLength_eq_of_stop rfl zero noDigit noSeparator tail
  have fractionEq : fractionLength Byte.isDigit separators (mark :: tail) = 0 := by
    rw [fractionLength, if_neg noPoint]
  rw [realLength_eq _ _ _ _ wholeEq fractionEq]
  simp [exponentLength, noMark]

/-- Reading `0x` or `0b` as the start of another base never makes a numeral shorter. -/
theorem realLength_le_numeralBody (separators : Bool) (rest : Bytes) :
    realLength Byte.isDigit isDecimalMark separators rest ≤ numeralBody separators rest := by
  rw [numeralBody]
  split
  · rename_i starts
    obtain ⟨mark, tail, rfl, opens⟩ := isHexStart_iff.mp starts
    rw [realLength_zero_letter (Or.inl opens)]
    omega
  · split
    · rename_i starts
      obtain ⟨mark, tail, rfl, opens⟩ := isBinaryStart_iff.mp starts
      rw [realLength_zero_letter (Or.inr opens)]
      omega
    · exact Nat.le_refl _

/-! ## The longest match -/

/-- No numeral at the front is longer than what is read. -/
theorem length_le_numeralLength {front : Bytes} (numeral : Numeral separators front)
    (stands : front <+: rest) : front.length ≤ numeralLength separators rest := by
  obtain ⟨after, rfl⟩ := stands
  cases numeral with
  | @hexadecimal mark whole fraction exponent suffix opens digits point power letters =>
      apply length_le_of_body_le letters
      have starts : isHexStart (0x30 :: mark :: (whole ++ (fraction ++ exponent)) ++ suffix ++
          after) = true := isHexStart_iff.mpr ⟨mark, _, rfl, opens⟩
      have bodyLe := length_le_realLength hexBase digits point power (suffix ++ after)
      rw [numeralBody, if_pos starts]
      simp only [List.cons_append, List.length_cons, List.drop_succ_cons, List.drop_zero,
        List.append_assoc] at bodyLe ⊢
      omega
  | @binary mark whole suffix opens digits letters =>
      apply length_le_of_body_le letters
      have starts : isBinaryStart (0x30 :: mark :: whole ++ suffix ++ after) = true :=
        isBinaryStart_iff.mpr ⟨mark, _, rfl, opens⟩
      have noHex : ¬isHexStart (0x30 :: mark :: whole ++ suffix ++ after) = true := by
        rcases opens with rfl | rfl <;> exact Bool.false_ne_true
      have bodyLe := length_le_digitsLength rfl digits (suffix ++ after)
      rw [numeralBody, if_neg noHex, if_pos starts]
      simp only [List.cons_append, List.length_cons, List.drop_succ_cons, List.drop_zero,
        List.append_assoc] at bodyLe ⊢
      omega
  | @decimal whole fraction exponent suffix digits point power letters =>
      apply length_le_of_body_le letters
      refine Nat.le_trans ?_ (realLength_le_numeralBody separators _)
      rw [List.append_assoc _ suffix]
      exact length_le_realLength decimalBase (.present digits) point power (suffix ++ after)
  | @pointFirst digits exponent suffix holds power letters =>
      apply length_le_of_body_le letters
      refine Nat.le_trans ?_ (realLength_le_numeralBody separators _)
      rw [List.append_assoc _ suffix]
      exact length_le_realLength decimalBase .absent (.present (.point (.present holds))) power
        (suffix ++ after)

/-- Where a digit or a point in front of one stands, a decimal numeral is read. -/
theorem numeral_take_realLength {suffix : Bytes} (starts : isNumeralStart rest = true)
    (letters : ∀ b ∈ suffix, Byte.isWord b = true) :
    Numeral separators
      (rest.take (realLength Byte.isDigit isDecimalMark separators rest) ++ suffix) := by
  cases rest with
  | nil => cases starts
  | cons b rest =>
      simp only [isNumeralStart, Bool.or_eq_true, Bool.and_eq_true, beq_iff_eq] at starts
      rcases starts with digit | ⟨rfl, follows⟩
      · have whole := (digits_take_digitsLength Byte.isDigit separators false (b :: rest)).1 digit
        rw [take_realLength _ _ _ _ rfl rfl]
        exact .decimal whole (optional_fraction_take _ _ _) (optional_exponent_take _ _ _) letters
      · have wholeEq : digitsLength Byte.isDigit separators false (Byte.point :: rest) = 0 :=
          digitsLength_eq_of_stop rfl .absent rfl (by decide) rest
        have digits := (digits_take_digitsLength Byte.isDigit separators false rest).1 follows
        rw [take_realLength _ _ _ _ wholeEq rfl, List.take_zero, List.nil_append, List.drop_zero,
          fractionLength, if_pos rfl, Nat.add_comm, List.take_succ_cons]
        exact .pointFirst digits (optional_exponent_take _ _ _) letters

/-- Where a numeral starts, a numeral is read. -/
theorem numeral_take_numeralLength (separators : Bool) (starts : isNumeralStart rest = true) :
    Numeral separators (rest.take (numeralLength separators rest)) := by
  have letters : ∀ b ∈ (rest.drop (numeralBody separators rest)).takeWhile Byte.isWord,
      Byte.isWord b = true := fun b member => List.mem_takeWhile_imp member
  rw [take_numeralLength]
  generalize (rest.drop (numeralBody separators rest)).takeWhile Byte.isWord = suffix at letters ⊢
  rw [numeralBody]
  split
  · rename_i hexStarts
    obtain ⟨mark, tail, rfl, opens⟩ := isHexStart_iff.mp hexStarts
    rw [Nat.add_comm, List.take_succ_cons, List.take_succ_cons, List.drop_succ_cons,
      List.drop_succ_cons, List.drop_zero, take_realLength _ _ _ _ rfl rfl]
    exact .hexadecimal opens (optional_digits_take _ _ _) (optional_fraction_take _ _ _)
      (optional_exponent_take _ _ _) letters
  · split
    · rename_i binaryStarts
      obtain ⟨mark, tail, rfl, opens⟩ := isBinaryStart_iff.mp binaryStarts
      rw [Nat.add_comm, List.take_succ_cons, List.take_succ_cons]
      exact .binary opens (optional_digits_take _ _ _) letters
    · exact numeral_take_realLength starts letters

end Lexeme

namespace Numeral

open Lexeme

variable {isDigit : UInt8 → Bool} {separators : Bool} {bytes : Bytes}

/-! ## Separators -/

/-- Every apostrophe has a digit on both sides. -/
def Flanked (isDigit : UInt8 → Bool) (bytes : Bytes) : Prop :=
  ∀ left right, bytes = left ++ Byte.apostrophe :: right →
    left.getLast?.any isDigit = true ∧ right.head?.any isDigit = true

/-- The digits of a numeral: hexadecimal ones behind `0x`, and decimal ones otherwise. -/
def digitOf (bytes : Bytes) : UInt8 → Bool :=
  if isHexStart bytes then Byte.isHexDigit else Byte.isDigit

theorem Flanked.mono {isDigit isDigit' : UInt8 → Bool} (flanked : Flanked isDigit bytes)
    (includes : ∀ b, isDigit b = true → isDigit' b = true) : Flanked isDigit' bytes := by
  have anyIncludes (found : Option UInt8) (holds : found.any isDigit = true) :
      found.any isDigit' = true := by
    cases found with
    | none => cases holds
    | some b => exact includes b holds
  intro left right bytesEq
  obtain ⟨last, first⟩ := flanked left right bytesEq
  exact ⟨anyIncludes _ last, anyIncludes _ first⟩

theorem Flanked.of_notMem (notMem : Byte.apostrophe ∉ bytes) : Flanked isDigit bytes := by
  intro left right bytesEq
  exact absurd (by rw [bytesEq]; simp) notMem

theorem Flanked.append {left right : Bytes} (leftFlanked : Flanked isDigit left)
    (rightFlanked : Flanked isDigit right) : Flanked isDigit (left ++ right) := by
  intro front back bytesEq
  rcases List.append_eq_append_iff.mp bytesEq with
    ⟨middle, rfl, rightEq⟩ | ⟨middle, leftEq, backEq⟩
  · obtain ⟨last, first⟩ := rightFlanked middle back rightEq
    rw [List.getLast?_append]
    cases lastEq : middle.getLast? with
    | none =>
        rw [lastEq] at last
        cases last
    | some b =>
        rw [lastEq] at last
        exact ⟨last, first⟩
  · cases middle with
    | nil =>
        -- The apostrophe comes first on the right, where nothing stands before it.
        cases (rightFlanked [] back backEq.symm).1
    | cons b middle =>
        obtain ⟨rfl, rfl⟩ := List.cons.inj backEq
        obtain ⟨last, first⟩ := leftFlanked front middle leftEq
        cases middle with
        | nil => cases first
        | cons c middle => exact ⟨last, first⟩

theorem Optional.flanked {part : Bytes → Prop} (optional : Optional part bytes)
    (flanked : part bytes → Flanked isDigit bytes) : Flanked isDigit bytes := by
  cases optional with
  | absent => exact .of_notMem List.not_mem_nil
  | present holds => exact flanked holds

theorem Digits.flanked (apostrophe : isDigit Byte.apostrophe = false)
    (digits : Digits isDigit separators bytes) : Flanked isDigit bytes := by
  have single {b : UInt8} (digit : isDigit b = true) : Byte.apostrophe ∉ [b] := by
    intro member
    rw [List.mem_singleton.mp member, digit] at apostrophe
    cases apostrophe
  induction digits with
  | one digit => exact .of_notMem (single digit)
  | cons digit _ ih => exact .append (.of_notMem (single digit)) ih
  | @separated b rest digit _ digits ih =>
      intro left right bytesEq
      match left with
      | [] =>
          obtain ⟨rfl, _⟩ := List.cons.inj bytesEq
          exact absurd (List.mem_singleton_self _) (single digit)
      | [c] =>
          simp only [List.cons_append, List.nil_append, List.cons.injEq, true_and] at bytesEq
          obtain ⟨rfl, rfl⟩ := bytesEq
          exact ⟨digit, head?_of_digits digits⟩
      | c :: d :: left =>
          simp only [List.cons_append, List.cons.injEq] at bytesEq
          obtain ⟨last, first⟩ := ih left right bytesEq.2.2
          cases left with
          | nil => cases last
          | cons e left => exact ⟨last, first⟩

theorem Fraction.flanked (apostrophe : isDigit Byte.apostrophe = false)
    (fraction : Fraction isDigit separators bytes) : Flanked isDigit bytes := by
  cases fraction with
  | @point digits optional =>
      have pointOnly : Flanked isDigit [Byte.point] := .of_notMem (by decide)
      exact pointOnly.append (optional.flanked (Digits.flanked apostrophe))

theorem Sign.flanked (sign : Sign bytes) : Flanked isDigit bytes := by
  cases sign with
  | plus => exact .of_notMem (by decide)
  | minus => exact .of_notMem (by decide)

theorem Exponent.flanked {isMark : UInt8 → Bool} (base : Base isDigit isMark)
    (exponent : Exponent isMark separators bytes) : Flanked Byte.isDigit bytes := by
  cases exponent with
  | @marked mark sign digits opens signed holds =>
      have markOnly : Flanked Byte.isDigit [mark] := by
        refine .of_notMem fun member => ?_
        exact (base.mark mark opens).2.1 (List.mem_singleton.mp member).symm
      exact markOnly.append ((signed.flanked Sign.flanked).append (holds.flanked rfl))

theorem flanked_of_letters {suffix : Bytes} (letters : ∀ b ∈ suffix, Byte.isWord b = true) :
    Flanked isDigit suffix := by
  refine .of_notMem fun member => ?_
  cases letters _ member

theorem isHexDigit_of_isDigit {b : UInt8} (digit : Byte.isDigit b = true) :
    Byte.isHexDigit b = true := by
  rw [Byte.isHexDigit, digit]
  rfl

theorem digitOf_of_isDigit (bytes : Bytes) {b : UInt8} (digit : Byte.isDigit b = true) :
    digitOf bytes b = true := by
  rw [digitOf]
  split
  · exact isHexDigit_of_isDigit digit
  · exact digit

end Numeral

/-- The separators of a numeral stand between its digits. -/
theorem Numeral.flanked {separators : Bool} {bytes : Bytes} (numeral : Numeral separators bytes) :
    Flanked (digitOf bytes) bytes := by
  cases numeral with
  | @hexadecimal mark whole fraction exponent suffix opens digits point power letters =>
      have starts : Lexeme.isHexStart
          (0x30 :: mark :: (whole ++ (fraction ++ exponent)) ++ suffix) = true :=
        Lexeme.isHexStart_iff.mpr ⟨mark, _, rfl, opens⟩
      have opening : Flanked Byte.isHexDigit [0x30, mark] :=
        .of_notMem (by rcases opens with rfl | rfl <;> decide)
      have powerFlanked : Flanked Byte.isHexDigit exponent :=
        (power.flanked (Exponent.flanked Lexeme.hexBase)).mono fun _ => isHexDigit_of_isDigit
      rw [digitOf, if_pos starts]
      exact (opening.append ((digits.flanked (Digits.flanked rfl)).append
        ((point.flanked (Fraction.flanked rfl)).append powerFlanked))).append
          (flanked_of_letters letters)
  | @binary mark whole suffix opens digits letters =>
      have opening : Flanked Byte.isDigit [0x30, mark] :=
        .of_notMem (by rcases opens with rfl | rfl <;> decide)
      have wholeFlanked : Flanked Byte.isDigit whole := by
        refine (digits.flanked (Digits.flanked rfl)).mono fun b digit => ?_
        simp only [Byte.isBinaryDigit, Bool.or_eq_true, beq_iff_eq] at digit
        rcases digit with rfl | rfl <;> rfl
      have flanked := (opening.append wholeFlanked).append (flanked_of_letters letters)
      exact flanked.mono fun _ => digitOf_of_isDigit _
  | @decimal whole fraction exponent suffix digits point power letters =>
      have flanked := ((digits.flanked rfl).append
        ((point.flanked (Fraction.flanked rfl)).append
          (power.flanked (Exponent.flanked Lexeme.decimalBase)))).append
            (flanked_of_letters letters)
      exact flanked.mono fun _ => digitOf_of_isDigit _
  | @pointFirst digits exponent suffix holds power letters =>
      have fraction : Fraction Byte.isDigit separators (Byte.point :: digits) :=
        .point (.present holds)
      have flanked := ((fraction.flanked rfl).append
        (power.flanked (Exponent.flanked Lexeme.decimalBase))).append (flanked_of_letters letters)
      exact flanked.mono fun _ => digitOf_of_isDigit _

/-! ## Numerals in the token stream -/

/-- The longest of the byte strings with a property that `rest` starts with. -/
structure LongestAt (holds : Bytes → Prop) (rest front : Bytes) : Prop where
  stands : front <+: rest
  member : holds front
  longest : ∀ other, other <+: rest → holds other → other.length ≤ front.length

theorem Lexeme.longestAt_numeralLength (separators : Bool) {rest : Bytes}
    (starts : isNumeralStart rest = true) :
    LongestAt (Numeral separators) rest (rest.take (numeralLength separators rest)) where
  stands := List.take_prefix _ _
  member := numeral_take_numeralLength separators starts
  longest := by
    intro other stands numeral
    rw [List.length_take_of_le (numeralLength_le separators rest)]
    exact length_le_numeralLength numeral stands

namespace Lexer

open Numeral

/-- A token of the kind of numerals is the longest numeral that starts there, and its
separators stand between digits. -/
theorem tokenize_numerals (grammar : Grammar) (text : Bytes) :
    ∀ token ∈ (table grammar).tokenize text, token.kind = .number →
      LongestAt (Numeral grammar.digitSeparators) (text.drop token.start) (token.slice text) ∧
        Flanked (digitOf (token.slice text)) (token.slice text) := by
  intro token member number
  obtain ⟨_, tokenEq⟩ := (table grammar).eq_tokenAt_of_mem member
  generalize token.start = start at tokenEq
  subst tokenEq
  have foundEq := Lexeme.numeral?_of_number number
  rw [Lexeme.numeral?, Option.ite_none_right_eq_some, Option.some.injEq] at foundEq
  obtain ⟨starts, readEq⟩ := foundEq
  have lengthEq : Lexeme.numeralLength grammar.digitSeparators (text.drop start) =
      ((table grammar).lexemeAt text start).length := congrArg Lexeme.length readEq
  have longest := Lexeme.longestAt_numeralLength grammar.digitSeparators starts
  rw [lengthEq, ← slice_tokenAt] at longest
  exact ⟨longest, longest.member.flanked⟩

/-- Separators in the digits and the exponent, a point without digits, and an
apostrophe behind the suffix. -/
theorem tokenize_numerals_hexadecimal :
    LongestAt (Numeral true) (Utf8.bytes "0xA'f.p-1'0u'1") (Utf8.bytes "0xA'f.p-1'0u") ∧
      Flanked Byte.isHexDigit (Utf8.bytes "0xA'f.p-1'0u") := by
  have member : (⟨.number, 1, 13⟩ : Token) ∈
      (table { Grammar.base with name := "demo", digitSeparators := true }).tokenize
        (Utf8.bytes "-0xA'f.p-1'0u'1") := by decide
  exact tokenize_numerals _ _ _ member rfl

end Lexer

end Highlight
