import Highlight.Color
import Mathlib.Algebra.Group.Nat.Defs

/-!
# Reading a colour digit by digit

A colour is read by way of a word of 32 bits: the digits are put together, and the word
is taken apart by shifts and masks.  For three and six digits the word is large enough,
and taking it apart gives back the digits that were put in.  So the colour can be read
off the values of the digits: `Color.ofText?_eq`.

More digits may make the word overflow and none make no word, but in both cases their
number alone is enough to refuse the text.
-/

namespace Highlight

namespace Hex

/-- The number that some values of digits make up behind a number in front. -/
def join (front : Nat) (values : List Nat) : Nat :=
  values.foldl (fun front value => front * 16 + value) front

theorem lt_of_digit?_eq_some {char : Char} {value : Nat} (read : digit? char = some value) :
    value < 16 := by
  have upper {last : Char} (le : char ≤ last) : char.toNat ≤ last.toNat := le
  unfold digit? at read
  split at read
  · rename_i decimal
    have := upper decimal.2
    cases read
    simp at *
    omega
  split at read
  · rename_i letter
    have := upper letter.2
    cases read
    simp at *
    omega
  split at read
  · rename_i capital
    have := upper capital.2
    cases read
    simp at *
    omega
  · cases read

/-- The values of digits are read one for one. -/
theorem of_mapM_digit?_eq_some {chars : List Char} {values : List Nat}
    (read : chars.mapM digit? = some values) :
    (chars.all fun char => (digit? char).isSome) = true ∧ chars.length = values.length ∧
      ∀ value ∈ values, value < 16 := by
  induction chars generalizing values with
  | nil =>
      cases read
      exact ⟨rfl, rfl, List.forall_mem_nil _⟩
  | cons char rest ih =>
      rw [List.mapM_cons, Option.bind_eq_bind, Option.bind_eq_some_iff] at read
      obtain ⟨value, valueEq, restRead⟩ := read
      obtain ⟨others, othersEq, valuesEq⟩ := Option.bind_eq_some_iff.mp restRead
      cases valuesEq
      obtain ⟨allDigits, lengthEq, othersLt⟩ := ih othersEq
      refine ⟨?_, congrArg (· + 1) lengthEq, ?_⟩
      · rw [List.all_cons, valueEq, allDigits]
        rfl
      · exact List.forall_mem_cons.mpr ⟨lt_of_digit?_eq_some valueEq, othersLt⟩

/-- Where a value is missing, the check of the digits fails. -/
theorem all_isSome_of_mapM_digit?_eq_none {chars : List Char} (missing : chars.mapM digit? = none) :
    (chars.all fun char => (digit? char).isSome) = false := by
  induction chars with
  | nil => cases missing
  | cons char rest ih =>
      rw [List.all_cons]
      cases valueEq : digit? char with
      | none => rfl
      | some value =>
          rw [List.mapM_cons, valueEq] at missing
          cases restEq : rest.mapM digit? with
          | none => rw [ih restEq, Bool.and_false]
          | some others =>
              rw [restEq] at missing
              cases missing

/-- A digit more keeps the word exact as long as there is room for it. -/
theorem push?_eq {word : UInt32} {char : Char} {value : Nat} (read : digit? char = some value)
    (room : word.toNat * 16 + value < UInt32.size) :
    ∃ next, push? word char = some next ∧ next.toNat = word.toNat * 16 + value := by
  have valueLt := lt_of_digit?_eq_some read
  have mulRoom : word.toNat * (16 : UInt32).toNat < UInt32.size := by
    change word.toNat * 16 < UInt32.size
    omega
  have mulEq : (word * 16).toNat = word.toNat * 16 := by
    rw [UInt32.toNat_mul]
    exact Nat.mod_eq_of_lt mulRoom
  have valueEq : (UInt32.ofNat value).toNat = value := by
    rw [UInt32.toNat_ofNat']
    exact Nat.mod_eq_of_lt (by omega)
  have addRoom : (word * 16).toNat + (UInt32.ofNat value).toNat < UInt32.size := by
    rw [mulEq, valueEq]
    exact room
  refine ⟨word * 16 + UInt32.ofNat value, ?_, ?_⟩
  · simp only [push?, checkedMul?, checkedAdd?, if_pos mulRoom, read, Option.bind_eq_bind,
      Option.bind_some, if_pos addRoom]
  · rw [UInt32.toNat_add, mulEq, valueEq]
    exact Nat.mod_eq_of_lt room

/-- Up to eight digits always make a word. -/
theorem foldlM_push?_eq {chars : List Char} {values : List Nat} {word : UInt32}
    (read : chars.mapM digit? = some values)
    (room : (word.toNat + 1) * 16 ^ chars.length ≤ UInt32.size) :
    ∃ next, chars.foldlM push? word = some next ∧ next.toNat = join word.toNat values := by
  induction chars generalizing word values with
  | nil =>
      cases read
      exact ⟨word, rfl, rfl⟩
  | cons char rest ih =>
      rw [List.mapM_cons, Option.bind_eq_bind, Option.bind_eq_some_iff] at read
      obtain ⟨value, valueEq, restRead⟩ := read
      obtain ⟨others, othersEq, valuesEq⟩ := Option.bind_eq_some_iff.mp restRead
      cases valuesEq
      have valueLt := lt_of_digit?_eq_some valueEq
      rw [List.length_cons, Nat.pow_succ', ← Nat.mul_assoc] at room
      have positive : 0 < 16 ^ rest.length := Nat.pow_pos (by decide)
      have wordRoom : (word.toNat + 1) * 16 ≤ UInt32.size :=
        Nat.le_trans (Nat.le_mul_of_pos_right _ positive) room
      obtain ⟨next, pushEq, nextEq⟩ := push?_eq valueEq (by omega : word.toNat * 16 + value < _)
      have restRoom : (next.toNat + 1) * 16 ^ rest.length ≤ UInt32.size :=
        Nat.le_trans (Nat.mul_le_mul_right _ (by omega)) room
      obtain ⟨last, foldEq, lastEq⟩ := ih othersEq restRoom
      refine ⟨last, ?_, ?_⟩
      · rw [List.foldlM_cons, pushEq]
        exact foldEq
      · rw [lastEq, nextEq]
        rfl

/-- Some digits, no more than eight, spell the word with their number. -/
theorem word?_eq {chars : List Char} {values : List Nat} (read : chars.mapM digit? = some values)
    (nonempty : chars ≠ []) (short : chars.length ≤ 8) :
    ∃ word, word? chars = some word ∧ word.toNat = join 0 values := by
  have room : ((0 : UInt32).toNat + 1) * 16 ^ chars.length ≤ UInt32.size := by
    change 1 * 16 ^ chars.length ≤ 16 ^ 8
    rw [Nat.one_mul]
    exact Nat.pow_le_pow_right (by decide) short
  obtain ⟨word, foldEq, wordEq⟩ := foldlM_push?_eq read room
  refine ⟨word, ?_, wordEq⟩
  rw [word?, if_neg (by simpa using nonempty), foldEq]

end Hex

namespace Color

/-- The byte with the given two digits. -/
def byte (high low : Nat) : UInt8 :=
  UInt8.ofNat (high * 16 + low)

/-- Shifts and casts cut the bytes out of a code. -/
theorem ofCode_eq (code : UInt32) :
    ofCode code = ⟨UInt8.ofNat (code.toNat / 65536), UInt8.ofNat (code.toNat / 256),
      UInt8.ofNat code.toNat⟩ := by
  have cut (count : UInt32) (power : Nat)
      (shift : ∀ value : Nat, value >>> (count.toNat % 32) = value / power) :
      (code >>> count).toUInt8 = UInt8.ofNat (code.toNat / power) := by
    rw [← UInt8.toNat_inj, UInt32.toNat_toUInt8, UInt32.toNat_shiftRight, shift,
      UInt8.toNat_ofNat']
  have last : code.toUInt8 = UInt8.ofNat code.toNat := by
    rw [← UInt8.toNat_inj, UInt32.toNat_toUInt8, UInt8.toNat_ofNat']
  rw [ofCode, cut 16 65536 fun value => Nat.shiftRight_eq_div_pow value 16,
    cut 8 256 fun value => Nat.shiftRight_eq_div_pow value 8, last]

/-- The mask keeps the last digit, and the factor writes it twice. -/
theorem doubled_eq (word : UInt32) : doubled word = byte (word.toNat % 16) (word.toNat % 16) := by
  have masked : (word.toUInt8 &&& 0xF).toNat = word.toNat % 16 := by
    rw [UInt8.toNat_and, UInt32.toNat_toUInt8]
    change (word.toNat % 256) &&& (2 ^ 4 - 1) = word.toNat % 16
    rw [Nat.and_two_pow_sub_one_eq_mod]
    omega
  rw [doubled, byte, ← UInt8.toNat_inj, UInt8.toNat_mul, masked, UInt8.toNat_ofNat']
  change word.toNat % 16 * 17 % 256 = _
  omega

/-- The colour that is read from the values of the digits. -/
def ofDigits? : List Nat → Option Color
  | [r, g, b] => some ⟨byte r r, byte g g, byte b b⟩
  | [r₁, r₂, g₁, g₂, b₁, b₂] => some ⟨byte r₁ r₂, byte g₁ g₂, byte b₁ b₂⟩
  | _ => none

theorem ofDigits?_eq_none {values : List Nat} (notThree : values.length ≠ 3)
    (notSix : values.length ≠ 6) : ofDigits? values = none := by
  unfold ofDigits?
  split
  · exact absurd rfl notThree
  · exact absurd rfl notSix
  · rfl

theorem ofCode_join {r₁ r₂ g₁ g₂ b₁ b₂ : Nat} {code : UInt32}
    (digits : ∀ value ∈ [r₁, r₂, g₁, g₂, b₁, b₂], value < 16)
    (codeEq : code.toNat = Hex.join 0 [r₁, r₂, g₁, g₂, b₁, b₂]) :
    ofCode code = ⟨byte r₁ r₂, byte g₁ g₂, byte b₁ b₂⟩ := by
  simp only [List.forall_mem_cons] at digits
  simp only [Hex.join, List.foldl_cons, List.foldl_nil] at codeEq
  rw [ofCode_eq, mk.injEq]
  simp only [byte, ← UInt8.toNat_inj, UInt8.toNat_ofNat']
  refine ⟨?_, ?_, ?_⟩
  · omega
  · omega
  · omega

theorem doubled_join {r g b : Nat} {code : UInt32} (digits : ∀ value ∈ [r, g, b], value < 16)
    (codeEq : code.toNat = Hex.join 0 [r, g, b]) :
    doubled (code >>> 8) = byte r r ∧ doubled (code >>> 4) = byte g g ∧
      doubled code = byte b b := by
  simp only [List.forall_mem_cons] at digits
  simp only [Hex.join, List.foldl_cons, List.foldl_nil] at codeEq
  have eight : (code >>> 8).toNat = code.toNat / 256 := by
    rw [UInt32.toNat_shiftRight]
    exact Nat.shiftRight_eq_div_pow code.toNat 8
  have four : (code >>> 4).toNat = code.toNat / 16 := by
    rw [UInt32.toNat_shiftRight]
    exact Nat.shiftRight_eq_div_pow code.toNat 4
  have redEq : (code >>> 8).toNat % 16 = r := by omega
  have greenEq : (code >>> 4).toNat % 16 = g := by omega
  have blueEq : code.toNat % 16 = b := by omega
  rw [doubled_eq, doubled_eq, doubled_eq, redEq, greenEq, blueEq]
  exact ⟨rfl, rfl, rfl⟩

/-- Reading by way of a word gives the colour that the values of the digits make up. -/
theorem ofText?_eq (text : String) :
    ofText? text = ((dropHash text.toList).mapM Hex.digit?).bind ofDigits? := by
  unfold ofText?
  generalize dropHash text.toList = digits
  simp only
  cases read : digits.mapM Hex.digit? with
  | none =>
      rw [Hex.all_isSome_of_mapM_digit?_eq_none read]
      rfl
  | some values =>
      obtain ⟨allDigits, lengthEq, valuesLt⟩ := Hex.of_mapM_digit?_eq_some read
      rw [allDigits, if_pos rfl, Option.bind_some, lengthEq]
      by_cases fits : values.length = 3 ∨ values.length = 6
      · have nonempty : digits ≠ [] := by
          rw [← List.length_pos_iff]
          omega
        obtain ⟨code, wordEq, codeEq⟩ := Hex.word?_eq read nonempty (by omega)
        rw [wordEq]
        rcases fits with three | six
        · match values, three with
          | [r, g, b], _ =>
              obtain ⟨redEq, greenEq, blueEq⟩ := doubled_join valuesLt codeEq
              change some _ = some _
              rw [redEq, greenEq, blueEq]
        · match values, six with
          | [r₁, r₂, g₁, g₂, b₁, b₂], _ =>
              change some _ = some _
              rw [ofCode_join valuesLt codeEq]
      · -- Whether the digits spell a word does not matter.
        rw [not_or] at fits
        rw [ofDigits?_eq_none fits.1 fits.2]
        cases Hex.word? digits with
        | none => rfl
        | some code =>
            rw [Option.bind_eq_bind, Option.bind_some]
            split
            · rename_i six
              exact absurd six fits.2
            · rename_i three
              exact absurd three fits.1
            · rfl

end Color

end Highlight
