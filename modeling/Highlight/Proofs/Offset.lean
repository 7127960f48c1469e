import Highlight.Offset
import Highlight.Text.Byte

/-!
# When word arithmetic is exact

A sum of signed words that is a signed word itself is computed without wrapping
around.  The lengths of two texts differ by a signed word, as a text has no more
bytes than the largest one.
-/

namespace Highlight

namespace Offset

/-- The number is a signed word. -/
def Fits (value : Int) : Prop :=
  -(longest : Int) - 1 ≤ value ∧ value ≤ longest

instance (value : Int) : Decidable (Fits value) :=
  inferInstanceAs (Decidable (_ ∧ _))

theorem signed_of_fits {value : Int} (fits : Fits value) : signed value = value := by
  obtain ⟨lower, upper⟩ := fits
  unfold signed
  apply Int.bmod_eq_of_le_mul_two
  · simp only [longest, count] at *
    omega
  · simp only [longest, count] at *
    omega

theorem fits_signed (value : Int) : Fits (signed value) := by
  have positive : 0 < count := by decide
  have lower := Int.le_bmod (x := value) positive
  have upper := Int.bmod_lt (x := value) positive
  simp only [Fits, signed, longest, count] at *
  constructor <;> omega

/-- Casting the two numbers of a difference does not change its last bits. -/
theorem signed_sub_signed (left right : Int) :
    signed (signed left - signed right) = signed (left - right) := by
  simp only [signed, Int.sub_bmod_bmod, Int.bmod_sub_bmod]

theorem fits_of_le_longest {length : Nat} (lengthLe : length ≤ longest) : Fits length := by
  simp only [Fits, longest] at *
  constructor <;> omega

theorem signed_zero : signed 0 = 0 :=
  signed_of_fits (fits_of_le_longest (Nat.zero_le _))

/-- A sum that is no signed word because it is too large wraps around to a
negative one. -/
theorem signed_neg {value : Int} (above : longest < value) (below : value ≤ largest) :
    signed value < 0 := by
  have wrapped : signed value = value - count := by
    rw [signed, ← Int.sub_bmod_right, ← signed]
    apply signed_of_fits
    simp only [Fits, longest, largest, count] at *
    constructor <;> omega
  rw [wrapped]
  simp only [largest, count] at *
  omega

/-- Compared as words, two lengths differ by a signed word if they do as
numbers. -/
theorem signed_add_eq_iff {old new : Nat} {change : Int} (oldLe : old ≤ longest)
    (newLe : new ≤ longest) (fits : Fits change) :
    signed (signed old + change) = signed new ↔ (old : Int) + change = new := by
  rw [signed_of_fits (fits_of_le_longest oldLe), signed_of_fits (fits_of_le_longest newLe)]
  constructor
  · intro sumEq
    by_cases sumFits : Fits ((old : Int) + change)
    · rwa [signed_of_fits sumFits] at sumEq
    · simp only [Fits, longest] at *
      have negative : signed (old + change) < 0 := by
        apply signed_neg
        · simp only [longest]
          omega
        · simp only [largest]
          omega
      omega
  · intro sumEq
    rw [sumEq]
    exact signed_of_fits (fits_of_le_longest newLe)

/-- An offset moves to the exact sum or further, unless it stops at the largest
word. -/
theorem saturatingAdd_cases (offset : Nat) (change : Int) :
    saturatingAdd offset change = largest ∨
      (offset : Int) + change ≤ saturatingAdd offset change := by
  unfold saturatingAdd
  rcases Nat.le_total largest ((offset : Int) + change).toNat with beyond | within
  · exact Or.inl (Nat.min_eq_left beyond)
  · right
    rw [Nat.min_eq_right within]
    exact Int.self_le_toNat _

/-- An offset that stays among the words moves to the exact sum. -/
theorem saturatingAdd_of_nonneg {offset : Nat} {change : Int}
    (nonneg : 0 ≤ (offset : Int) + change) (within : (offset : Int) + change ≤ largest) :
    (saturatingAdd offset change : Int) = offset + change := by
  have sumLe : ((offset : Int) + change).toNat ≤ largest := Int.toNat_le.mpr within
  rw [saturatingAdd, Nat.min_eq_right sumLe]
  exact Int.toNat_of_nonneg nonneg

end Offset

namespace Bytes

/-- The text has an offset for each of its bytes, and a signed word for its
length.  There are no longer texts in memory. -/
def Addressable (text : Bytes) : Prop :=
  text.length ≤ Offset.longest

instance (text : Bytes) : Decidable (Addressable text) :=
  inferInstanceAs (Decidable (_ ≤ _))

/-- The lengths of the two texts can be compared as words: both are addressable,
unless there is nothing to compare. -/
def Comparable (old new : Bytes) : Prop :=
  old = new ∨ Addressable old ∧ Addressable new

theorem Comparable.trans {old middle new : Bytes} (first : Comparable old middle)
    (second : Comparable middle new) : Comparable old new := by
  rcases first with rfl | ⟨oldAddressable, _⟩
  · exact second
  · rcases second with rfl | ⟨_, newAddressable⟩
    · right
      constructor <;> assumption
    · exact Or.inr ⟨oldAddressable, newAddressable⟩

theorem Comparable.fits {old new : Bytes} (comparable : Comparable old new) :
    Offset.Fits ((new.length : Int) - old.length) := by
  rcases comparable with rfl | ⟨oldAddressable, newAddressable⟩
  · rw [Int.sub_self]
    exact Offset.fits_of_le_longest (Nat.zero_le _)
  · simp only [Addressable, Offset.Fits, Offset.longest] at *
    constructor <;> omega

end Bytes

end Highlight
