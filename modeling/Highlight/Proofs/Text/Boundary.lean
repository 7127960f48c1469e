import Highlight.Lexer.Punctuation
import Highlight.Text.Slice

/-!
# Character boundaries

An offset into the bytes of a text is a boundary if it falls between two
characters.  UTF-8 tells from the bytes alone where that is: a boundary is where
no continuation byte stands.  So an ASCII byte has a boundary on both sides, and
what is itself the spelling of some characters starts and ends at boundaries
wherever it occurs.
-/

namespace Highlight

namespace Utf8

open Highlight.Lexeme

@[simp]
theorem encode_nil : encode [] = [] :=
  rfl

@[simp]
theorem encode_cons (char : Char) (chars : List Char) :
    encode (char :: chars) = String.utf8EncodeChar char ++ encode chars :=
  rfl

@[simp]
theorem encode_append (left right : List Char) :
    encode (left ++ right) = encode left ++ encode right :=
  List.flatMap_append

/-! ## The bytes of one character -/

theorem isContinuation_ofNat :
    ∀ n < 64, Byte.isContinuation (UInt8.ofNat (n + 0x80)) = true := by
  decide

theorem leads_ofNat_one : ∀ n < 128, Byte.isContinuation (UInt8.ofNat n) = false ∧
    0 = expectedContinuation (UInt8.ofNat n) := by
  decide

theorem leads_ofNat_two : ∀ n < 32, Byte.isContinuation (UInt8.ofNat (n + 0xC0)) = false ∧
    1 = expectedContinuation (UInt8.ofNat (n + 0xC0)) := by
  decide

theorem leads_ofNat_three : ∀ n < 16, Byte.isContinuation (UInt8.ofNat (n + 0xE0)) = false ∧
    2 = expectedContinuation (UInt8.ofNat (n + 0xE0)) := by
  decide

theorem leads_ofNat_four : ∀ n < 8, Byte.isContinuation (UInt8.ofNat (n + 0xF0)) = false ∧
    3 = expectedContinuation (UInt8.ofNat (n + 0xF0)) := by
  decide

/-- A character is a first byte that calls for some continuation bytes, and
these. -/
theorem utf8EncodeChar_eq_cons (char : Char) :
    ∃ first tail, String.utf8EncodeChar char = first :: tail ∧
      (Byte.isContinuation first = false ∧ tail.length = expectedContinuation first) ∧
      ∀ b ∈ tail, Byte.isContinuation b = true := by
  have low (n : Nat) := isContinuation_ofNat (n % 64) (Nat.mod_lt n (by decide))
  simp only [String.utf8EncodeChar]
  split
  · rename_i one
    exact ⟨_, _, rfl, leads_ofNat_one _ (Nat.lt_succ_of_le one), List.forall_mem_nil _⟩
  · split
    · exact ⟨_, _, rfl, leads_ofNat_two _ (Nat.mod_lt _ (by decide)),
        List.forall_mem_singleton.mpr (low _)⟩
    · split
      · exact ⟨_, _, rfl, leads_ofNat_three _ (Nat.mod_lt _ (by decide)),
          List.forall_mem_cons.mpr ⟨low _, List.forall_mem_singleton.mpr (low _)⟩⟩
      · exact ⟨_, _, rfl, leads_ofNat_four _ (Nat.mod_lt _ (by decide)),
          List.forall_mem_cons.mpr ⟨low _,
            List.forall_mem_cons.mpr ⟨low _, List.forall_mem_singleton.mpr (low _)⟩⟩⟩

/-- An ASCII byte neither continues a character nor is continued. -/
theorem leads_of_ascii {b : UInt8} (ascii : b < 0x80) :
    Byte.isContinuation b = false ∧ expectedContinuation b = 0 := by
  have lt : b.toNat < 128 := UInt8.lt_iff_toNat_lt.mp ascii
  obtain ⟨notContinuation, noTail⟩ := leads_ofNat_one b.toNat lt
  rw [UInt8.ofNat_toNat] at notContinuation noTail
  exact ⟨notContinuation, noTail.symm⟩

end Utf8

namespace Text

open Highlight.Utf8

/-! ## Boundaries -/

/-- The offset falls between two characters, or at an end of the text. -/
def Boundary (chars : List Char) (offset : Nat) : Prop :=
  ∃ left right, chars = left ++ right ∧ (encode left).length = offset

variable {chars : List Char} {offset : Nat}

theorem boundary_zero (chars : List Char) : Boundary chars 0 :=
  ⟨[], chars, rfl, rfl⟩

theorem boundary_length (chars : List Char) : Boundary chars (encode chars).length :=
  ⟨chars, [], (List.append_nil chars).symm, rfl⟩

theorem Boundary.le_length (boundary : Boundary chars offset) :
    offset ≤ (encode chars).length := by
  obtain ⟨left, right, rfl, rfl⟩ := boundary
  rw [encode_append, List.length_append]
  exact Nat.le_add_right _ _

/-- Boundaries of the rest of a text are boundaries of the text. -/
theorem Boundary.append (left : List Char) (boundary : Boundary chars offset) :
    Boundary (left ++ chars) ((encode left).length + offset) := by
  obtain ⟨middle, right, rfl, rfl⟩ := boundary
  refine ⟨left ++ middle, right, (List.append_assoc _ _ _).symm, ?_⟩
  rw [encode_append, List.length_append]

theorem Boundary.cons (char : Char) (boundary : Boundary chars offset) :
    Boundary (char :: chars) ((String.utf8EncodeChar char).length + offset) := by
  have appended := boundary.append [char]
  rwa [encode_cons, encode_nil, List.append_nil] at appended

/-- A byte that does not continue a character has a boundary in front of it. -/
theorem boundary_of_not_isContinuation {b : UInt8} (found : (encode chars)[offset]? = some b)
    (starts : Byte.isContinuation b = false) : Boundary chars offset := by
  induction chars generalizing offset with
  | nil => simp at found
  | cons char chars ih =>
      obtain ⟨first, tail, spellingEq, _, continues⟩ := utf8EncodeChar_eq_cons char
      rw [encode_cons] at found
      by_cases inside : offset < (String.utf8EncodeChar char).length
      · rw [List.getElem?_append_left inside, spellingEq] at found
        cases offset with
        | zero => exact boundary_zero _
        | succ offset =>
            rw [List.getElem?_cons_succ] at found
            rw [continues b (List.mem_of_getElem? found)] at starts
            cases starts
      · obtain ⟨distance, rfl⟩ := Nat.exists_eq_add_of_le (Nat.le_of_not_lt inside)
        rw [List.getElem?_append_right (Nat.le_add_right _ _), Nat.add_sub_cancel_left] at found
        exact (ih found).cons char

/-- An ASCII byte has a boundary behind it. -/
theorem boundary_succ_of_ascii {b : UInt8} (found : (encode chars)[offset]? = some b)
    (ascii : b < 0x80) : Boundary chars (offset + 1) := by
  obtain ⟨notContinuation, noTail⟩ := leads_of_ascii ascii
  obtain ⟨left, right, rfl, rfl⟩ := boundary_of_not_isContinuation found notContinuation
  rw [encode_append, List.getElem?_append_right (Nat.le_refl _), Nat.sub_self] at found
  refine Boundary.append left ?_
  cases right with
  | nil => simp at found
  | cons char right =>
      obtain ⟨first, tail, spellingEq, ⟨_, tailLength⟩, _⟩ := utf8EncodeChar_eq_cons char
      rw [encode_cons, spellingEq] at found
      have firstEq : first = b := by simpa using found
      have singleByte : (String.utf8EncodeChar char).length = 1 := by
        rw [spellingEq, List.length_cons, tailLength, firstEq, noTail]
      have boundary := (boundary_zero right).cons char
      rwa [singleByte] at boundary

/-- Characters that are spelled at the front end at a boundary. -/
theorem boundary_of_spelled {front : List Char} (spelled : encode front <+: encode chars) :
    Boundary chars (encode front).length := by
  induction front generalizing chars with
  | nil => exact boundary_zero chars
  | cons char front ih =>
      obtain ⟨first, tail, spellingEq, ⟨_, tailLength⟩, _⟩ := utf8EncodeChar_eq_cons char
      cases chars with
      | nil => simp [spellingEq] at spelled
      | cons other chars =>
          obtain ⟨otherFirst, otherTail, otherEq, ⟨_, otherLength⟩, _⟩ :=
            utf8EncodeChar_eq_cons other
          -- The first bytes are the same, so both characters have the same length.
          have firstEq : first = otherFirst := by
            rw [encode_cons, encode_cons, spellingEq, otherEq] at spelled
            exact (List.cons_prefix_cons.mp spelled).1
          have lengthEq : (String.utf8EncodeChar char).length =
              (String.utf8EncodeChar other).length := by
            rw [spellingEq, otherEq, List.length_cons, List.length_cons, tailLength, otherLength,
              firstEq]
          have restSpelled : encode front <+: encode chars := by
            obtain ⟨rest, restEq⟩ := spelled
            rw [encode_cons, encode_cons, List.append_assoc] at restEq
            exact ⟨rest, (List.append_inj restEq lengthEq).2⟩
          rw [encode_cons, List.length_append, lengthEq]
          exact (ih restSpelled).cons other

/-- Characters without bytes are none. -/
theorem eq_nil_of_length_encode {chars : List Char} (lengthEq : (encode chars).length = 0) :
    chars = [] := by
  cases chars with
  | nil => rfl
  | cons char chars =>
      obtain ⟨first, tail, spellingEq, _⟩ := utf8EncodeChar_eq_cons char
      rw [encode_cons, spellingEq] at lengthEq
      cases lengthEq

/-- A boundary further on splits the rest of the text. -/
theorem exists_append_of_boundary {left right : List Char} {stop : Nat}
    (boundary : Boundary (left ++ right) stop) (after : (encode left).length ≤ stop) :
    ∃ middle rest, right = middle ++ rest ∧
      (encode left).length + (encode middle).length = stop := by
  obtain ⟨front, back, appendEq, rfl⟩ := boundary
  rcases List.append_eq_append_iff.mp appendEq with
    ⟨middle, rfl, rightEq⟩ | ⟨middle, rfl, _⟩
  · refine ⟨middle, back, rightEq, ?_⟩
    rw [encode_append, List.length_append]
  · rw [encode_append, List.length_append] at after
    have middleEq : middle = [] := eq_nil_of_length_encode (by omega)
    refine ⟨[], right, rfl, ?_⟩
    rw [middleEq, List.append_nil]
    rfl

/-! ## Slices -/

/-- A text is split at a boundary into the characters on both sides. -/
theorem splitAtByte?_eq_some_of_append (left right : List Char) :
    splitAtByte? (left ++ right) (encode left).length = some (left, right) := by
  induction left with
  | nil => cases right <;> rfl
  | cons char left ih =>
      obtain ⟨first, tail, spellingEq, _⟩ := utf8EncodeChar_eq_cons char
      have sizeEq := String.length_utf8EncodeChar char
      have sizePos : 0 < char.utf8Size := by
        rw [← sizeEq, spellingEq]
        exact Nat.zero_lt_succ _
      rw [encode_cons, List.length_append, sizeEq, List.cons_append]
      obtain ⟨offset, offsetEq⟩ : ∃ offset, char.utf8Size + (encode left).length = offset + 1 :=
        Nat.exists_eq_add_one.mpr (Nat.add_pos_left sizePos _)
      rw [offsetEq, splitAtByte?, ← offsetEq, if_pos (Nat.le_add_right _ _),
        Nat.add_sub_cancel_left, ih]
      rfl

theorem isSome_splitAtByte?_iff : (splitAtByte? chars offset).isSome = true ↔
    Boundary chars offset := by
  constructor
  · intro isSome
    fun_induction splitAtByte? chars offset with
    | case1 chars => exact boundary_zero chars
    | case2 offset => simp at isSome
    | case3 char rest offset sizeLe ih =>
        rw [Option.isSome_map] at isSome
        have boundary := (ih isSome).cons char
        rwa [String.length_utf8EncodeChar, Nat.add_sub_cancel' sizeLe] at boundary
    | case4 char rest offset sizeGt => simp at isSome
  · rintro ⟨left, right, rfl, rfl⟩
    rw [splitAtByte?_eq_some_of_append]
    rfl

/-- The characters between two boundaries. -/
theorem slice?_of_append (left middle right : List Char) :
    slice? (left ++ (middle ++ right)) (encode left).length
      ((encode left).length + (encode middle).length) = some middle := by
  rw [slice?, if_neg (Nat.not_lt.mpr (Nat.le_add_right _ _)), splitAtByte?_eq_some_of_append,
    Option.bind_some, Nat.add_sub_cancel_left]
  change (splitAtByte? (middle ++ right) (encode middle).length).map Prod.fst = some middle
  rw [splitAtByte?_eq_some_of_append]
  rfl

/-- A slice is what lies between two boundaries in order. -/
theorem isSome_slice?_iff {start stop : Nat} : (slice? chars start stop).isSome = true ↔
    start ≤ stop ∧ Boundary chars start ∧ Boundary chars stop := by
  constructor
  · intro isSome
    obtain ⟨slice, sliced⟩ := Option.isSome_iff_exists.mp isSome
    rw [slice?, Option.ite_none_left_eq_some, Option.bind_eq_some_iff] at sliced
    obtain ⟨ordered, ⟨front, back⟩, split, restSliced⟩ := sliced
    have startBoundary := isSome_splitAtByte?_iff.mp (Option.isSome_of_eq_some split)
    obtain ⟨left, right, rfl, rfl⟩ := startBoundary
    rw [splitAtByte?_eq_some_of_append, Option.some.injEq, Prod.mk.injEq] at split
    obtain ⟨rfl, rfl⟩ := split
    have isSomeRest : (splitAtByte? right (stop - (encode left).length)).isSome = true := by
      rw [← Option.isSome_map]
      exact Option.isSome_of_eq_some restSliced
    have stopBoundary := (isSome_splitAtByte?_iff.mp isSomeRest).append left
    rw [Nat.add_sub_cancel' (Nat.le_of_not_lt ordered)] at stopBoundary
    exact ⟨Nat.le_of_not_lt ordered, ⟨left, right, rfl, rfl⟩, stopBoundary⟩
  · rintro ⟨ordered, ⟨left, right, rfl, rfl⟩, stopBoundary⟩
    obtain ⟨middle, rest, rfl, rfl⟩ := exists_append_of_boundary stopBoundary ordered
    rw [slice?_of_append]
    rfl

end Text

end Highlight
