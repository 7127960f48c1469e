import Highlight.Proofs.Text.Boundary
import Mathlib.Data.List.TakeWhile

/-!
# Reading bytes back

The bytes of a text are read as the text.  A lead byte bounds the byte after it so that
overlong forms, surrogates and values past the last code point are refused; the bytes
of a character keep within these bounds and spell its code point.
-/

namespace Highlight.Utf8

theorem toNat_ofNat_of_lt {n : Nat} (lt : n < 256) : (UInt8.ofNat n).toNat = n := by
  rw [UInt8.toNat_ofNat', Nat.mod_eq_of_lt lt]

/-! ## Lead bytes -/

/-- What a lead byte announces, by its value. -/
theorem lead?_ofNat {n : Nat} (lt : n < 256) :
    lead? (UInt8.ofNat n) =
      if 0xC2 ≤ n ∧ n ≤ 0xDF then some ⟨1, 0x80, 0xBF⟩
      else if n = 0xE0 then some ⟨2, 0xA0, 0xBF⟩
      else if n = 0xED then some ⟨2, 0x80, 0x9F⟩
      else if 0xE1 ≤ n ∧ n ≤ 0xEF then some ⟨2, 0x80, 0xBF⟩
      else if n = 0xF0 then some ⟨3, 0x90, 0xBF⟩
      else if 0xF1 ≤ n ∧ n ≤ 0xF3 then some ⟨3, 0x80, 0xBF⟩
      else if n = 0xF4 then some ⟨3, 0x80, 0x8F⟩
      else none := by
  unfold lead?
  simp only [UInt8.le_iff_toNat_le, ← UInt8.toNat_inj, toNat_ofNat_of_lt lt]
  rfl

/-- A lead byte announces `tail` more bytes and admits the first of them. -/
def Announces (first tail second : Nat) : Prop :=
  ∃ lead, lead? (UInt8.ofNat first) = some lead ∧ lead.tail = tail ∧
    lead.low.toNat ≤ second ∧ second ≤ lead.high.toNat

/-- The lead byte of a character of two bytes. -/
theorem announces_two {code : Nat} (low : 0x80 ≤ code) (high : code ≤ 0x7FF) :
    Announces (code / 64 % 32 + 0xC0) 1 (code % 64 + 0x80) := by
  refine ⟨⟨1, 0x80, 0xBF⟩, ?_, rfl, ?_⟩
  · rw [lead?_ofNat (by omega), if_pos (by omega)]
  · change 0x80 ≤ _ ∧ _ ≤ 0xBF
    omega

/-- The lead byte of a character of three bytes. -/
theorem announces_three {code : Nat} (low : 0x800 ≤ code) (high : code ≤ 0xFFFF)
    (noSurrogate : code < 0xD800 ∨ 0xDFFF < code) :
    Announces (code / 4096 % 16 + 0xE0) 2 (code / 64 % 64 + 0x80) := by
  by_cases least : code / 4096 = 0
  · refine ⟨⟨2, 0xA0, 0xBF⟩, ?_, rfl, ?_⟩
    · rw [lead?_ofNat (by omega), if_neg (by omega), if_pos (by omega)]
    · change 0xA0 ≤ _ ∧ _ ≤ 0xBF
      omega
  · by_cases surrogates : code / 4096 = 13
    · refine ⟨⟨2, 0x80, 0x9F⟩, ?_, rfl, ?_⟩
      · rw [lead?_ofNat (by omega), if_neg (by omega), if_neg (by omega), if_pos (by omega)]
      · change 0x80 ≤ _ ∧ _ ≤ 0x9F
        omega
    · refine ⟨⟨2, 0x80, 0xBF⟩, ?_, rfl, ?_⟩
      · rw [lead?_ofNat (by omega), if_neg (by omega), if_neg (by omega), if_neg (by omega),
          if_pos (by omega)]
      · change 0x80 ≤ _ ∧ _ ≤ 0xBF
        omega

/-- The lead byte of a character of four bytes. -/
theorem announces_four {code : Nat} (low : 0x10000 ≤ code) (high : code < 0x110000) :
    Announces (code / 262144 % 8 + 0xF0) 3 (code / 4096 % 64 + 0x80) := by
  by_cases least : code / 262144 = 0
  · refine ⟨⟨3, 0x90, 0xBF⟩, ?_, rfl, ?_⟩
    · rw [lead?_ofNat (by omega), if_neg (by omega), if_neg (by omega), if_neg (by omega),
        if_neg (by omega), if_pos (by omega)]
    · change 0x90 ≤ _ ∧ _ ≤ 0xBF
      omega
  · by_cases greatest : code / 262144 = 4
    · refine ⟨⟨3, 0x80, 0x8F⟩, ?_, rfl, ?_⟩
      · rw [lead?_ofNat (by omega), if_neg (by omega), if_neg (by omega), if_neg (by omega),
          if_neg (by omega), if_neg (by omega), if_neg (by omega), if_pos (by omega)]
      · change 0x80 ≤ _ ∧ _ ≤ 0x8F
        omega
    · refine ⟨⟨3, 0x80, 0xBF⟩, ?_, rfl, ?_⟩
      · rw [lead?_ofNat (by omega), if_neg (by omega), if_neg (by omega), if_neg (by omega),
          if_neg (by omega), if_neg (by omega), if_pos (by omega)]
      · change 0x80 ≤ _ ∧ _ ≤ 0xBF
        omega

/-! ## One character -/

/-- Bytes that are as many as a lead byte announces are read as one character. -/
theorem readChar_of_announces {first second : Nat} {more : Bytes} (multi : 0x80 ≤ first)
    (byte : first < 256 ∧ second < 256) (announces : Announces first (more.length + 1) second)
    (continues : ∀ b ∈ more, Byte.isContinuation b = true) (rest : Bytes) :
    readChar (UInt8.ofNat first) (UInt8.ofNat second :: more ++ rest) =
      (some (Char.ofNat (codePoint (UInt8.ofNat first) (UInt8.ofNat second :: more))),
        1 + (more.length + 1)) := by
  rcases announces with ⟨lead, leadEq, tailEq, low, high⟩
  have notAscii : ¬ UInt8.ofNat first < 0x80 := by
    rw [UInt8.lt_iff_toNat_lt, toNat_ofNat_of_lt byte.1]
    exact Nat.not_lt.mpr multi
  have tailRead : continuation lead (UInt8.ofNat second :: more ++ rest) =
      UInt8.ofNat second :: more := by
    have within : lead.low ≤ UInt8.ofNat second ∧ UInt8.ofNat second ≤ lead.high := by
      rw [UInt8.le_iff_toNat_le, UInt8.le_iff_toNat_le, toNat_ofNat_of_lt byte.2]
      exact ⟨low, high⟩
    rw [List.cons_append, continuation, if_pos within, tailEq, Nat.add_sub_cancel, List.take_left,
      List.takeWhile_eq_self_iff.mpr continues]
  have enough : (UInt8.ofNat second :: more).length = lead.tail := tailEq.symm
  simp only [readChar, if_neg notAscii, leadEq, tailRead, if_pos enough]
  rfl

theorem codePoint_two {code : Nat} (high : code ≤ 0x7FF) :
    codePoint (UInt8.ofNat (code / 64 % 32 + 0xC0)) [UInt8.ofNat (code % 64 + 0x80)] = code := by
  have unit : Nat.pow 2 (6 - 1) = 32 := rfl
  simp only [codePoint, List.foldl_cons, List.foldl_nil, List.length_singleton, unit]
  rw [toNat_ofNat_of_lt (by omega), toNat_ofNat_of_lt (by omega)]
  omega

theorem codePoint_three {code : Nat} (high : code ≤ 0xFFFF) :
    codePoint (UInt8.ofNat (code / 4096 % 16 + 0xE0))
      [UInt8.ofNat (code / 64 % 64 + 0x80), UInt8.ofNat (code % 64 + 0x80)] = code := by
  have unit : Nat.pow 2 (6 - 2) = 16 := rfl
  simp only [codePoint, List.foldl_cons, List.foldl_nil, List.length_cons, List.length_nil,
    Nat.zero_add, Nat.reduceAdd, unit]
  rw [toNat_ofNat_of_lt (by omega), toNat_ofNat_of_lt (by omega), toNat_ofNat_of_lt (by omega)]
  omega

theorem codePoint_four {code : Nat} (high : code < 0x110000) :
    codePoint (UInt8.ofNat (code / 262144 % 8 + 0xF0))
      [UInt8.ofNat (code / 4096 % 64 + 0x80), UInt8.ofNat (code / 64 % 64 + 0x80),
        UInt8.ofNat (code % 64 + 0x80)] = code := by
  have unit : Nat.pow 2 (6 - 3) = 8 := rfl
  simp only [codePoint, List.foldl_cons, List.foldl_nil, List.length_cons, List.length_nil,
    Nat.zero_add, Nat.reduceAdd, unit]
  rw [toNat_ofNat_of_lt (by omega), toNat_ofNat_of_lt (by omega), toNat_ofNat_of_lt (by omega),
    toNat_ofNat_of_lt (by omega)]
  omega

/-- The bytes of a character are read as the character. -/
theorem readChar_utf8EncodeChar (char : Char) (rest : Bytes) :
    ∃ first tail, String.utf8EncodeChar char = first :: tail ∧
      readChar first (tail ++ rest) = (some char, 1 + tail.length) := by
  have low (n : Nat) := isContinuation_ofNat (n % 64) (Nat.mod_lt n (by decide))
  have valid : char.val.toNat < 0xD800 ∨ 0xDFFF < char.val.toNat ∧ char.val.toNat < 0x110000 :=
    char.valid
  have charEq : Char.ofNat char.val.toNat = char := Char.ofNat_toNat char
  simp only [String.utf8EncodeChar]
  split
  · have ascii : UInt8.ofNat char.val.toNat < 0x80 := by
      rw [UInt8.lt_iff_toNat_lt, toNat_ofNat_of_lt (by omega)]
      exact Nat.lt_succ_of_le (by assumption)
    refine ⟨_, _, rfl, ?_⟩
    rw [readChar, if_pos ascii, toNat_ofNat_of_lt (by omega), charEq]
    rfl
  split
  · have announces : Announces (char.val.toNat / 64 % 32 + 0xC0) 1 (char.val.toNat % 64 + 0x80) :=
      announces_two (by omega) (by omega)
    refine ⟨_, _, rfl, ?_⟩
    rw [readChar_of_announces (by omega) (by omega) announces (List.forall_mem_nil _),
      codePoint_two (by omega), charEq]
    rfl
  split
  · have announces : Announces (char.val.toNat / 4096 % 16 + 0xE0) 2
        (char.val.toNat / 64 % 64 + 0x80) :=
      announces_three (by omega) (by omega) (by omega)
    refine ⟨_, _, rfl, ?_⟩
    rw [readChar_of_announces (by omega) (by omega) announces
        (List.forall_mem_singleton.mpr (low _)),
      codePoint_three (by omega), charEq]
    rfl
  · have announces : Announces (char.val.toNat / 262144 % 8 + 0xF0) 3
        (char.val.toNat / 4096 % 64 + 0x80) :=
      announces_four (by omega) (by omega)
    refine ⟨_, _, rfl, ?_⟩
    rw [readChar_of_announces (by omega) (by omega) announces
        (List.forall_mem_cons.mpr ⟨low _, List.forall_mem_singleton.mpr (low _)⟩),
      codePoint_four (by omega), charEq]
    rfl

/-! ## Whole texts -/

theorem readChars_pending (tail rest : Bytes) :
    readChars tail.length (tail ++ rest) = readChars 0 rest := by
  induction tail with
  | nil => rfl
  | cons b tail ih => exact ih

theorem readChars_encode (chars : List Char) : readChars 0 (encode chars) = chars.map some := by
  induction chars with
  | nil => rfl
  | cons char chars ih =>
      rcases readChar_utf8EncodeChar char (encode chars) with ⟨first, tail, spellingEq, readEq⟩
      rw [encode_cons, spellingEq, List.cons_append, readChars, readEq, List.map_cons, ← ih,
        ← readChars_pending tail]
      simp

/-- The bytes of a text are read as the text. -/
theorem decode?_bytes (text : String) : decode? (bytes text) = some text := by
  have allRead : (text.toList.map some).mapM id = some (text.toList.map id) := by
    rw [List.mapM_map]
    exact List.mapM_pure
  rw [decode?, bytes, readChars_encode, allRead, List.map_id, Option.map_some,
    String.ofList_toList]

end Highlight.Utf8
