import Highlight.Proofs.Theme

/-!
# The text of a colour

A text is read as a colour exactly if it is three or six hexadecimal digits with at most
one `#` in front of them.  `Color.Spells` says which colour the digits spell, by the
place of each digit among the sixteen and without regard to the reader.  The reader
takes nothing else for a colour, and names the text it refuses.
-/

namespace Highlight

namespace Hex

/-! ## Digits -/

/-- The sixteen digits in small letters, in the order of their values. -/
def digits : List Char :=
  "0123456789abcdef".toList

/-- A digit in either case. -/
def IsDigit (char : Char) : Prop :=
  char.toLower ∈ digits

instance (char : Char) : Decidable (IsDigit char) :=
  inferInstanceAs (Decidable (_ ∈ _))

/-- The place of a digit among the sixteen. -/
def value (char : Char) : Nat :=
  digits.idxOf char.toLower

theorem value_lt {char : Char} (digit : IsDigit char) : value char < 16 :=
  List.idxOf_lt_length_iff.mpr digit

theorem isDigit_of_map_toLower {chars others : List Char}
    (same : chars.map Char.toLower = others.map Char.toLower)
    (digits : ∀ char ∈ chars, IsDigit char) : ∀ char ∈ others, IsDigit char := by
  intro char member
  have lowerMember : char.toLower ∈ chars.map Char.toLower := same ▸ List.mem_map_of_mem member
  rcases List.mem_map.mp lowerMember with ⟨other, otherMember, lowerEq⟩
  rw [IsDigit, ← lowerEq]
  exact digits other otherMember

theorem value_of_toLower_eq {char other : Char} (same : char.toLower = other.toLower) :
    value char = value other := by
  rw [value, value, same]

theorem not_isDigit_hash : ¬ IsDigit '#' := by
  decide

theorem digit?_ascii : ∀ code < 128,
    digit? (Char.ofNat code) =
      if IsDigit (Char.ofNat code) then some (value (Char.ofNat code)) else none := by
  decide +kernel

/-- Digits are ASCII characters. -/
theorem lt_of_isDigit {char : Char} (digit : IsDigit char) : char.toNat < 128 := by
  have ascii : digits.all (·.toNat < 128) = true := by decide
  have small := of_decide_eq_true (List.all_eq_true.mp ascii _ digit)
  unfold Char.toLower at small
  split at small
  · rename_i capital
    have le : char.toNat ≤ 90 := capital.2
    omega
  · exact small

theorem lt_of_digit? {char : Char} {found : Nat} (read : digit? char = some found) :
    char.toNat < 128 := by
  have bound {last : Char} (ascii : last.toNat < 128) (le : char ≤ last) : char.toNat < 128 :=
    Nat.lt_of_le_of_lt le ascii
  unfold digit? at read
  split at read
  · rename_i decimal
    exact bound (by decide) decimal.2
  split at read
  · rename_i letter
    exact bound (by decide) letter.2
  split at read
  · rename_i capital
    exact bound (by decide) capital.2
  · cases read

/-- The reader takes exactly the digits, each for its value. -/
theorem digit?_eq_some_iff {char : Char} {found : Nat} :
    digit? char = some found ↔ IsDigit char ∧ found = value char := by
  by_cases ascii : char.toNat < 128
  · have digitEq := digit?_ascii char.toNat ascii
    rw [Char.ofNat_toNat] at digitEq
    rw [digitEq, Option.ite_none_right_eq_some, Option.some_inj]
    exact and_congr_right fun _ => eq_comm
  · constructor
    · intro read
      exact absurd (lt_of_digit? read) ascii
    · rintro ⟨digit, _⟩
      exact absurd (lt_of_isDigit digit) ascii

theorem mapM_digit?_eq_some_iff {chars : List Char} {values : List Nat} :
    chars.mapM digit? = some values ↔
      (∀ char ∈ chars, IsDigit char) ∧ values = chars.map value := by
  induction chars generalizing values with
  | nil => simp [eq_comm]
  | cons char chars ih =>
      rw [List.mapM_cons, Option.bind_eq_bind, Option.bind_eq_some_iff, List.forall_mem_cons,
        List.map_cons]
      constructor
      · rintro ⟨first, firstEq, restEq⟩
        rcases Option.bind_eq_some_iff.mp restEq with ⟨others, othersEq, valuesEq⟩
        rcases digit?_eq_some_iff.mp firstEq with ⟨digit, rfl⟩
        rcases ih.mp othersEq with ⟨digits, rfl⟩
        cases valuesEq
        exact ⟨⟨digit, digits⟩, rfl⟩
      · rintro ⟨⟨digit, digits⟩, rfl⟩
        refine ⟨value char, digit?_eq_some_iff.mpr ⟨digit, rfl⟩, ?_⟩
        rw [Option.bind_eq_bind, ih.mpr ⟨digits, rfl⟩]
        rfl

/-- A number is spelled by its digits, each of which counts sixteen times what follows
it. -/
theorem number?_eq_some {chars : List Char} {number : Nat} (read : number? chars = some number) :
    (∀ char ∈ chars, IsDigit char) ∧
      number = chars.foldl (fun front char => front * 16 + value char) 0 := by
  have step : ∀ (rest : List Char) (front : Nat),
      rest.foldlM (fun front char => (digit? char).map (front * 16 + ·)) front = some number →
        (∀ char ∈ rest, IsDigit char) ∧
          number = rest.foldl (fun front char => front * 16 + value char) front := by
    intro rest
    induction rest with
    | nil =>
        intro front readEq
        cases readEq
        exact ⟨List.forall_mem_nil _, rfl⟩
    | cons char rest ih =>
        intro front readEq
        rw [List.foldlM_cons, Option.bind_eq_bind, Option.bind_eq_some_iff] at readEq
        rcases readEq with ⟨next, nextEq, restEq⟩
        rcases Option.map_eq_some_iff.mp nextEq with ⟨found, foundEq, rfl⟩
        rcases digit?_eq_some_iff.mp foundEq with ⟨digit, rfl⟩
        rcases ih _ restEq with ⟨digits, numberEq⟩
        exact ⟨List.forall_mem_cons.mpr ⟨digit, digits⟩, numberEq⟩
  exact step chars 0 read

end Hex

namespace Color

open Hex

/-! ## What a text spells -/

/-- The text is these characters with at most one `#` in front of them. -/
def Written (text : String) (chars : List Char) : Prop :=
  chars.head? ≠ some '#' ∧ (text.toList = chars ∨ text.toList = '#' :: chars)

/-- The digits spell the colour: two for each of its bytes, or one that stands for two. -/
inductive Spells : List Char → Color → Prop where
  | six {r₁ r₂ g₁ g₂ b₁ b₂ : Char} {color : Color}
      (digits : ∀ char ∈ [r₁, r₂, g₁, g₂, b₁, b₂], IsDigit char)
      (red : color.red.toNat = 16 * value r₁ + value r₂)
      (green : color.green.toNat = 16 * value g₁ + value g₂)
      (blue : color.blue.toNat = 16 * value b₁ + value b₂) :
      Spells [r₁, r₂, g₁, g₂, b₁, b₂] color
  | three {r g b : Char} {color : Color} (doubled : Spells [r, r, g, g, b, b] color) :
      Spells [r, g, b] color

theorem Written.dropHash_eq {text : String} {chars : List Char} (written : Written text chars) :
    dropHash text.toList = chars := by
  rcases written with ⟨bare, textEq | textEq⟩
  · rw [textEq]
    cases chars with
    | nil => rfl
    | cons first rest =>
        apply if_neg
        rintro rfl
        exact bare rfl
  · rw [textEq]
    rfl

theorem written_of_dropHash {text : String} (bare : (dropHash text.toList).head? ≠ some '#') :
    Written text (dropHash text.toList) := by
  refine ⟨bare, ?_⟩
  cases text.toList with
  | nil => exact Or.inl rfl
  | cons first rest =>
      by_cases hash : first = '#'
      · rw [dropHash, if_pos hash, hash]
        exact Or.inr rfl
      · rw [dropHash, if_neg hash]
        exact Or.inl rfl

theorem head?_ne_hash {chars : List Char} (digits : ∀ char ∈ chars, IsDigit char) :
    chars.head? ≠ some '#' := by
  intro headEq
  exact not_isDigit_hash (digits '#' (List.mem_of_head? headEq))

theorem toNat_byte {high low : Char} (highDigit : IsDigit high) (lowDigit : IsDigit low) :
    (byte (value high) (value low)).toNat = 16 * value high + value low := by
  have highLt := value_lt highDigit
  have lowLt := value_lt lowDigit
  rw [byte, UInt8.toNat_ofNat']
  omega

theorem eq_byte {channel : UInt8} {high low : Char}
    (channelEq : channel.toNat = 16 * value high + value low) :
    channel = byte (value high) (value low) := by
  rw [byte, Nat.mul_comm, ← channelEq, UInt8.ofNat_toNat]

/-- Six digits spell one colour. -/
theorem spells_six_iff {r₁ r₂ g₁ g₂ b₁ b₂ : Char} {color : Color}
    (digits : ∀ char ∈ [r₁, r₂, g₁, g₂, b₁, b₂], IsDigit char) :
    Spells [r₁, r₂, g₁, g₂, b₁, b₂] color ↔
      color = ⟨byte (value r₁) (value r₂), byte (value g₁) (value g₂),
        byte (value b₁) (value b₂)⟩ := by
  constructor
  · intro spells
    cases spells with
    | six _ red green blue =>
        rw [← eq_byte red, ← eq_byte green, ← eq_byte blue]
  · rintro rfl
    have each := digits
    simp only [List.forall_mem_cons] at each
    rcases each with ⟨r₁Digit, r₂Digit, g₁Digit, g₂Digit, b₁Digit, b₂Digit, _⟩
    constructor
    · exact digits
    · exact toNat_byte r₁Digit r₂Digit
    · exact toNat_byte g₁Digit g₂Digit
    · exact toNat_byte b₁Digit b₂Digit

/-- Three digits spell what the same digits spell twice each. -/
theorem spells_three_iff {r g b : Char} {color : Color} :
    Spells [r, g, b] color ↔ Spells [r, r, g, g, b, b] color := by
  constructor
  · rintro (_ | doubled)
    exact doubled
  · exact Spells.three

theorem isDigit_doubled {r g b : Char} :
    (∀ char ∈ [r, r, g, g, b, b], IsDigit char) ↔ ∀ char ∈ [r, g, b], IsDigit char := by
  simp

/-- Whatever has the right length and holds nothing but digits spells a colour. -/
theorem exists_spells_iff {chars : List Char} :
    (∃ color, Spells chars color) ↔
      (chars.length = 3 ∨ chars.length = 6) ∧ ∀ char ∈ chars, IsDigit char := by
  constructor
  · rintro ⟨color, spells⟩
    induction spells with
    | six digits => exact ⟨Or.inr rfl, digits⟩
    | three _ ih => exact ⟨Or.inl rfl, isDigit_doubled.mp ih.2⟩
  · rintro ⟨lengthEq, digits⟩
    rcases lengthEq with lengthEq | lengthEq
    · match chars, lengthEq with
      | [r, g, b], _ =>
          have six := (spells_six_iff (isDigit_doubled.mpr digits)).mpr rfl
          exact ⟨_, spells_three_iff.mpr six⟩
    · match chars, lengthEq with
      | [r₁, r₂, g₁, g₂, b₁, b₂], _ => exact ⟨_, (spells_six_iff digits).mpr rfl⟩

theorem Spells.isDigit {chars : List Char} {color : Color} (spells : Spells chars color) :
    ∀ char ∈ chars, IsDigit char :=
  (exists_spells_iff.mp ⟨color, spells⟩).2

/-- The case of the digits does not matter. -/
theorem Spells.of_toLower {chars others : List Char} {color : Color}
    (spells : Spells chars color) (same : chars.map Char.toLower = others.map Char.toLower) :
    Spells others color := by
  have lengthEq : others.length = chars.length := by
    rw [← List.length_map Char.toLower, ← same, List.length_map]
  induction spells generalizing others with
  | six digits red green blue =>
      have otherDigits := isDigit_of_map_toLower same digits
      match others, lengthEq with
      | [_, _, _, _, _, _], _ =>
          simp only [List.map_cons, List.cons.injEq] at same
          rcases same with ⟨r₁Same, r₂Same, g₁Same, g₂Same, b₁Same, b₂Same, _⟩
          constructor
          · exact otherDigits
          · rw [red, value_of_toLower_eq r₁Same, value_of_toLower_eq r₂Same]
          · rw [green, value_of_toLower_eq g₁Same, value_of_toLower_eq g₂Same]
          · rw [blue, value_of_toLower_eq b₁Same, value_of_toLower_eq b₂Same]
  | three _ ih =>
      match others, lengthEq with
      | [_, _, _], _ =>
          simp only [List.map_cons, List.cons.injEq] at same
          rcases same with ⟨rSame, gSame, bSame, _⟩
          apply Spells.three
          apply ih
          · simp [rSame, gSame, bSame]
          · rfl

/-! ## Reading -/

theorem ofText?_of_spells {text : String} {chars : List Char} {color : Color}
    (written : Written text chars) (spells : Spells chars color) : ofText? text = some color := by
  rw [ofText?_eq, written.dropHash_eq, mapM_digit?_eq_some_iff.mpr ⟨spells.isDigit, rfl⟩]
  cases spells with
  | six digits red green blue =>
      rw [(spells_six_iff digits).mp (.six digits red green blue)]
      rfl
  | three doubled =>
      rw [(spells_six_iff doubled.isDigit).mp doubled]
      rfl

/-- Whatever is read spells something. -/
theorem exists_spells_of_ofText? {text : String} {color : Color}
    (read : ofText? text = some color) : ∃ other, Spells (dropHash text.toList) other := by
  have digits {values : List Nat}
      (valuesEq : (dropHash text.toList).mapM digit? = some values) :
      (dropHash text.toList).length = values.length ∧
        ∀ char ∈ dropHash text.toList, IsDigit char := by
    rcases mapM_digit?_eq_some_iff.mp valuesEq with ⟨digits, rfl⟩
    exact ⟨(List.length_map _).symm, digits⟩
  apply exists_spells_iff.mpr
  rw [ofText?_eq] at read
  obtain ⟨values, valuesEq, colorEq⟩ := Option.bind_eq_some_iff.mp read
  obtain ⟨lengthEq, allDigits⟩ := digits valuesEq
  refine ⟨?_, allDigits⟩
  rw [lengthEq]
  by_contra other
  rw [not_or] at other
  rw [ofDigits?_eq_none other.1 other.2] at colorEq
  cases colorEq

/-- The reader finds what the characters behind the `#` spell. -/
theorem ofText?_eq_some_iff {text : String} {chars : List Char} {color : Color}
    (written : Written text chars) : ofText? text = some color ↔ Spells chars color := by
  constructor
  · intro read
    rcases exists_spells_of_ofText? read with ⟨other, spells⟩
    rw [written.dropHash_eq] at spells
    have found := ofText?_of_spells written spells
    rw [read] at found
    cases found
    exact spells
  · exact ofText?_of_spells written

theorem ofText_eq_ok_iff {text : String} {color : Color} :
    ofText text = .ok color ↔ ofText? text = some color := by
  unfold ofText
  cases ofText? text with
  | none => simp
  | some found => simp

/-- A text is accepted exactly if it is digits in the right number with at most one `#` in
front of them. -/
theorem exists_ofText?_iff {text : String} :
    (∃ color, ofText? text = some color) ↔
      ∃ chars, Written text chars ∧ (chars.length = 3 ∨ chars.length = 6) ∧
        ∀ char ∈ chars, IsDigit char := by
  constructor
  · rintro ⟨color, read⟩
    have accepted := exists_spells_iff.mp (exists_spells_of_ofText? read)
    exact ⟨_, written_of_dropHash (head?_ne_hash accepted.2), accepted⟩
  · rintro ⟨chars, written, accepted⟩
    rcases exists_spells_iff.mpr accepted with ⟨color, spells⟩
    exact ⟨color, ofText?_of_spells written spells⟩

/-- The number that six digits spell is the code of the colour that they spell. -/
theorem spells_ofNat {chars : List Char} {number : Nat} (six : chars.length = 6)
    (read : number? chars = some number) : Spells chars (ofNat number) := by
  rcases number?_eq_some read with ⟨digits, rfl⟩
  match chars, six with
  | [r₁, r₂, g₁, g₂, b₁, b₂], _ =>
      have each := digits
      simp only [List.forall_mem_cons] at each
      rcases each with ⟨r₁Digit, r₂Digit, g₁Digit, g₂Digit, b₁Digit, b₂Digit, _⟩
      have r₁Lt := value_lt r₁Digit
      have r₂Lt := value_lt r₂Digit
      have g₁Lt := value_lt g₁Digit
      have g₂Lt := value_lt g₂Digit
      have b₁Lt := value_lt b₁Digit
      have b₂Lt := value_lt b₂Digit
      constructor
      · exact digits
      · simp only [ofNat, ofCode_eq, UInt32.toNat_ofNat', UInt8.toNat_ofNat', List.foldl_cons,
          List.foldl_nil]
        omega
      · simp only [ofNat, ofCode_eq, UInt32.toNat_ofNat', UInt8.toNat_ofNat', List.foldl_cons,
          List.foldl_nil]
        omega
      · simp only [ofNat, ofCode_eq, UInt32.toNat_ofNat', UInt8.toNat_ofNat', List.foldl_cons,
          List.foldl_nil]
        omega

/-- A text is read as a colour exactly if it is three or six hexadecimal digits with at most
one `#` in front of them, and any other text is named in the error.  The colour is the one
that the digits spell: two digits for each byte, which is the colour whose code is their
number, or one digit in place of two equal ones.  Neither their case nor the `#` matters,
and a written colour is read back. -/
theorem ofText_exact (text : String) :
    ((∃ color, ofText text = .ok color) ↔
        ∃ chars, Written text chars ∧ (chars.length = 3 ∨ chars.length = 6) ∧
          ∀ char ∈ chars, IsDigit char) ∧
      (∀ problem, ofText text = .error problem → problem = .invalidColor text) ∧
      (∀ chars, Written text chars → ∀ color, ofText text = .ok color ↔ Spells chars color) ∧
      (∀ chars, Written text chars → chars.length = 6 →
        ∀ number, number? chars = some number → ofText text = .ok (ofNat number)) ∧
      (∀ r g b other, Written text [r, g, b] → Written other [r, r, g, g, b, b] →
        ofText? text = ofText? other) ∧
      (∀ chars others other, Written text chars → Written other others →
        chars.map Char.toLower = others.map Char.toLower → ofText? text = ofText? other) ∧
      ∀ color : Color, ofText color.toText = .ok color := by
  simp only [ofText_eq_ok_iff]
  refine ⟨exists_ofText?_iff, ?_, ?_, ?_, ?_, ?_, ofText?_toText⟩
  · intro problem failed
    unfold ofText at failed
    split at failed
    · cases failed
    · cases failed
      rfl
  · intro chars written color
    exact ofText?_eq_some_iff written
  · intro chars written six number read
    exact ofText?_of_spells written (spells_ofNat six read)
  · intro r g b other written otherWritten
    apply Option.ext
    intro color
    rw [ofText?_eq_some_iff written, ofText?_eq_some_iff otherWritten, spells_three_iff]
  · intro chars others other written otherWritten same
    apply Option.ext
    intro color
    rw [ofText?_eq_some_iff written, ofText?_eq_some_iff otherWritten]
    constructor
    · intro spells
      exact spells.of_toLower same
    · intro spells
      exact spells.of_toLower same.symm

/-- Three digits in mixed case behind a `#`, six digits without one that spell the same, and
two signs in front of three digits, which are one too many. -/
theorem ofText_exact_short :
    Written "#F0a" ['F', '0', 'a'] ∧ Written "FF00aa" ['F', 'F', '0', '0', 'a', 'a'] ∧
      Written "f0A" ['f', '0', 'A'] ∧
      ofText "#F0a" = .ok ⟨0xFF, 0x00, 0xAA⟩ ∧
      ofText? "#F0a" = ofText? "FF00aa" ∧ ofText? "#F0a" = ofText? "f0A" ∧
      number? ['F', 'F', '0', '0', 'a', 'a'] = some 0xFF00AA ∧
      ofText "FF00aa" = .ok (ofNat 0xFF00AA) ∧
      ∃ problem, ofText "##F0a" = .error problem ∧ problem = .invalidColor "##F0a" := by
  have short : Written "#F0a" ['F', '0', 'a'] := ⟨by decide, Or.inr rfl⟩
  have long : Written "FF00aa" ['F', 'F', '0', '0', 'a', 'a'] := ⟨by decide, Or.inl rfl⟩
  have small : Written "f0A" ['f', '0', 'A'] := ⟨by decide, Or.inl rfl⟩
  have digits : ∀ char ∈ ['F', 'F', '0', '0', 'a', 'a'], IsDigit char := by
    simp only [List.forall_mem_cons]
    exact ⟨by decide, by decide, by decide, by decide, by decide, by decide, List.forall_mem_nil _⟩
  have spells : Spells ['F', '0', 'a'] ⟨0xFF, 0x00, 0xAA⟩ :=
    .three (.six digits (by decide) (by decide) (by decide))
  rcases ofText_exact "#F0a" with ⟨_, _, read, _, doubled, lowered, _⟩
  rcases ofText_exact "FF00aa" with ⟨_, _, _, code, _⟩
  rcases ofText_exact "##F0a" with ⟨_, refused, _⟩
  refine ⟨short, long, small, ?_, ?_, ?_, rfl, ?_, ?_⟩
  · exact (read _ short _).mpr spells
  · exact doubled 'F' '0' 'a' "FF00aa" short long
  · exact lowered _ _ "f0A" short small rfl
  · exact code _ long rfl _ rfl
  · exact ⟨_, rfl, refused _ rfl⟩

end Color

end Highlight
