import Highlight.Text.Byte

/-!
# Named bytes and their classes

The newline is none of the other bytes that the scanner asks for, and apart
from space it is in no class.  The scanner's rules therefore treat it like the
end of the text unless they ask for it by name.  No class holds a byte of a
multi-byte character.
-/

namespace Highlight.Byte

@[simp]
theorem newline_ne_backslash : newline ≠ backslash := by decide

@[simp]
theorem newline_ne_carriageReturn : newline ≠ carriageReturn := by decide

@[simp]
theorem carriageReturn_ne_newline : carriageReturn ≠ newline := by decide

@[simp]
theorem isBlank_newline : isBlank newline = false := by decide

@[simp]
theorem isDigit_newline : isDigit newline = false := by decide

@[simp]
theorem isHexDigit_newline : isHexDigit newline = false := by decide

@[simp]
theorem isBinaryDigit_newline : isBinaryDigit newline = false := by decide

@[simp]
theorem isWord_newline : isWord newline = false := by decide

@[simp]
theorem isWordStart_newline : isWordStart newline = false := by decide

@[simp]
theorem isContinuation_newline : isContinuation newline = false := by decide

/-! ## Classes are ASCII -/

theorem lt_of_isInlineSpace {b : UInt8} (holds : isInlineSpace b = true) : b < 0x80 := by
  simp only [isInlineSpace, isBlank, Bool.or_eq_true, beq_iff_eq] at holds
  rcases holds with (((rfl | rfl) | rfl) | rfl) | rfl <;> decide

theorem lt_of_isBlank {b : UInt8} (holds : isBlank b = true) : b < 0x80 := by
  simp only [isBlank, Bool.or_eq_true, beq_iff_eq] at holds
  rcases holds with rfl | rfl <;> decide

theorem lt_of_isWord {b : UInt8} (holds : isWord b = true) : b < 0x80 := by
  simp only [isWord, isAlphanumeric, isLetter, isUpper, isLower, isDigit, Bool.or_eq_true,
    Bool.and_eq_true, decide_eq_true_eq, beq_iff_eq] at holds
  rcases holds with ((⟨_, upper⟩ | ⟨_, lower⟩) | ⟨_, digit⟩) | rfl
  · exact UInt8.lt_of_le_of_lt upper (by decide)
  · exact UInt8.lt_of_le_of_lt lower (by decide)
  · exact UInt8.lt_of_le_of_lt digit (by decide)
  · decide

theorem lt_of_isHexDigit {b : UInt8} (holds : isHexDigit b = true) : b < 0x80 := by
  simp only [isHexDigit, isDigit, Bool.or_eq_true, Bool.and_eq_true, decide_eq_true_eq] at holds
  rcases holds with (⟨_, digit⟩ | ⟨_, upper⟩) | ⟨_, lower⟩
  · exact UInt8.lt_of_le_of_lt digit (by decide)
  · exact UInt8.lt_of_le_of_lt upper (by decide)
  · exact UInt8.lt_of_le_of_lt lower (by decide)

theorem lt_of_isDigit {b : UInt8} (holds : isDigit b = true) : b < 0x80 :=
  lt_of_isHexDigit (by simp [isHexDigit, holds])

theorem lt_of_isBinaryDigit {b : UInt8} (holds : isBinaryDigit b = true) : b < 0x80 := by
  simp only [isBinaryDigit, Bool.or_eq_true, beq_iff_eq] at holds
  rcases holds with rfl | rfl <;> decide

/-! ## Classes that exclude each other -/

theorem isWord_of_isSpace {b : UInt8} (space : isSpace b = true) : isWord b = false := by
  simp only [isSpace, isInlineSpace, isBlank, Bool.or_eq_true, beq_iff_eq] at space
  rcases space with rfl | (((rfl | rfl) | rfl) | rfl) | rfl <;> decide

theorem isSpace_of_isBlank {b : UInt8} (blank : isBlank b = true) : isSpace b = true := by
  rw [isSpace, isInlineSpace, blank, Bool.true_or, Bool.true_or, Bool.true_or, Bool.or_true]

theorem isWord_of_isBlank {b : UInt8} (blank : isBlank b = true) : isWord b = false :=
  isWord_of_isSpace (isSpace_of_isBlank blank)

theorem isBlank_of_isWord {b : UInt8} (word : isWord b = true) : isBlank b = false := by
  cases blank : isBlank b with
  | false => rfl
  | true => cases (isWord_of_isBlank blank).symm.trans word

theorem isWord_of_isContinuation {b : UInt8} (continues : isContinuation b = true) :
    isWord b = false := by
  cases word : isWord b with
  | false => rfl
  | true =>
      simp only [isContinuation, Bool.and_eq_true, decide_eq_true_eq] at continues
      exact absurd (lt_of_isWord word) (UInt8.not_lt.mpr continues.1)

theorem isDigit_of_isWordStart {b : UInt8} (starts : isWordStart b = true) :
    isDigit b = false := by
  grind [isWordStart, isLetter, isUpper, isLower, isDigit]

theorem isSpace_of_isWordStart {b : UInt8} (starts : isWordStart b = true) :
    isSpace b = false := by
  grind [isWordStart, isLetter, isUpper, isLower, isSpace, isInlineSpace, isBlank]

/-- A byte of a word is a digit or may start a word. -/
theorem isWord_eq (b : UInt8) : isWord b = (isDigit b || isWordStart b) := by
  rw [isWord, isWordStart, isAlphanumeric, Bool.or_comm (isLetter b), Bool.or_assoc]

end Highlight.Byte
