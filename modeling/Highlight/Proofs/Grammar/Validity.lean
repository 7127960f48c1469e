import Highlight.Grammar.File
import Highlight.Lexer.Basic
import Highlight.Proofs.Text.Byte

/-!
# What a valid grammar may hold

A grammar that is let through has no fault in any of its operators and literal
prefixes.  Both are therefore free of newlines.  Nothing of the kind is checked
of the comment markers beyond that they are not empty.
-/

namespace Highlight

namespace Grammar

variable {grammar : Grammar}

/-- What is let through is the grammar itself, and it has no fault. -/
theorem validate_eq_ok_iff {valid : Grammar} :
    grammar.validate = .ok valid ↔ valid = grammar ∧ grammar.IsValid := by
  unfold validate IsValid
  cases grammar.fault? with
  | none => simp [eq_comm]
  | some fault => simp

theorem IsValid.operatorFault?_eq_none (valid : grammar.IsValid) :
    ∀ operator ∈ grammar.operators, operatorFault? operator = none := by
  simp only [IsValid, fault?, Option.or_eq_none_iff, List.findSome?_eq_none_iff] at valid
  exact valid.1.2

theorem IsValid.prefixFault?_eq_none (valid : grammar.IsValid) :
    ∀ text ∈ grammar.stringPrefixes, prefixFault? text = none := by
  simp only [IsValid, fault?, Option.or_eq_none_iff, List.findSome?_eq_none_iff] at valid
  exact valid.2

theorem IsValid.blockCommentFault?_eq_none (valid : grammar.IsValid) :
    blockCommentFault? grammar.blockComment = none := by
  simp only [IsValid, fault?, Option.or_eq_none_iff] at valid
  exact valid.1.1.2

/-- No operator holds a reserved byte. -/
theorem IsValid.isReserved_operator (valid : grammar.IsValid) {operator : String}
    (member : operator ∈ grammar.operators) {b : UInt8} (holds : b ∈ Utf8.bytes operator) :
    isReserved b = false := by
  have faultless := valid.operatorFault?_eq_none operator member
  cases reserved : isReserved b with
  | false => rfl
  | true =>
      have anyReserved : (Utf8.bytes operator).any isReserved = true :=
        List.any_eq_true.mpr ⟨b, holds, reserved⟩
      rw [operatorFault?, if_pos anyReserved] at faultless
      split at faultless
      · cases faultless
      · cases faultless

/-- A newline is among the bytes that no operator holds. -/
theorem IsValid.newline_notMem_operator (valid : grammar.IsValid) {operator : String}
    (member : operator ∈ grammar.operators) : Byte.newline ∉ Utf8.bytes operator := by
  intro newline
  cases valid.isReserved_operator member newline

/-- The marker that closes a block comment is not empty. -/
theorem IsValid.closing_ne_nil (valid : grammar.IsValid) {markers : BlockComment}
    (markersEq : grammar.blockComment = some markers) : Utf8.bytes markers.closing ≠ [] := by
  have faultless := valid.blockCommentFault?_eq_none
  rw [blockCommentFault?, markersEq, Option.any_some] at faultless
  intro empty
  have textEmpty : markers.closing = "" := by
    cases charsEq : markers.closing.toList with
    | nil => exact String.toList_eq_nil_iff.mp charsEq
    | cons char chars =>
        rw [Utf8.bytes, charsEq, Utf8.encode, List.flatMap_cons, List.append_eq_nil_iff] at empty
        exact absurd empty.1 String.utf8EncodeChar_ne_nil
  rw [textEmpty] at faultless
  simp at faultless

/-- A newline does not stand in a word, and a literal prefix is one. -/
theorem IsValid.newline_notMem_prefix (valid : grammar.IsValid) {text : String}
    (member : text ∈ grammar.stringPrefixes) : Byte.newline ∉ Utf8.bytes text := by
  have faultless := valid.prefixFault?_eq_none text member
  simp only [prefixFault?, ite_eq_right_iff, reduceCtorEq, imp_false, Bool.or_eq_true,
    Bool.not_eq_true', not_or, Bool.not_eq_false, List.all_eq_true] at faultless
  intro newline
  have isWord := faultless.2 Byte.newline newline
  rw [Byte.isWord_newline] at isWord
  cases isWord

end Grammar

/-- A lexer whose table, if it has one, is let through. -/
def Lexer.Accepted : Lexer → Prop
  | .plain => True
  | .table grammar => grammar.validate = .ok grammar

end Highlight
