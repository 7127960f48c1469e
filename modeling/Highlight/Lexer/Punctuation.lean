import Highlight.Grammar.Basic
import Highlight.Lexer.Lexeme

/-!
# Punctuation

Brackets, the comma and the semicolon are the same in every grammar; all other
operators come from the table, and the longest one wins.  What no rule covers
is an error of one character.
-/

namespace Highlight.Lexeme

/-- The brackets. -/
def brackets : Bytes :=
  [0x28, 0x29, 0x7B, 0x7D, 0x5B, 0x5D]

/-- The comma and the semicolon. -/
def separators : Bytes :=
  [0x2C, 0x3B]

/-- A bracket or a separator. -/
def bracket? : Bytes → Option Lexeme
  | [] => none
  | b :: _ =>
      if brackets.contains b then some ⟨.delimiter, 1⟩
      else if separators.contains b then some ⟨.separator, 1⟩
      else none

/-- The longest operator. -/
def operator? (grammar : Grammar) (rest : Bytes) : Option Lexeme :=
  (grammar.operatorLength? rest).map (⟨.operator, ·⟩)

/-- The number of continuation bytes that a lead byte calls for. -/
def expectedContinuation (b : UInt8) : Nat :=
  if 0xC0 ≤ b ∧ b ≤ 0xDF then 1
  else if 0xE0 ≤ b ∧ b ≤ 0xEF then 2
  else if 0xF0 ≤ b ∧ b ≤ 0xF7 then 3
  else 0

/-- The number of bytes of the character at the front, or of what there is of
it. -/
def characterLength : Bytes → Nat
  | [] => 1
  | b :: rest =>
      1 + ((rest.take (expectedContinuation b)).takeWhile Byte.isContinuation).length

/-- A character that no rule covers. -/
def unknown (rest : Bytes) : Lexeme :=
  ⟨.error, characterLength rest⟩

end Highlight.Lexeme
