import Highlight.Lexer.Lexeme

/-!
# Space

A run of space ends right after its first newline, so the start of a line is
always the start of a lexeme unless a comment or a literal runs across it.  A
backslash before a line break counts as space together with the break.
-/

namespace Highlight.Lexeme

/-- The number of space bytes at the front, up to and with the first newline. -/
def spaceLength : Bytes → Nat
  | [] => 0
  | b :: rest =>
      if b = Byte.newline then 1
      else if Byte.isInlineSpace b then 1 + spaceLength rest
      else 0

/-- A run of space. -/
def space? : Bytes → Option Lexeme
  | [] => none
  | b :: rest =>
      if Byte.isSpace b then some ⟨.whitespace, spaceLength (b :: rest)⟩ else none

/-- A backslash that joins two lines. -/
def lineJoin? : Bytes → Option Lexeme
  | [] => none
  | b :: rest =>
      if b = Byte.backslash then
        (Bytes.lineBreakLength? rest).map fun length => ⟨.whitespace, 1 + length⟩
      else none

end Highlight.Lexeme
