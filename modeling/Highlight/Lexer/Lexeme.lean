import Highlight.Token

/-!
# Lexemes

A lexeme is what the scanner finds at one place: a kind and a number of bytes.
The rules of the other files in this folder each look at the bytes from one
place on and give a lexeme or nothing.
-/

namespace Highlight

/-- A kind and the number of bytes it covers. -/
structure Lexeme where
  kind : TokenKind
  length : Nat
  deriving DecidableEq

end Highlight
