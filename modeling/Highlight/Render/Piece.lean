import Highlight.Text.Slice
import Highlight.Token

/-!
# Pieces of output

A renderer never lets a style run across a newline.  So the text under the
tokens is first cut into runs of one kind within one line, and the newlines
between them.  Cutting fails at the first token whose range is no slice of the
text.
-/

namespace Highlight

/-- A range that is no slice of a text of `length` bytes. -/
structure SpanError where
  start : Nat
  stop : Nat
  length : Nat
  deriving DecidableEq

namespace SpanError

/-- The wording of the error. -/
def message (error : SpanError) : String :=
  "Token span " ++ toString error.start ++ ".." ++ toString error.stop
    ++ " is not a valid range of a " ++ toString error.length ++ "-byte text"

end SpanError

namespace Token

/-- The characters under a token. -/
def chars (text : List Char) (token : Token) : Except SpanError (List Char) :=
  match Text.slice? text token.start token.stop with
  | some slice => .ok slice
  | none => .error ⟨token.start, token.stop, Text.byteLength text⟩

/-- Fails at the first token whose range is no slice of the text. -/
def check (text : List Char) : List Token → Except SpanError Unit
  | [] => .ok ()
  | token :: rest => do
      let _ ← token.chars text
      check text rest

end Token

/-- A run of one kind within a line, or the newline after it. -/
inductive Piece where
  | run (kind : TokenKind) (body : List Char)
  | newline
  deriving DecidableEq

namespace Piece

/-- Cuts the text of one token at its newlines. -/
def cut (kind : TokenKind) : List Char → List Piece
  | [] => []
  | char :: rest =>
      if char = '\n' then newline :: cut kind rest
      else
        match cut kind rest with
        | run _ body :: others => run kind (char :: body) :: others
        | others => run kind [char] :: others

/-- The pieces of the text under some tokens. -/
def ofTokens (text : List Char) : List Token → Except SpanError (List Piece)
  | [] => .ok []
  | token :: rest => do
      let slice ← token.chars text
      let others ← ofTokens text rest
      return cut token.kind slice ++ others

end Piece

end Highlight
