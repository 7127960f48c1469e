import Highlight.Lexer.Lexeme

/-!
# Quoted literals

A quoted literal ends with its quote.  If the quote does not come before the
end of the line the literal ends there and leaves the newline out; a backslash
carries it over the next byte or the next line break.

A raw string chooses a delimiter between its quote and an opening parenthesis,
and ends where a closing parenthesis, the delimiter and a quote stand together.
-/

namespace Highlight.Lexeme

/-- The number of bytes after an opening `quote` that belong to its literal. -/
def quotedTail (quote : UInt8) : Bytes → Nat
  | [] => 0
  | b :: rest =>
      if b = Byte.backslash then
        match rest with
        | [] => 1
        | escaped :: rest =>
            if escaped = Byte.carriageReturn then
              match rest with
              | [] => 2
              | next :: rest =>
                  if next = Byte.newline then 3 + quotedTail quote rest
                  else 2 + quotedTail quote (next :: rest)
            else 2 + quotedTail quote rest
      else if b = Byte.newline then 0
      else if b = quote then 1
      else 1 + quotedTail quote rest

/-- The kind of literal that a quote opens. -/
def quoteKind? (b : UInt8) : Option TokenKind :=
  if b = Byte.doubleQuote then some .string
  else if b = Byte.apostrophe then some .char
  else none

/-- A quoted literal without a prefix. -/
def quoted? : Bytes → Option Lexeme
  | [] => none
  | b :: rest => (quoteKind? b).map fun kind => ⟨kind, 1 + quotedTail b rest⟩

/-- The longest delimiter of a raw string. -/
def maxRawDelimiter : Nat := 16

/-- The bytes of which a raw string delimiter may consist. -/
def isRawDelimiter (b : UInt8) : Bool :=
  Byte.isGraphic b && b != Byte.openParen && b != Byte.closeParen && b != Byte.backslash
    && b != Byte.doubleQuote

/-- The number of bytes of a raw string after its opening quote, through the
closing quote or, without one, to the end of the text.  There is none if no
proper delimiter and opening parenthesis follow. -/
def rawTail? (rest : Bytes) : Option Nat :=
  let delimiter := rest.takeWhile isRawDelimiter
  let afterDelimiter := rest.dropWhile isRawDelimiter
  if delimiter.length ≤ maxRawDelimiter ∧ afterDelimiter.head? = some Byte.openParen then
    let body := afterDelimiter.drop 1
    let closing := Byte.closeParen :: (delimiter ++ [Byte.doubleQuote])
    match Bytes.find? closing body with
    | some offset => some (delimiter.length + 1 + offset + closing.length)
    | none => some rest.length
  else none

end Highlight.Lexeme
