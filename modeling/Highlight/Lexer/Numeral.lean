import Highlight.Grammar.Basic
import Highlight.Lexer.Lexeme

/-!
# Numerals

A numeral is hexadecimal after `0x`, binary after `0b` and decimal otherwise.
Hexadecimal and decimal numerals may have a point and an exponent; every
numeral takes in the letters, digits and underscores after it as its suffix.
A point or an exponent need not be well formed to be read, but an exponent
without digits is left to the suffix.
-/

namespace Highlight.Lexeme

/-- The number of digits at the front.  With `separators`, an apostrophe
between two digits counts too; `seen` tells whether a digit came before. -/
def digitsLength (isDigit : UInt8 → Bool) (separators : Bool) : (seen : Bool) → Bytes → Nat
  | _, [] => 0
  | seen, b :: rest =>
      if isDigit b then 1 + digitsLength isDigit separators true rest
      else if b == Byte.apostrophe && separators && seen && rest.head?.any isDigit then
        1 + digitsLength isDigit separators true rest
      else 0

/-- The number of bytes of a point and the digits after it. -/
def fractionLength (isDigit : UInt8 → Bool) (separators : Bool) : Bytes → Nat
  | [] => 0
  | b :: rest =>
      if b = Byte.point then 1 + digitsLength isDigit separators false rest else 0

/-- The number of bytes of a sign. -/
def signLength (rest : Bytes) : Nat :=
  if rest.head? = some 0x2B ∨ rest.head? = some 0x2D then 1 else 0

/-- The number of bytes of an exponent that `isMark` introduces.  Without a
digit after the mark and its sign there is no exponent. -/
def exponentLength (isMark : UInt8 → Bool) (separators : Bool) : Bytes → Nat
  | [] => 0
  | b :: rest =>
      let digits := rest.drop (signLength rest)
      if isMark b && digits.head?.any Byte.isDigit then
        1 + signLength rest + digitsLength Byte.isDigit separators false digits
      else 0

/-- The mark of a decimal exponent. -/
def isDecimalMark (b : UInt8) : Bool :=
  b == 0x65 || b == 0x45

/-- The mark of a hexadecimal exponent. -/
def isHexMark (b : UInt8) : Bool :=
  b == 0x70 || b == 0x50

/-- The number of bytes of digits, a fraction and an exponent. -/
def realLength (isDigit isMark : UInt8 → Bool) (separators : Bool) (rest : Bytes) : Nat :=
  let whole := digitsLength isDigit separators false rest
  let fraction := fractionLength isDigit separators (rest.drop whole)
  whole + fraction + exponentLength isMark separators (rest.drop (whole + fraction))

/-- Whether a hexadecimal numeral starts here. -/
def isHexStart (rest : Bytes) : Bool :=
  rest.head? == some 0x30 && (rest.drop 1).head?.any fun b => b == 0x78 || b == 0x58

/-- Whether a binary numeral starts here. -/
def isBinaryStart (rest : Bytes) : Bool :=
  rest.head? == some 0x30 && (rest.drop 1).head?.any fun b => b == 0x62 || b == 0x42

/-- The number of bytes of a numeral without its suffix. -/
def numeralBody (separators : Bool) (rest : Bytes) : Nat :=
  if isHexStart rest then
    2 + realLength Byte.isHexDigit isHexMark separators (rest.drop 2)
  else if isBinaryStart rest then
    2 + digitsLength Byte.isBinaryDigit separators false (rest.drop 2)
  else realLength Byte.isDigit isDecimalMark separators rest

/-- The number of bytes of a numeral. -/
def numeralLength (separators : Bool) (rest : Bytes) : Nat :=
  let body := numeralBody separators rest
  body + ((rest.drop body).takeWhile Byte.isWord).length

/-- Whether a numeral starts here: with a digit, or with a point before one. -/
def isNumeralStart : Bytes → Bool
  | [] => false
  | b :: rest => Byte.isDigit b || (b == Byte.point && rest.head?.any Byte.isDigit)

/-- A numeral. -/
def numeral? (grammar : Grammar) (rest : Bytes) : Option Lexeme :=
  if isNumeralStart rest then some ⟨.number, numeralLength grammar.digitSeparators rest⟩
  else none

end Highlight.Lexeme
