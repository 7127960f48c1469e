/-!
# Bytes and their classes

The scanner works on raw bytes, which need not be valid text.  This file names
the bytes it asks for and the ASCII classes it distinguishes.  No class holds a
byte of `0x80` or above, so a class never matches inside a multi-byte character.
-/

namespace Highlight

/-- A text as the scanner sees it: its bytes in order. -/
abbrev Bytes := List UInt8

namespace Byte

/-- The byte that ends a line. -/
abbrev newline : UInt8 := 0x0A

/-- The byte that may stand before a newline as part of one line break. -/
abbrev carriageReturn : UInt8 := 0x0D

/-- The escape byte of quoted literals and continued lines. -/
abbrev backslash : UInt8 := 0x5C

/-- The quote of string literals. -/
abbrev doubleQuote : UInt8 := 0x22

/-- The quote of character literals and the separator between digits. -/
abbrev apostrophe : UInt8 := 0x27

/-- Opens a directive. -/
abbrev hash : UInt8 := 0x23

/-- Opens a header name after an include directive. -/
abbrev lessThan : UInt8 := 0x3C

/-- Closes a header name. -/
abbrev greaterThan : UInt8 := 0x3E

/-- Opens the body of a raw string and marks a call after a word. -/
abbrev openParen : UInt8 := 0x28

/-- Closes the body of a raw string. -/
abbrev closeParen : UInt8 := 0x29

/-- The point between the digits of a number. -/
abbrev point : UInt8 := 0x2E

/-- The underscore, which counts as a letter in words. -/
abbrev underscore : UInt8 := 0x5F

/-- Blanks separate things within a line: space and tab. -/
def isBlank (b : UInt8) : Bool :=
  b == 0x20 || b == 0x09

/-- Inline space is everything that is skipped within a line: space, tab,
carriage return, vertical tab and form feed. -/
def isInlineSpace (b : UInt8) : Bool :=
  isBlank b || b == carriageReturn || b == 0x0B || b == 0x0C

/-- Space is inline space or a newline. -/
def isSpace (b : UInt8) : Bool :=
  b == newline || isInlineSpace b

/-- The decimal digits. -/
def isDigit (b : UInt8) : Bool :=
  0x30 ≤ b && b ≤ 0x39

/-- The binary digits. -/
def isBinaryDigit (b : UInt8) : Bool :=
  b == 0x30 || b == 0x31

/-- The capital letters. -/
def isUpper (b : UInt8) : Bool :=
  0x41 ≤ b && b ≤ 0x5A

/-- The small letters. -/
def isLower (b : UInt8) : Bool :=
  0x61 ≤ b && b ≤ 0x7A

/-- The hexadecimal digits, in either case. -/
def isHexDigit (b : UInt8) : Bool :=
  isDigit b || (0x41 ≤ b && b ≤ 0x46) || (0x61 ≤ b && b ≤ 0x66)

/-- The ASCII letters. -/
def isLetter (b : UInt8) : Bool :=
  isUpper b || isLower b

/-- The ASCII letters and digits. -/
def isAlphanumeric (b : UInt8) : Bool :=
  isLetter b || isDigit b

/-- A word starts with a letter or an underscore. -/
def isWordStart (b : UInt8) : Bool :=
  isLetter b || b == underscore

/-- A word goes on with letters, digits and underscores. -/
def isWord (b : UInt8) : Bool :=
  isAlphanumeric b || b == underscore

/-- The printable ASCII bytes other than the space. -/
def isGraphic (b : UInt8) : Bool :=
  0x21 ≤ b && b ≤ 0x7E

/-- A continuation byte stands inside a multi-byte character. -/
def isContinuation (b : UInt8) : Bool :=
  0x80 ≤ b && b ≤ 0xBF

end Byte

namespace Bytes

/-- The offset of the first occurrence of `needle`.  The empty needle occurs at
the front of every text. -/
def find? (needle : Bytes) : Bytes → Option Nat
  | [] => if needle.isEmpty then some 0 else none
  | b :: rest =>
      if needle.isPrefixOf (b :: rest) then some 0
      else (find? needle rest).map (· + 1)

/-- Drops the blanks on both sides. -/
def trimBlanks (bytes : Bytes) : Bytes :=
  ((bytes.dropWhile Byte.isBlank).reverse.dropWhile Byte.isBlank).reverse

/-- The length of the line break at the front: `1` for a newline, `2` for a
carriage return and a newline. -/
def lineBreakLength? : Bytes → Option Nat
  | [] => none
  | b :: rest =>
      if b = Byte.newline then some 1
      else if b = Byte.carriageReturn ∧ rest.head? = some Byte.newline then some 2
      else none

end Bytes

end Highlight
