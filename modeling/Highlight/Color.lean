import Highlight.Text.Hex

/-!
# Colours

A colour has three bytes.  It is written as `#` and six hexadecimal digits; it
is also read without the `#`, and with three digits, each of which then stands
for two.  Terminals without full colour show the entry of their palette that
`Color.palette` gives.
-/

namespace Highlight

/-- An opaque colour. -/
structure Color where
  red : UInt8
  green : UInt8
  blue : UInt8
  deriving DecidableEq

namespace Color

/-- The colour with the code `0xRRGGBB`. -/
def ofCode (code : UInt32) : Color :=
  ⟨(code >>> 16).toUInt8, (code >>> 8).toUInt8, code.toUInt8⟩

/-- The colour written as the number `0xRRGGBB`; higher digits are ignored. -/
def ofNat (code : Nat) : Color :=
  ofCode (UInt32.ofNat code)

/-- The text without one leading `#`. -/
def dropHash : List Char → List Char
  | [] => []
  | char :: rest => if char = '#' then rest else char :: rest

/-- The byte with the last digit of a word as both of its digits. -/
def doubled (digit : UInt32) : UInt8 :=
  (digit.toUInt8 &&& 0xF) * 0x11

/-- Reads a colour.  Behind the `#` there must be nothing but digits; they spell a
word, and their number says how the word is cut into bytes. -/
def ofText? (text : String) : Option Color := do
  let digits := dropHash text.toList
  if digits.all fun char => (Hex.digit? char).isSome then
    let code ← Hex.word? digits
    match digits.length with
    | 6 => return ofCode code
    | 3 => return ⟨doubled (code >>> 8), doubled (code >>> 4), doubled code⟩
    | _ => none
  else none

/-- The two digits of a byte, in small letters. -/
def byteDigits (value : UInt8) : List Char :=
  [Nat.digitChar (value.toNat / 16), Nat.digitChar (value.toNat % 16)]

/-- Writes a colour as `#rrggbb`. -/
def toText (color : Color) : String :=
  String.ofList ('#' :: (byteDigits color.red ++ byteDigits color.green ++ byteDigits color.blue))

/-- The step of the palette's colour cube for one channel. -/
def cubeLevel (value : Nat) : Nat :=
  if value ≤ 47 then 0
  else if value ≤ 114 then 1
  else (value - 35) / 40

/-- The entry of the palette for a grey. -/
def greyEntry (value : Nat) : Nat :=
  if value ≤ 7 then 16
  else if 249 ≤ value then 231
  else 232 + (value - 8) * 24 / 241

/-- The entry of the 256-colour palette that stands for a colour: one of the
grey ramp for greys, one of the colour cube for all else. -/
def palette (color : Color) : Nat :=
  if color.red = color.green ∧ color.green = color.blue then greyEntry color.red.toNat
  else
    16 + 36 * cubeLevel color.red.toNat + 6 * cubeLevel color.green.toNat
      + cubeLevel color.blue.toNat

end Color

end Highlight
