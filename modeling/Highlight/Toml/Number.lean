import Highlight.Text.Hex
import Highlight.Toml.Value

/-!
# Numbers and dates of TOML

Integers fit into 64 bits.  Digits may be divided by single underscores.  A
float that is too large to be finite is refused unless it is negative.  Dates
have to exist in the calendar.
-/

namespace Highlight.Toml

/-! ## Digits -/

/-- The number that digits spell in a base. -/
def digitsValue (base : Nat) (digits : List Char) : Nat :=
  digits.foldl (fun value digit => value * base + (Hex.digit? digit).getD 0) 0

/-- The digits of base sixteen. -/
def isHexDigit (char : Char) : Bool :=
  (Hex.digit? char).isSome

/-- The digits of base eight. -/
def isOctalDigit (char : Char) : Bool :=
  '0' ≤ char && char ≤ '7'

/-- The digits of base two. -/
def isBinaryDigit (char : Char) : Bool :=
  char == '0' || char == '1'

/-- Further digits.  An underscore must stand between two digits and is left
out. -/
def readMoreDigits (isDigit : Char → Bool) : List Char → Option (List Char × List Char)
  | [] => some ([], [])
  | char :: rest =>
      if isDigit char then
        (readMoreDigits isDigit rest).map fun (digits, after) => (char :: digits, after)
      else if char = '_' then
        match rest with
        | [] => none
        | digit :: rest =>
            if isDigit digit then
              (readMoreDigits isDigit rest).map fun (digits, after) => (digit :: digits, after)
            else none
      else some ([], char :: rest)

/-- At least one digit. -/
def readDigits (isDigit : Char → Bool) : List Char → Option (List Char × List Char)
  | [] => none
  | char :: rest =>
      if isDigit char then
        (readMoreDigits isDigit rest).map fun (digits, after) => (char :: digits, after)
      else none

/-- A sign, which may be missing; whether it is a minus. -/
def readSign : List Char → Bool × List Char
  | '-' :: rest => (true, rest)
  | '+' :: rest => (false, rest)
  | chars => (false, chars)

/-- The digits of a decimal integer without its sign: a zero alone, or digits
that start with another. -/
def readDecimal : List Char → Option (List Char × List Char)
  | [] => none
  | '0' :: rest => some (['0'], rest)
  | chars => readDigits Char.isDigit chars

/-! ## Integers -/

/-- The least number that does not fit into 63 bits. -/
def integerBound : Int :=
  0x8000000000000000

/-- An integer, if it fits into 64 bits with its sign. -/
def integer? (value : Int) : Option Toml :=
  if -integerBound ≤ value ∧ value < integerBound then some (.integer value) else none

/-- An integer in a base other than ten, from behind its mark. -/
def readBased (base : Nat) (isDigit : Char → Bool) (chars : List Char) :
    Option (Toml × List Char) := do
  let (digits, after) ← readDigits isDigit chars
  return (← integer? (digitsValue base digits), after)

/-- A decimal integer. -/
def readDecimalInteger (chars : List Char) : Option (Toml × List Char) := do
  let (negative, chars) := readSign chars
  let (digits, after) ← readDecimal chars
  let size : Int := digitsValue 10 digits
  return (← integer? (if negative then -size else size), after)

/-- An integer. -/
def readInteger (chars : List Char) : Option (Toml × List Char) :=
  match chars with
  | '0' :: 'x' :: rest => readBased 16 isHexDigit rest
  | '0' :: 'o' :: rest => readBased 8 isOctalDigit rest
  | '0' :: 'b' :: rest => readBased 2 isBinaryDigit rest
  | _ => readDecimalInteger chars

/-! ## Floats -/

/-- The least number that rounds to infinity as a float of 64 bits:
`2 ^ 1024 - 2 ^ 970`. -/
def floatBound : Nat :=
  Nat.pow 2 1024 - Nat.pow 2 970

/-- Whether `digits · 10 ^ exponent` is too large for a finite float.  Numbers
far from the bound are told by their length. -/
def overflows (digits : List Char) (exponent : Int) : Bool :=
  let significant := digits.dropWhile (· == '0')
  let mantissa := digitsValue 10 significant
  let magnitude := (significant.length : Int) + exponent
  if significant.isEmpty ∨ magnitude < 300 then false
  else if 400 < magnitude then true
  else
    decide (floatBound * Nat.pow 10 (-exponent).toNat ≤ mantissa * Nat.pow 10 exponent.toNat)

/-- The fraction of a float, from its point on. -/
def readFraction : List Char → Option (List Char × List Char)
  | '.' :: rest => readDigits Char.isDigit rest
  | _ => none

/-- The exponent of a float, from its mark on. -/
def readExponent : List Char → Option (Int × List Char)
  | [] => none
  | mark :: rest =>
      if mark = 'e' ∨ mark = 'E' then do
        let (negative, chars) := readSign rest
        let (digits, after) ← readDigits Char.isDigit chars
        let size : Int := digitsValue 10 digits
        some (if negative then -size else size, after)
      else none

/-- What makes a decimal a float: a fraction, an exponent or both. -/
def readFloatTail (chars : List Char) : Option (List Char × Int × List Char) :=
  match chars.head? with
  | some '.' => do
      let (fraction, chars) ← readFraction chars
      match chars.head? with
      | some 'e' | some 'E' =>
          let (exponent, after) ← readExponent chars
          some (fraction, exponent, after)
      | _ => some (fraction, 0, chars)
  | _ => do
      let (exponent, after) ← readExponent chars
      some ([], exponent, after)

/-- The float that is spelled before `after`. -/
def floatBefore (chars after : List Char) : Toml :=
  .float (chars.take (chars.length - after.length))

/-- Infinity or the value that is no number. -/
def readSpecial (chars : List Char) : Option (Toml × List Char) :=
  let word := (readSign chars).2
  if ['i', 'n', 'f'].isPrefixOf word ∨ ['n', 'a', 'n'].isPrefixOf word then
    some (floatBefore chars (word.drop 3), word.drop 3)
  else none

/-- A float. -/
def readFloat (chars : List Char) : Option (Toml × List Char) :=
  let decimal : Option (Toml × List Char) := do
    let (negative, digits) := readSign chars
    let (whole, rest) ← readDecimal digits
    let (fraction, exponent, after) ← readFloatTail rest
    if !negative && overflows (whole ++ fraction) (exponent - fraction.length) then none
    else some (floatBefore chars after, after)
  decimal.or (readSpecial chars)

/-! ## Dates -/

/-- A number of exactly `count` digits. -/
def readFixed (count : Nat) (chars : List Char) : Option (Nat × List Char) :=
  let digits := chars.take count
  if digits.length = count ∧ digits.all Char.isDigit then
    some (digitsValue 10 digits, chars.drop count)
  else none

/-- The characters after an expected one. -/
def expect (char : Char) : List Char → Option (List Char)
  | [] => none
  | first :: rest => if first = char then some rest else none

/-- A number of two digits within bounds. -/
def readWithin (low high : Nat) (chars : List Char) : Option (Nat × List Char) := do
  let (value, after) ← readFixed 2 chars
  if low ≤ value ∧ value ≤ high then some (value, after) else none

/-- Whether a year has a leap day. -/
def isLeapYear (year : Nat) : Bool :=
  year % 4 == 0 && (year % 100 != 0 || year % 400 == 0)

/-- The number of days of a month. -/
def daysIn (year month : Nat) : Nat :=
  if month = 2 then if isLeapYear year then 29 else 28
  else if month = 4 ∨ month = 6 ∨ month = 9 ∨ month = 11 then 30
  else 31

/-- The characters after a date. -/
def afterDate? (chars : List Char) : Option (List Char) := do
  let (year, chars) ← readFixed 4 chars
  let (month, chars) ← readWithin 1 12 (← expect '-' chars)
  let (_, after) ← readWithin 1 (daysIn year month) (← expect '-' chars)
  some after

/-- The characters after the fraction of a second, which may be missing. -/
def afterSecondFraction (chars : List Char) : List Char :=
  match chars with
  | '.' :: rest =>
      if rest.head?.any Char.isDigit then rest.dropWhile Char.isDigit else chars
  | _ => chars

/-- The characters after a time of day.  A minute may have a leap second. -/
def afterTime? (chars : List Char) : Option (List Char) := do
  let (_, chars) ← readWithin 0 23 chars
  let (_, chars) ← readWithin 0 59 (← expect ':' chars)
  let (_, chars) ← readWithin 0 60 (← expect ':' chars)
  some (afterSecondFraction chars)

/-- The characters after an offset from universal time. -/
def afterOffset? : List Char → Option (List Char)
  | [] => none
  | sign :: rest =>
      if sign = 'Z' ∨ sign = 'z' then some rest
      else if sign = '+' ∨ sign = '-' then do
        let (_, chars) ← readWithin 0 23 rest
        let (_, after) ← readWithin 0 59 (← expect ':' chars)
        some after
      else none

/-- The characters after a time of day that follows a date. -/
def afterTimeOfDate? : List Char → Option (List Char)
  | [] => none
  | mark :: rest =>
      if mark = 'T' ∨ mark = 't' ∨ mark = ' ' then do
        let after ← afterTime? rest
        some ((afterOffset? after).getD after)
      else none

/-- The characters after a date, a time of day or both. -/
def afterDateTime? (chars : List Char) : Option (List Char) :=
  match afterDate? chars with
  | some after => some ((afterTimeOfDate? after).getD after)
  | none => afterTime? chars

/-- A date, a time of day or both. -/
def readDateTime (chars : List Char) : Option (Toml × List Char) :=
  (afterDateTime? chars).map fun after =>
    (.dateTime (chars.take (chars.length - after.length)), after)

/-- Whatever starts like a number. -/
def readNumber (chars : List Char) : Option (Toml × List Char) :=
  readDateTime chars |>.or (readFloat chars) |>.or (readInteger chars)

end Highlight.Toml
