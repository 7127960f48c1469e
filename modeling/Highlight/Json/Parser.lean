import Highlight.Json.Value
import Highlight.Text.Hex

/-!
# Reading JSON

A reader takes characters and gives a value and the characters after it, or
nothing.  The reader of values is given fuel; twice the length of the text is
always enough, because every second step takes a character.
-/

namespace Highlight.Json

/-- The characters that may stand between tokens. -/
def isSpace (char : Char) : Bool :=
  char == ' ' || char == '\n' || char == '\t' || char == '\r'

/-- The characters without the space in front. -/
def skipSpace (chars : List Char) : List Char :=
  chars.dropWhile isSpace

/-- The character that a one-letter escape stands for. -/
def escape? (char : Char) : Option Char :=
  if char = '"' ∨ char = '\\' ∨ char = '/' then some char
  else if char = 'b' then some '\x08'
  else if char = 'f' then some '\x0c'
  else if char = 'n' then some '\n'
  else if char = 'r' then some '\r'
  else if char = 't' then some '\t'
  else none

/-- Whether a number is the first half of a surrogate pair. -/
def isLeading (unit : Nat) : Bool :=
  0xD800 ≤ unit && unit ≤ 0xDBFF

/-- Whether a number is the second half of a surrogate pair. -/
def isTrailing (unit : Nat) : Bool :=
  0xDC00 ≤ unit && unit ≤ 0xDFFF

/-- The code units of a string body and the characters after its quote. -/
def stringUnits : List Char → Option (List Nat × List Char)
  | [] => none
  | char :: rest =>
      if char = '"' then some ([], rest)
      else if char = '\\' then
        match rest with
        | [] => none
        | letter :: rest =>
            if letter = 'u' then
              match rest with
              | a :: b :: c :: d :: rest => do
                  let unit ← Hex.number? [a, b, c, d]
                  let (units, after) ← stringUnits rest
                  some (unit :: units, after)
              | _ => none
            else do
              let meant ← escape? letter
              let (units, after) ← stringUnits rest
              some (meant.toNat :: units, after)
      else if char.toNat < 0x20 then none
      else do
        let (units, after) ← stringUnits rest
        some (char.toNat :: units, after)

/-- The characters that code units spell, if no half of a pair stands alone. -/
def spell? : List Nat → Option (List Char)
  | [] => some []
  | unit :: rest =>
      if isLeading unit then
        match rest with
        | [] => none
        | next :: rest =>
            if isTrailing next then
              (spell? rest).map
                (Char.ofNat (0x10000 + (unit - 0xD800) * 1024 + (next - 0xDC00)) :: ·)
            else none
      else if isTrailing unit then none
      else (spell? rest).map (Char.ofNat unit :: ·)

/-- A string, after its opening quote. -/
def readString (chars : List Char) : Option (Option String × List Char) := do
  let (units, after) ← stringUnits chars
  some ((spell? units).map String.ofList, after)

/-- At least one digit. -/
def readDigits (chars : List Char) : Option (List Char × List Char) :=
  let digits := chars.takeWhile Char.isDigit
  if digits.isEmpty then none else some (digits, chars.dropWhile Char.isDigit)

/-- The whole part of a number: a zero, or digits that start with another. -/
def readWhole (chars : List Char) : Option (List Char × List Char) := do
  let (digits, after) ← readDigits chars
  if digits.head? = some '0' ∧ digits.length ≠ 1 then none else some (digits, after)

/-- The fraction of a number, which may be missing. -/
def readFraction : List Char → Option (List Char × List Char)
  | '.' :: rest => do
      let (digits, after) ← readDigits rest
      some ('.' :: digits, after)
  | chars => some ([], chars)

/-- The exponent of a number, which may be missing. -/
def readExponent : List Char → Option (List Char × List Char)
  | [] => some ([], [])
  | mark :: rest =>
      if mark = 'e' ∨ mark = 'E' then
        match rest with
        | [] => none
        | sign :: digits =>
            if sign = '+' ∨ sign = '-' then do
              let (digits, after) ← readDigits digits
              some (mark :: sign :: digits, after)
            else do
              let (digits, after) ← readDigits rest
              some (mark :: digits, after)
      else some ([], mark :: rest)

/-- A number. -/
def readNumber (chars : List Char) : Option (Json × List Char) := do
  let (sign, chars) := match chars with
    | '-' :: rest => (['-'], rest)
    | _ => ([], chars)
  let (whole, chars) ← readWhole chars
  let (fraction, chars) ← readFraction chars
  let (exponent, chars) ← readExponent chars
  some (.number (sign ++ whole ++ fraction ++ exponent), chars)

/-- A fixed word that stands for a value. -/
def readWord (word : String) (value : Json) (chars : List Char) : Option (Json × List Char) :=
  if word.toList.isPrefixOf chars then some (value, chars.drop word.length) else none

mutual

/-- A value, after space. -/
def readValue : (fuel : Nat) → List Char → Option (Json × List Char)
  | 0, _ => none
  | fuel + 1, chars =>
      match skipSpace chars with
      | [] => none
      | '"' :: rest => (readString rest).map fun (text, after) => (.string text, after)
      | '[' :: rest =>
          match skipSpace rest with
          | ']' :: after => some (.array [], after)
          | _ => (readElements fuel rest).map fun (elements, after) => (.array elements, after)
      | '\x7b' :: rest =>
          match skipSpace rest with
          | '\x7d' :: after => some (.object [], after)
          | _ => (readMembers fuel rest).map fun (members, after) => (.object members, after)
      | char :: rest =>
          if char = 'n' then readWord "null" .null (char :: rest)
          else if char = 't' then readWord "true" (.boolean true) (char :: rest)
          else if char = 'f' then readWord "false" (.boolean false) (char :: rest)
          else readNumber (char :: rest)

/-- The elements of an array through its closing bracket. -/
def readElements : (fuel : Nat) → List Char → Option (List Json × List Char)
  | 0, _ => none
  | fuel + 1, chars => do
      let (value, chars) ← readValue fuel chars
      match skipSpace chars with
      | ']' :: after => some ([value], after)
      | ',' :: rest =>
          let (values, after) ← readElements fuel rest
          some (value :: values, after)
      | _ => none

/-- The members of an object through its closing brace. -/
def readMembers : (fuel : Nat) → List Char → Option (List (Option String × Json) × List Char)
  | 0, _ => none
  | fuel + 1, chars =>
      match skipSpace chars with
      | '"' :: rest => do
          let (key, chars) ← readString rest
          match skipSpace chars with
          | ':' :: rest =>
              let (value, chars) ← readValue fuel rest
              match skipSpace chars with
              | '\x7d' :: after => some ([(key, value)], after)
              | ',' :: rest =>
                  let (members, after) ← readMembers fuel rest
                  some ((key, value) :: members, after)
              | _ => none
          | _ => none
      | _ => none

end

/-- Reads a text that is one value. -/
def parse? (text : String) : Option Json := do
  let (value, after) ← readValue (2 * text.length + 2) text.toList
  if (skipSpace after).isEmpty then some value else none

end Highlight.Json
