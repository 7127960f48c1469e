/-!
# Hexadecimal digits

Colours, JSON and TOML all spell numbers with hexadecimal digits in either case.
Where a number has to be a word of 32 bits, the arithmetic that finds it is
checked at every digit.
-/

namespace Highlight.Hex

/-- The value of a hexadecimal digit. -/
def digit? (char : Char) : Option Nat :=
  if '0' ≤ char ∧ char ≤ '9' then some (char.toNat - '0'.toNat)
  else if 'a' ≤ char ∧ char ≤ 'f' then some (char.toNat - 'a'.toNat + 10)
  else if 'A' ≤ char ∧ char ≤ 'F' then some (char.toNat - 'A'.toNat + 10)
  else none

/-- The number that some hexadecimal digits spell. -/
def number? (digits : List Char) : Option Nat :=
  digits.foldlM (fun value char => (digit? char).map (value * 16 + ·)) 0

/-- The product of two words, unless it is none. -/
def checkedMul? (left right : UInt32) : Option UInt32 :=
  if left.toNat * right.toNat < UInt32.size then some (left * right) else none

/-- The sum of two words, unless it is none. -/
def checkedAdd? (left right : UInt32) : Option UInt32 :=
  if left.toNat + right.toNat < UInt32.size then some (left + right) else none

/-- The word behind one more digit. -/
def push? (word : UInt32) (char : Char) : Option UInt32 := do
  let shifted ← checkedMul? word 16
  let digit ← digit? char
  checkedAdd? shifted (UInt32.ofNat digit)

/-- The word that some hexadecimal digits spell.  There is none without digits, with
a character that is no digit, and for a number that is too large. -/
def word? (digits : List Char) : Option UInt32 :=
  if digits.isEmpty then none else digits.foldlM push? 0

end Highlight.Hex
