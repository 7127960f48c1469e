/-!
# Offsets as machine words

Offsets into a text are 64-bit words.  A change of length is a signed word: a
number is brought into its range by the bits that a word keeps of it.  A text
has fewer bytes than there are signed words that are not negative, so that its
offsets and their differences have a word of either kind.
-/

namespace Highlight.Offset

/-- The number of words. -/
def count : Nat :=
  0x10000000000000000

/-- The largest word. -/
def largest : Nat :=
  0xFFFFFFFFFFFFFFFF

/-- The largest signed word, and the most bytes that a text can have. -/
def longest : Nat :=
  0x7FFFFFFFFFFFFFFF

/-- The signed word that has the last 64 bits of a number: what a cast of a word
gives, and a sum or difference of signed words that wraps around. -/
@[irreducible]
def signed (value : Int) : Int :=
  value.bmod count

/-- An offset moved by a signed word.  The sum stops at zero and at the largest
word. -/
def saturatingAdd (offset : Nat) (change : Int) : Nat :=
  min largest ((offset : Int) + change).toNat

end Highlight.Offset
