import Highlight.Text.Utf8

/-!
# Slices by byte offset

Tokens speak of byte offsets, rendering of characters.  A slice exists when its
ends are in order, lie within the text and fall between two characters.
-/

namespace Highlight.Text

/-- The number of bytes of a text. -/
def byteLength (chars : List Char) : Nat :=
  (Utf8.encode chars).length

/-- The characters before and after a byte offset, if the offset falls between
two characters. -/
def splitAtByte? : List Char → Nat → Option (List Char × List Char)
  | chars, 0 => some ([], chars)
  | [], _ + 1 => none
  | char :: rest, offset + 1 =>
      if char.utf8Size ≤ offset + 1 then
        (splitAtByte? rest (offset + 1 - char.utf8Size)).map fun (left, right) =>
          (char :: left, right)
      else none

/-- The characters from one byte offset to another. -/
def slice? (chars : List Char) (start stop : Nat) : Option (List Char) :=
  if stop < start then none
  else (splitAtByte? chars start).bind fun (_, rest) =>
    (splitAtByte? rest (stop - start)).map Prod.fst

end Highlight.Text
