/-!
# ASCII case

Names and extensions are compared without regard to the case of the ASCII
letters.  All other characters are compared as they are.
-/

namespace Highlight.Ascii

/-- The text with its ASCII capitals made small. -/
def lower (text : String) : String :=
  String.ofList (text.toList.map Char.toLower)

/-- Equality up to the case of ASCII letters. -/
def sameLetters (left right : String) : Bool :=
  lower left == lower right

end Highlight.Ascii
