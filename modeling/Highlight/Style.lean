import Highlight.Color

/-!
# Styles

How a run of text looks.
-/

namespace Highlight

/-- Colours and emphasis.  Without a background of its own a run keeps the
background around it. -/
structure Style where
  foreground : Color
  background : Option Color := none
  bold : Bool := false
  italic : Bool := false
  underline : Bool := false
  deriving DecidableEq

namespace Style

/-- A style that is nothing but a colour, given as `0xRRGGBB`. -/
def plain (code : Nat) : Style where
  foreground := .ofNat code

/-- The background to draw on a page: none if it is that of the page. -/
def ownBackground (style : Style) (page : Option Color) : Option Color :=
  style.background.filter fun color => some color != page

end Style

end Highlight
