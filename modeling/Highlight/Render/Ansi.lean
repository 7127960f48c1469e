import Highlight.Render.Piece
import Highlight.Theme.Basic

/-!
# Terminal output

Each run outside whitespace is wrapped in the escape sequence that switches to
its style and the one that resets it.  Newlines and whitespace stay bare, so
the output can be cut into lines.
-/

namespace Highlight

/-- The settings of terminal output. -/
structure Ansi where
  /-- Use full colours instead of palette entries. -/
  trueColor : Bool := true
  deriving DecidableEq

namespace Ansi

/-- The sequence that goes back to no style. -/
def reset : String :=
  "\x1b[0m"

/-- The code that selects a colour for the layer `base`. -/
def colorCode (ansi : Ansi) (base : String) (color : Color) : String :=
  if ansi.trueColor then
    base ++ ";2;" ++ toString color.red.toNat ++ ";" ++ toString color.green.toNat ++ ";"
      ++ toString color.blue.toNat
  else base ++ ";5;" ++ toString color.palette

/-- The codes of a style on a page with a given background. -/
def codes (ansi : Ansi) (style : Style) (page : Option Color) : List String :=
  (if style.bold then ["1"] else []) ++ (if style.italic then ["3"] else [])
    ++ (if style.underline then ["4"] else []) ++ [ansi.colorCode "38" style.foreground]
    ++ ((style.ownBackground page).map (ansi.colorCode "48")).toList

/-- The sequence that switches to a style. -/
def switch (ansi : Ansi) (style : Style) (page : Option Color) : String :=
  "\x1b[" ++ ";".intercalate (ansi.codes style page) ++ "m"

/-- The output for a piece. -/
def piece (ansi : Ansi) (theme : Theme) : Piece → List Char
  | .newline => ['\n']
  | .run kind body =>
      if kind = .whitespace then body
      else
        (ansi.switch (theme.styleOf kind) theme.background).toList ++ body ++ reset.toList

/-- Renders the text under some tokens. -/
def render (ansi : Ansi) (text : String) (tokens : List Token) (theme : Theme) :
    Except SpanError String := do
  let pieces ← Piece.ofTokens text.toList tokens
  return String.ofList (pieces.flatMap (ansi.piece theme))

end Ansi

end Highlight
