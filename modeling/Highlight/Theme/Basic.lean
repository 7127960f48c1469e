import Highlight.Style
import Highlight.Text.Ascii
import Highlight.Text.Space
import Highlight.Token

/-!
# Themes

A theme gives styles to token kinds.  Kinds without a style of their own look
like the default style, whose background is that of the page.
-/

namespace Highlight

namespace TokenKind

/-- The list of all kinds leaves none out. -/
theorem mem_all (kind : TokenKind) : kind ∈ all := by
  cases kind <;> decide

end TokenKind

/-- Styles for some of the kinds. -/
abbrev StyleTable := TokenKind → Option Style

namespace StyleTable

/-- The table without styles. -/
def empty : StyleTable :=
  fun _ => none

/-- Gives a kind a style, in place of the one it had. -/
def insert (table : StyleTable) (kind : TokenKind) (style : Style) : StyleTable :=
  fun other => if other = kind then some style else table other

/-- The styles in the order of the kinds. -/
def entries (table : StyleTable) : List (TokenKind × Style) :=
  TokenKind.all.filterMap fun kind => (table kind).map (kind, ·)

/-- Two tables are equal when they agree on every kind of the list. -/
theorem eq_iff_forall_mem_all {left right : StyleTable} :
    left = right ↔ ∀ kind ∈ TokenKind.all, left kind = right kind :=
  ⟨fun equal _ _ => equal ▸ rfl, fun agree => funext fun kind => agree kind kind.mem_all⟩

instance : DecidableEq StyleTable := fun _ _ =>
  decidable_of_iff _ eq_iff_forall_mem_all.symm

end StyleTable

/-- A colour theme. -/
structure Theme where
  name : String
  isDark : Bool
  /-- The style of kinds without an entry; its background is that of the page. -/
  defaultStyle : Style
  styles : StyleTable

namespace Theme

theorem eq_iff {left right : Theme} :
    left = right ↔
      left.name = right.name ∧ left.isDark = right.isDark ∧
        left.defaultStyle = right.defaultStyle ∧ left.styles = right.styles := by
  cases left
  cases right
  simp

instance : DecidableEq Theme := fun _ _ =>
  decidable_of_iff _ eq_iff.symm

/-- The style of a kind. -/
def styleOf (theme : Theme) (kind : TokenKind) : Style :=
  (theme.styles kind).getD theme.defaultStyle

/-- Gives a kind a style of its own. -/
def setStyle (theme : Theme) (kind : TokenKind) (style : Style) : Theme :=
  { theme with styles := theme.styles.insert kind style }

/-- The background of the page. -/
def background (theme : Theme) : Option Color :=
  theme.defaultStyle.background

/-- The dark theme. -/
def dark : Theme where
  name := "Tinge Dark"
  isDark := true
  defaultStyle :=
    { foreground := .ofNat 0xD4D4D4
      background := some (.ofNat 0x1E1E1E) }
  styles
    | .comment => some { Style.plain 0x6A9955 with italic := true }
    | .preprocessor => some (.plain 0xC586C0)
    | .string => some (.plain 0xCE9178)
    | .char => some (.plain 0xCE9178)
    | .number => some (.plain 0xB5CEA8)
    | .boolean => some { Style.plain 0x569CD6 with bold := true }
    | .null => some { Style.plain 0x569CD6 with bold := true }
    | .keyword => some (.plain 0x569CD6)
    | .control => some { Style.plain 0xC586C0 with bold := true }
    | .typeName => some (.plain 0x4EC9B0)
    | .functionName => some (.plain 0xDCDCAA)
    | .scope => some (.plain 0x4EC9B0)
    | .constant => some (.plain 0x4FC1FF)
    | .identifier => some (.plain 0x9CDCFE)
    | .error => some { Style.plain 0xF44747 with underline := true }
    | _ => none

/-- The light theme. -/
def light : Theme where
  name := "Tinge Light"
  isDark := false
  defaultStyle :=
    { foreground := .ofNat 0x000000
      background := some (.ofNat 0xFFFFFF) }
  styles
    | .comment => some { Style.plain 0x008000 with italic := true }
    | .preprocessor => some (.plain 0xAF00DB)
    | .string => some (.plain 0xA31515)
    | .char => some (.plain 0xA31515)
    | .number => some (.plain 0x098658)
    | .boolean => some { Style.plain 0x0000FF with bold := true }
    | .null => some { Style.plain 0x0000FF with bold := true }
    | .keyword => some (.plain 0x0000FF)
    | .control => some { Style.plain 0xAF00DB with bold := true }
    | .typeName => some (.plain 0x267F99)
    | .functionName => some (.plain 0x795E26)
    | .scope => some (.plain 0x267F99)
    | .constant => some (.plain 0x0070C1)
    | .identifier => some (.plain 0x001080)
    | .error => some { Style.plain 0xFF0000 with underline := true }
    | _ => none

/-- The built-in theme with a given name.  White space around the name and the
case of its letters do not matter. -/
def ofName? (name : String) : Option Theme :=
  let key := Ascii.lower (Text.trim name)
  if key = "dark" ∨ key = "tinge dark" then some dark
  else if key = "light" ∨ key = "tinge light" then some light
  else none

end Theme

end Highlight
