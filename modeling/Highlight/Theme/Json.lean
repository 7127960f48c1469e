import Highlight.Json.Value
import Highlight.Theme.Basic

/-!
# Themes as JSON

A theme is written as an object with its name, whether it is dark, its default
style and its styles by kind.  Reading fills what is missing from the dark
theme, ignores members it does not know, and refuses everything else that is
not as it should be.
-/

namespace Highlight

namespace Color

/-- Reads a colour. -/
def ofJson? (value : Json) : Option Color :=
  value.string?.bind ofText?

/-- Writes a colour. -/
def toJson (color : Color) : Json :=
  .string (some color.toText)

end Color

namespace Json

/-- Reads a field that may be missing. -/
def fieldOr {α : Type} (field : Option Json) (missing : α) (read : Json → Option α) : Option α :=
  match field with
  | none => some missing
  | some value => read value

/-- Reads a value that may be null. -/
def nullable {α : Type} (read : Json → Option α) : Json → Option (Option α)
  | null => some none
  | value => (read value).map some

end Json

namespace Style

/-- The fields of a style, in order. -/
def fieldNames : List String :=
  ["fg", "bg", "bold", "italic", "underline"]

/-- Reads a style.  Only the foreground has to be there. -/
def ofJson? (value : Json) : Option Style := do
  let field ← Json.record? fieldNames value
  let foreground ← (field "fg").bind Color.ofJson?
  let background ← Json.fieldOr (field "bg") none (Json.nullable Color.ofJson?)
  let bold ← Json.fieldOr (field "bold") false Json.boolean?
  let italic ← Json.fieldOr (field "italic") false Json.boolean?
  let underline ← Json.fieldOr (field "underline") false Json.boolean?
  return { foreground, background, bold, italic, underline }

/-- Writes a style.  A background that is not there is left out. -/
def toJson (style : Style) : Json :=
  .object
    ([(some "fg", style.foreground.toJson)]
      ++ (style.background.map fun color => (some "bg", color.toJson)).toList
      ++ [(some "bold", .boolean style.bold), (some "italic", .boolean style.italic),
        (some "underline", .boolean style.underline)])

end Style

namespace StyleTable

/-- Adds the styles of some members.  Each key names a kind; of repeated keys
the last one counts. -/
def ofMembers? (table : StyleTable) : List (Option String × Json) → Option StyleTable
  | [] => some table
  | (key, value) :: rest => do
      let kind ← key.bind TokenKind.ofKey?
      let style ← Style.ofJson? value
      ofMembers? (table.insert kind style) rest

/-- Reads a table of styles. -/
def ofJson? : Json → Option StyleTable
  | .object members => ofMembers? empty members
  | _ => none

/-- Writes a table of styles, in the order of the kinds. -/
def toJson (table : StyleTable) : Json :=
  .object (table.entries.map fun (kind, style) => (some kind.key, style.toJson))

end StyleTable

namespace Theme

/-- The fields of a theme, in order. -/
def fieldNames : List String :=
  ["name", "is_dark", "default_style", "styles"]

/-- Reads a theme. -/
def ofJson? (value : Json) : Option Theme := do
  let field ← Json.record? fieldNames value
  let name ← Json.fieldOr (field "name") dark.name Json.string?
  let isDark ← Json.fieldOr (field "is_dark") dark.isDark Json.boolean?
  let defaultStyle ← Json.fieldOr (field "default_style") dark.defaultStyle Style.ofJson?
  let styles ← Json.fieldOr (field "styles") dark.styles StyleTable.ofJson?
  return { name, isDark, defaultStyle, styles }

/-- Writes a theme. -/
def toJson (theme : Theme) : Json :=
  .object
    [(some "name", .string (some theme.name)), (some "is_dark", .boolean theme.isDark),
      (some "default_style", theme.defaultStyle.toJson), (some "styles", theme.styles.toJson)]

end Theme

end Highlight
