import Highlight.Config.Basic
import Highlight.Grammar.Toml
import Highlight.Toml.Printer

/-!
# Settings as TOML

Every part of the settings may be left out and then has its default.  Writing
gives every part, so that reading it back needs no defaults.  Overrides can be
written in any order; by default it is that of their names.
-/

namespace Highlight

namespace OutputFormat

/-- Whether nothing is said beside the name of a format. -/
def isBare : Toml → Bool
  | .table entries => entries.isEmpty
  | .array elements => elements.isEmpty
  | _ => false

/-- Reads a format: its name, or a table whose one entry has the name and holds
nothing. -/
def ofToml? : Toml → Option OutputFormat
  | .string name => ofKey? name
  | .table [(name, content)] => if isBare content then ofKey? name else none
  | _ => none

end OutputFormat

namespace RenderConfig

/-- The fields of rendering settings, in order. -/
def fieldNames : List String :=
  ["format", "class_prefix", "inline_styles", "line_numbers", "true_color"]

/-- Reads rendering settings. -/
def ofToml? (value : Toml) : Option RenderConfig := do
  let field ← Toml.record? fieldNames value
  let missing : RenderConfig := {}
  let format ← Toml.fieldOr (field "format") missing.format OutputFormat.ofToml?
  let classPrefix ← Toml.fieldOr (field "class_prefix") missing.classPrefix Toml.string?
  let inlineStyles ← Toml.fieldOr (field "inline_styles") missing.inlineStyles Toml.boolean?
  let lineNumbers ← Toml.fieldOr (field "line_numbers") missing.lineNumbers Toml.boolean?
  let trueColor ← Toml.fieldOr (field "true_color") missing.trueColor Toml.boolean?
  return { format, classPrefix, inlineStyles, lineNumbers, trueColor }

/-- The fields that are written for rendering settings. -/
def fields (config : RenderConfig) : Toml.Fields :=
  [("format", .text config.format.key), ("class_prefix", .text config.classPrefix),
    ("inline_styles", .boolean config.inlineStyles), ("line_numbers", .boolean config.lineNumbers),
    ("true_color", .boolean config.trueColor)]

end RenderConfig

namespace ThemeConfig

/-- The fields of a theme choice, in order. -/
def fieldNames : List String :=
  ["name", "path"]

/-- Reads a theme choice. -/
def ofToml? (value : Toml) : Option ThemeConfig := do
  let field ← Toml.record? fieldNames value
  let missing : ThemeConfig := {}
  let name ← Toml.fieldOr (field "name") missing.name Toml.string?
  let path ← Toml.fieldOr (field "path") missing.path fun value => value.string?.map some
  return { name, path }

/-- The fields that are written for a theme choice.  A path that is not there is left
out. -/
def fields (config : ThemeConfig) : Toml.Fields :=
  ("name", .text config.name) :: (config.path.map fun path => ("path", .text path)).toList

end ThemeConfig

namespace Override

/-- The fields that are written for an override. -/
def fields (extra : Override) : Toml.Fields :=
  [("extensions", .texts extra.extensions), ("keywords", .texts extra.keywords),
    ("control", .texts extra.control), ("types", .texts extra.types),
    ("constants", .texts extra.constants), ("null_literals", .texts extra.nullLiterals)]

end Override

namespace OverrideMap

/-- Adds entries that are read one after the other. -/
def ofEntries? (map : OverrideMap) : List (String × Toml) → Option OverrideMap
  | [] => some map
  | (name, value) :: rest => do
      let extra ← Override.ofToml? value
      ofEntries? (map.insert name extra) rest

/-- Reads overrides by name. -/
def ofToml? : Toml → Option OverrideMap
  | .table entries => ofEntries? empty entries
  | _ => none

/-- The tables that are written for overrides. -/
def children (order : List (String × Override)) : List (String × Toml.Fields) :=
  order.map fun (name, extra) => (name, extra.fields)

end OverrideMap

namespace Config

/-- The fields of settings, in order. -/
def fieldNames : List String :=
  ["grammar_dirs", "theme", "render", "languages"]

/-- Reads settings. -/
def ofToml? (value : Toml) : Option Config := do
  let field ← Toml.record? fieldNames value
  let missing : Config := {}
  let grammarDirectories ←
    Toml.fieldOr (field "grammar_dirs") missing.grammarDirectories Toml.strings?
  let theme ← Toml.fieldOr (field "theme") missing.theme ThemeConfig.ofToml?
  let render ← Toml.fieldOr (field "render") missing.render RenderConfig.ofToml?
  let languages ← Toml.fieldOr (field "languages") missing.languages OverrideMap.ofToml?
  return { grammarDirectories, theme, render, languages }

/-- The layout of a settings file with the overrides in a given order. -/
def layout (config : Config) (order : List (String × Override)) : Toml.Layout where
  fields := [("grammar_dirs", .texts config.grammarDirectories)]
  tables := [("theme", config.theme.fields), ("render", config.render.fields)]
  parent := "languages"
  children := OverrideMap.children order

end Config

end Highlight
