import Highlight.Grammar.Override
import Highlight.Render.Ansi
import Highlight.Render.Html

/-!
# Settings

What a user can set: where to look for grammars, which theme to take, how to
render, and additions to grammars by name.
-/

namespace Highlight

/-- The formats of output. -/
inductive OutputFormat where
  | html
  | ansi
  deriving DecidableEq

namespace OutputFormat

/-- Every format. -/
def all : List OutputFormat :=
  [html, ansi]

/-- The name of a format. -/
def key : OutputFormat → String
  | html => "html"
  | ansi => "ansi"

/-- The format with a given name. -/
def ofKey? (name : String) : Option OutputFormat :=
  all.find? (·.key == name)

end OutputFormat

/-- How to render. -/
structure RenderConfig where
  format : OutputFormat := .html
  classPrefix : String := "tg-"
  inlineStyles : Bool := false
  lineNumbers : Bool := false
  trueColor : Bool := true
  deriving DecidableEq

namespace RenderConfig

/-- The settings of HTML output. -/
def html (config : RenderConfig) : Html where
  classPrefix := config.classPrefix
  inlineStyles := config.inlineStyles
  lineNumbers := config.lineNumbers

/-- The settings of terminal output. -/
def ansi (config : RenderConfig) : Ansi where
  trueColor := config.trueColor

end RenderConfig

/-- Which theme to take: the file if there is one, else the built-in theme. -/
structure ThemeConfig where
  name : String := "dark"
  path : Option String := none
  deriving DecidableEq

/-- Overrides by the name of their grammar, in strictly increasing order of the
names, so that maps with the same entries are equal. -/
structure OverrideMap where
  entries : List (String × Override)
  increasing : Ordered.Increasing Prod.fst entries
  deriving DecidableEq

namespace OverrideMap

/-- The map without entries. -/
def empty : OverrideMap :=
  ⟨[], List.Pairwise.nil⟩

/-- Adds an entry, instead of one under the same name. -/
def insert (map : OverrideMap) (name : String) (extra : Override) : OverrideMap :=
  ⟨Ordered.insert Prod.fst (name, extra) map.entries, Ordered.increasing_insert map.increasing⟩

end OverrideMap

/-- All settings. -/
structure Config where
  /-- Directories whose grammar files are loaded. -/
  grammarDirectories : List String := []
  theme : ThemeConfig := {}
  render : RenderConfig := {}
  /-- Additions to grammars. -/
  languages : OverrideMap := .empty
  deriving DecidableEq

end Highlight
