import Highlight.Json.Parser
import Highlight.Json.Printer
import Highlight.Toml.Parser
import Highlight.Toml.Printer

/-!
# Text formats

Themes are written as JSON and settings as TOML.  Which values they are written as, and
how they are taken from the values that are read, does not depend on how these values
are spelled.  So a format is given to the functions that load and save.
-/

namespace Highlight

/-- A text format: how a value is printed, and how one is read from a text. -/
structure Format (α β : Type) where
  print : α → String
  parse? : String → Option β

/-- JSON, printed and read as values. -/
def Json.format : Format Json Json where
  print := toText
  parse? := parse?

/-- TOML, printed by layouts and read as values. -/
def Toml.format : Format Toml.Layout Toml where
  print := Layout.toText
  parse? := parse?

end Highlight
