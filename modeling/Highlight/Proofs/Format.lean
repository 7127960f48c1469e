import Highlight.Format
import Highlight.Proofs.Json.RoundTrip
import Highlight.Proofs.Toml.Layout

/-!
# Formats that read back what they print

A saved file is loaded again because of one law of its format: what is printed of a value
is read as that value.  `Codec` is a format with this law, for the values that it admits.
What is shown of saved files holds for every codec.  JSON is one for values of texts,
truth values and objects, and TOML is one for layouts that give no key twice.
-/

namespace Highlight

/-- A format that reads back what it prints of the sources that it admits. -/
structure Codec {α β : Type} (Admits : α → Prop) (value : α → β) extends Format α β where
  parse?_print : ∀ {source : α}, Admits source → parse? (print source) = some (value source)

/-- JSON as a codec. -/
def Json.codec : Codec Json.Plain id where
  toFormat := format
  parse?_print := parse?_toText

/-- TOML as a codec. -/
def Toml.codec : Codec Toml.Layout.Distinct Toml.Layout.value where
  toFormat := format
  parse?_print := Layout.parse?_toText

end Highlight
