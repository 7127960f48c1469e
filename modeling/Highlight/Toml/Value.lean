/-!
# TOML values

Grammars and settings are TOML files.  Floats and dates are recognised but
never looked into, so they keep their spelling.
-/

namespace Highlight

/-- A TOML value.  The keys of a table are all different. -/
inductive Toml where
  | string (text : String)
  | integer (value : Int)
  | float (spelling : List Char)
  | boolean (value : Bool)
  | dateTime (spelling : List Char)
  | array (elements : List Toml)
  | table (entries : List (String × Toml))

namespace Toml

/-- The text, if it is a string. -/
def string? : Toml → Option String
  | string text => some text
  | _ => none

/-- The truth value, if it is one. -/
def boolean? : Toml → Option Bool
  | boolean value => some value
  | _ => none

/-- The texts, if it is an array of strings. -/
def strings? : Toml → Option (List String)
  | array elements => elements.mapM string?
  | _ => none

/-- The fields of a record, by name or by position.  A table holds them under
their names beside entries that are ignored; an array holds them in order, and
elements past the last field are ignored; a date holds none of them. -/
def record? (names : List String) : Toml → Option (String → Option Toml)
  | table entries => some fun name => entries.lookup name
  | array elements => some fun name => (names.zip elements).lookup name
  | dateTime _ => some fun _ => none
  | _ => none

/-- Reads a field that may be missing. -/
def fieldOr {α : Type} (field : Option Toml) (missing : α) (read : Toml → Option α) : Option α :=
  match field with
  | none => some missing
  | some value => read value

end Toml

end Highlight
