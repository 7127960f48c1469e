/-!
# JSON values

Theme files are JSON.  A JSON string can spell half of a surrogate pair by an
escape, and then spells no text; its text is absent.
-/

namespace Highlight

/-- A JSON value.  The members of an object stand as they are written, repeated
keys included; a number keeps its spelling. -/
inductive Json where
  | null
  | boolean (value : Bool)
  | number (spelling : List Char)
  | string (text : Option String)
  | array (elements : List Json)
  | object (members : List (Option String × Json))

namespace Json

/-- The truth value, if it is one. -/
def boolean? : Json → Option Bool
  | boolean value => some value
  | _ => none

/-- The text, if it is a string that spells one. -/
def string? : Json → Option String
  | string text => text
  | _ => none

/-- The value of a member, for a key that must not be repeated.  The outer
option is absent if the key is repeated. -/
def member? (members : List (Option String × Json)) (key : String) : Option (Option Json) :=
  match members.filter fun member => member.1 == some key with
  | [] => some none
  | [member] => some (some member.2)
  | _ => none

/-- The fields of a record, by name or by position.  An object holds them under
their names, each at most once, beside members that are ignored; an array holds
them in order and may be shorter, but not longer. -/
def record? (names : List String) : Json → Option (String → Option Json)
  | object members => do
      if members.any fun member => member.1.isNone then none
      else
        let fields ← names.mapM fun name => (member? members name).map fun value => (name, value)
        some fun name => (fields.lookup name).join
  | array elements =>
      if names.length < elements.length then none
      else some fun name => (names.zip elements).lookup name
  | _ => none

end Json

end Highlight
