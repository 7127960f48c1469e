import Highlight.Json.Value

/-!
# Writing JSON

Values are written over several lines, each level indented by two more spaces;
an empty array or object takes no line of its own.  Only quotes, backslashes
and control characters are escaped.
-/

namespace Highlight.Json

/-- A character of a string as it is written. -/
def writeChar (char : Char) : List Char :=
  if char = '"' then ['\\', '"']
  else if char = '\\' then ['\\', '\\']
  else if char = '\x08' then ['\\', 'b']
  else if char = '\x0c' then ['\\', 'f']
  else if char = '\n' then ['\\', 'n']
  else if char = '\r' then ['\\', 'r']
  else if char = '\t' then ['\\', 't']
  else if char.toNat < 0x20 then
    ['\\', 'u', '0', '0', Nat.digitChar (char.toNat / 16), Nat.digitChar (char.toNat % 16)]
  else [char]

/-- A string.  One without a text is written as half of a surrogate pair. -/
def writeString : Option String → List Char
  | some text => '"' :: (text.toList.flatMap writeChar ++ ['"'])
  | none => "\"\\ud800\"".toList

/-- A new line at a level of indentation. -/
def newLine (level : Nat) : List Char :=
  '\n' :: List.replicate (2 * level) ' '

mutual

/-- A value at a level of indentation. -/
def write (level : Nat) : Json → List Char
  | null => "null".toList
  | boolean value => (if value then "true" else "false").toList
  | number spelling => spelling
  | string text => writeString text
  | array [] => "[]".toList
  | array (first :: rest) =>
      '[' :: newLine (level + 1) ++ write (level + 1) first ++ writeElements (level + 1) rest
        ++ newLine level ++ [']']
  | object [] => "\x7b\x7d".toList
  | object ((key, value) :: rest) =>
      '\x7b' :: newLine (level + 1) ++ writeString key ++ ": ".toList ++ write (level + 1) value
        ++ writeMembers (level + 1) rest ++ newLine level ++ ['\x7d']

/-- The elements after the first. -/
def writeElements (level : Nat) : List Json → List Char
  | [] => []
  | value :: rest => ',' :: newLine level ++ write level value ++ writeElements level rest

/-- The members after the first. -/
def writeMembers (level : Nat) : List (Option String × Json) → List Char
  | [] => []
  | (key, value) :: rest =>
      ',' :: newLine level ++ writeString key ++ ": ".toList ++ write level value
        ++ writeMembers level rest

end

/-- The text of a value. -/
def toText (value : Json) : String :=
  String.ofList (write 0 value)

end Highlight.Json
