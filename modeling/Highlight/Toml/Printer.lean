/-!
# Writing TOML

Of the four sorts of strings the plainest one that needs no escapes is taken:
basic, literal, multi-line basic, multi-line literal.  If each would need some,
the string is basic, over several lines if it holds a newline.

A document is written by its layout, which is as deep as settings are: fields of a few
sorts, and tables of fields on two levels.
-/

namespace Highlight.Toml

/-- Control characters other than the tab and the newline, which every sort of
string would have to escape. -/
def needsEscape (char : Char) : Bool :=
  char.toNat != 0x09 && char.toNat != 0x0A && (char.toNat < 0x20 || char.toNat == 0x7F)

/-- Whether a character occurs `count` times in a row. -/
def hasRun (count : Nat) (char : Char) : List Char → Bool
  | [] => count == 0
  | first :: rest =>
      (List.replicate count char).isPrefixOf (first :: rest) || hasRun count char rest

/-- The last digits of an escaped control character. -/
def codeDigits (char : Char) : List Char :=
  [Nat.digitChar (char.toNat / 16), (Nat.digitChar (char.toNat % 16)).toUpper]

/-- A character in a basic string, apart from quotes and newlines. -/
def writeChar (char : Char) : List Char :=
  if char = '\\' then ['\\', '\\']
  else if char = '\x08' then ['\\', 'b']
  else if char = '\t' then ['\\', 't']
  else if char = '\x0c' then ['\\', 'f']
  else if char = '\r' then ['\\', 'r']
  else if needsEscape char then ['\\', 'u', '0', '0'] ++ codeDigits char
  else [char]

/-- The body of a basic string. -/
def basicBody (chars : List Char) : List Char :=
  chars.flatMap fun char =>
    if char = '"' then ['\\', '"']
    else if char = '\n' then ['\\', 'n']
    else writeChar char

/-- The body of a multi-line basic string.  `quotes` counts the quotes that
stand unescaped right before; a third one in a row is escaped. -/
def longBasicBody : (quotes : Nat) → List Char → List Char
  | _, [] => []
  | quotes, char :: rest =>
      if char = '"' then
        if quotes = 2 then '\\' :: '"' :: longBasicBody 0 rest
        else '"' :: longBasicBody (quotes + 1) rest
      else if char = '\n' then '\n' :: longBasicBody 0 rest
      else writeChar char ++ longBasicBody 0 rest

/-- A string between quotes of which there are three on each side.  If it holds
a newline it starts on a line of its own. -/
def long (quote : Char) (chars body : List Char) : List Char :=
  [quote, quote, quote] ++ (if chars.contains '\n' then ['\n'] else []) ++ body
    ++ [quote, quote, quote]

/-- A basic string. -/
def basic (chars : List Char) : List Char :=
  '"' :: (basicBody chars ++ ['"'])

/-- A literal string. -/
def literal (chars : List Char) : List Char :=
  '\'' :: (chars ++ ['\''])

/-- A string. -/
def writeString (text : String) : List Char :=
  let chars := text.toList
  let coded := chars.any needsEscape
  let broken := chars.contains '\n'
  let escaped := chars.contains '\\'
  if !coded && !escaped && !chars.contains '"' && !broken then basic chars
  else if !coded && !chars.contains '\'' && !broken then literal chars
  else if !coded && !escaped && !hasRun 3 '"' chars then long '"' chars (longBasicBody 0 chars)
  else if !coded && !hasRun 3 '\'' chars then long '\'' chars chars
  else if broken then long '"' chars (longBasicBody 0 chars)
  else basic chars

/-- A key: bare if it can be, else in the plainest quotes that need no
escapes. -/
def writeKey (key : String) : List Char :=
  let chars := key.toList
  let coded := chars.any fun char => needsEscape char || char == '\n'
  if !chars.isEmpty && chars.all (fun char => char.isAlphanum || char == '_' || char == '-') then
    chars
  else if !coded && !chars.contains '\\' && !chars.contains '"' then basic chars
  else if !coded && !chars.contains '\'' then literal chars
  else basic chars

/-- An array of strings.  Two or more elements take a line each. -/
def writeStrings : List String → List Char
  | [] => ['[', ']']
  | [text] => '[' :: (writeString text ++ [']'])
  | texts =>
      "[\n".toList
        ++ texts.flatMap (fun text => "    ".toList ++ writeString text ++ ",\n".toList) ++ [']']

/-- A truth value. -/
def writeBoolean (value : Bool) : List Char :=
  (if value then "true" else "false").toList

/-! ## Documents -/

/-- What stands behind a key: a text, a truth value or an array of texts. -/
inductive Field where
  | text (content : String)
  | boolean (value : Bool)
  | texts (contents : List String)

/-- Keys and what stands behind them, in order. -/
abbrev Fields := List (String × Field)

/-- What stands behind a key. -/
def Field.write : Field → List Char
  | text content => writeString content
  | boolean value => writeBoolean value
  | texts contents => writeStrings contents

/-- A line for each key. -/
def writeFields (fields : Fields) : List Char :=
  fields.flatMap fun (key, field) => writeKey key ++ " = ".toList ++ field.write ++ ['\n']

/-- Keys with dots between them. -/
def writePath : List String → List Char
  | [] => []
  | [key] => writeKey key
  | key :: next :: path => writeKey key ++ '.' :: writePath (next :: path)

/-- A table behind its header, which an empty line sets off. -/
def writeTable (path : List String) (fields : Fields) : List Char :=
  "\n[".toList ++ writePath path ++ "]\n".toList ++ writeFields fields

/-- How a document is laid out: fields, then tables, then tables inside a parent that
has no fields of its own. -/
structure Layout where
  fields : Fields
  tables : List (String × Fields)
  parent : String
  children : List (String × Fields)

namespace Layout

/-- The tables inside the parent.  It has a header only if there are none. -/
def writeChildren (layout : Layout) : List Char :=
  if layout.children.isEmpty then writeTable [layout.parent] []
  else layout.children.flatMap fun (name, fields) => writeTable [layout.parent, name] fields

/-- The text of a document. -/
def toText (layout : Layout) : String :=
  String.ofList
    (writeFields layout.fields
      ++ layout.tables.flatMap (fun (name, fields) => writeTable [name] fields)
      ++ layout.writeChildren)

end Layout

end Highlight.Toml
