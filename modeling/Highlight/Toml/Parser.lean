import Highlight.Toml.Document
import Highlight.Toml.Number
import Highlight.Toml.Text

/-!
# Reading TOML

Values may nest, though not too deeply: the reader of values recurses on the
depth that is left.  A document is read line by line into statements, from
which its table is assembled.
-/

namespace Highlight.Toml

/-- A reader of values. -/
abbrev ValueReader := List Char → Option (Toml × List Char)

/-- The elements of an array through its closing bracket.  Blanks, line breaks
and comments may stand around them, and a comma after the last. -/
def readElements (read : ValueReader) : (fuel : Nat) → List Char → Option (List Toml × List Char)
  | 0, _ => none
  | fuel + 1, chars => do
      let chars ← skipTrivia false chars
      if chars.head? = some ']' then some ([], chars.drop 1)
      else
        let (value, chars) ← read chars
        let chars ← skipTrivia false chars
        match chars with
        | ']' :: after => some ([value], after)
        | ',' :: rest =>
            let (values, after) ← readElements read fuel rest
            some (value :: values, after)
        | _ => none

/-- A dotted key and its value, with blanks around. -/
def readAssignment (read : ValueReader) (chars : List Char) :
    Option ((List String × Toml) × List Char) := do
  let (path, chars) ← readPath chars
  let chars ← expect '=' chars
  let (value, chars) ← read (skipBlanks chars)
  some ((path, value), skipBlanks chars)

/-- The entries of an inline table through its closing brace. -/
def readEntries (read : ValueReader) :
    (fuel : Nat) → List Char → Option (List (List String × Toml) × List Char)
  | 0, _ => none
  | fuel + 1, chars => do
      let (entry, chars) ← readAssignment read chars
      match chars with
      | '\x7d' :: after => some ([entry], after)
      | ',' :: rest =>
          let (entries, after) ← readEntries read fuel rest
          some (entry :: entries, after)
      | _ => none

/-- An array, from behind its opening bracket. -/
def readArray (read : ValueReader) (chars : List Char) : Option (Toml × List Char) :=
  (readElements read (chars.length + 1) chars).map fun (elements, after) =>
    (.array elements, after)

/-- An inline table, from behind its opening brace. -/
def readInline (read : ValueReader) (chars : List Char) : Option (Toml × List Char) :=
  match skipBlanks chars with
  | '\x7d' :: after => some (.table [], after)
  | _ => do
      let (entries, after) ← readEntries read (chars.length + 1) chars
      some (← inlineTable? entries, after)

/-- A fixed word that stands for a value. -/
def readWord (word : String) (value : Toml) (chars : List Char) : Option (Toml × List Char) :=
  if word.toList.isPrefixOf chars then some (value, chars.drop word.length) else none

/-- A value that holds no others. -/
def readScalar (chars : List Char) : Option (Toml × List Char) :=
  match chars with
  | [] => none
  | char :: _ =>
      if char = '"' ∨ char = '\'' then
        (readString chars).map fun (text, after) => (.string text, after)
      else if char = 't' then readWord "true" (.boolean true) chars
      else if char = 'f' then readWord "false" (.boolean false) chars
      else readNumber chars

/-- A value in which arrays and inline tables nest no deeper than `depth`. -/
def readValue : (depth : Nat) → ValueReader
  | 0, chars =>
      if chars.head? = some '[' ∨ chars.head? = some '\x7b' then none else readScalar chars
  | depth + 1, chars =>
      match chars with
      | '[' :: rest => readArray (readValue depth) rest
      | '\x7b' :: rest => readInline (readValue depth) rest
      | _ => readScalar chars

/-- A header, from behind its first bracket. -/
def readHeader (chars : List Char) : Option (Statement × List Char) :=
  match chars with
  | '[' :: rest => do
      let (path, chars) ← readPath rest
      some (.element path, ← expect ']' (← expect ']' chars))
  | _ => do
      let (path, chars) ← readPath chars
      some (.table path, ← expect ']' chars)

/-- A statement, from its first character on. -/
def readStatement (chars : List Char) : Option (Statement × List Char) :=
  match chars with
  | '[' :: rest => readHeader rest
  | _ => (readAssignment (readValue (depthLimit - 1)) chars).map fun ((path, value), after) =>
      (.assign path value, after)

/-- The statements of a document, line by line. -/
def readStatements : (fuel : Nat) → List Char → Option (List Statement)
  | 0, _ => none
  | fuel + 1, chars => do
      match ← skipTrivia false chars with
      | [] => some []
      | start => do
          let (statement, chars) ← readStatement start
          let statements ← readStatements fuel (← endLine? chars)
          some (statement :: statements)

/-- The characters without a byte order mark. -/
def dropMark : List Char → List Char
  | [] => []
  | char :: rest => if char.toNat = 0xFEFF then rest else char :: rest

/-- Reads a document. -/
def parse? (text : String) : Option Toml :=
  (readStatements (text.length + 1) (dropMark text.toList)).bind Document.ofStatements?

end Highlight.Toml
