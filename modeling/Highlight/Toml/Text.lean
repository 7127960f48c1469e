import Highlight.Text.Hex

/-!
# Blanks, comments and strings of TOML

The lexical part of the format.  Each reader takes the characters from one
place on and gives what it read and the characters after it, or nothing.
-/

namespace Highlight.Toml

/-- The characters that may stand between the parts of a line. -/
def isBlank (char : Char) : Bool :=
  char == ' ' || char == '\t'

/-- The characters without the blanks in front. -/
def skipBlanks (chars : List Char) : List Char :=
  chars.dropWhile isBlank

/-- The characters after a line break: a newline, or a carriage return and a
newline. -/
def lineBreak? : List Char → Option (List Char)
  | '\n' :: rest => some rest
  | '\r' :: '\n' :: rest => some rest
  | _ => none

/-- The characters that may stand in a comment: all but control characters, of
which only the tab may. -/
def isCommentChar (char : Char) : Bool :=
  char == '\t' || (0x20 ≤ char.toNat && char.toNat != 0x7F)

/-- The characters after a comment, if there is one. -/
def skipComment : List Char → List Char
  | '#' :: rest => rest.dropWhile isCommentChar
  | chars => chars

/-- The characters of the next line, if nothing but blanks and a comment is
left of this one. -/
def endLine? (chars : List Char) : Option (List Char) :=
  match skipComment (skipBlanks chars) with
  | [] => some []
  | rest => lineBreak? rest

/-- The characters after blanks, line breaks and comments.  There are none if a
comment or a line break is malformed. -/
def skipTrivia : (inComment : Bool) → List Char → Option (List Char)
  | _, [] => some []
  | inComment, char :: rest =>
      if char = '\n' then skipTrivia false rest
      else if char = '\r' then
        if rest.head? = some '\n' then skipTrivia false rest else none
      else if inComment then
        if isCommentChar char then skipTrivia true rest else none
      else if isBlank char then skipTrivia false rest
      else if char = '#' then skipTrivia true rest
      else some (char :: rest)

/-! ## Strings -/

/-- The character whose code some hexadecimal digits spell. -/
def codedChar? (digits : List Char) : Option Char := do
  let code ← Hex.number? digits
  if Nat.isValidChar code then some (Char.ofNat code) else none

/-- The character that a one-letter escape stands for. -/
def escape? (char : Char) : Option Char :=
  if char = '"' ∨ char = '\\' then some char
  else if char = 'b' then some '\x08'
  else if char = 'f' then some '\x0c'
  else if char = 'n' then some '\n'
  else if char = 'r' then some '\r'
  else if char = 't' then some '\t'
  else none

/-- The character that an escape stands for and the characters after it, from
behind the backslash. -/
def readEscape : List Char → Option (Char × List Char)
  | [] => none
  | letter :: rest =>
      if letter = 'u' then
        if 4 ≤ rest.length then (codedChar? (rest.take 4)).map (·, rest.drop 4) else none
      else if letter = 'U' then
        if 8 ≤ rest.length then (codedChar? (rest.take 8)).map (·, rest.drop 8) else none
      else (escape? letter).map (·, rest)

/-- Puts a character before what was read. -/
def before (char : Char) (read : Option (List Char × List Char)) :
    Option (List Char × List Char) :=
  read.map fun (body, after) => (char :: body, after)

/-- The body of a basic string through its closing quote.  `pending` counts the
characters that belong to the escape read last. -/
def readBasic : (pending : Nat) → List Char → Option (List Char × List Char)
  | _, [] => none
  | pending + 1, _ :: rest => readBasic pending rest
  | 0, char :: rest =>
      if char = '"' then some ([], rest)
      else if char = '\\' then
        match readEscape rest with
        | none => none
        | some (meant, after) => before meant (readBasic (rest.length - after.length) rest)
      else if isCommentChar char then before char (readBasic 0 rest)
      else none

/-- What follows three closing quotes: up to two more belong to the body. -/
def closing (quote : Char) (rest : List Char) : List Char × List Char :=
  let extra := (rest.take 2).takeWhile (· == quote)
  (extra, rest.drop extra.length)

/-- Whether a backslash is followed by nothing but blanks on its line. -/
def endsLine (rest : List Char) : Bool :=
  (lineBreak? (skipBlanks rest)).isSome

/-- The body of a multi-line basic string through its closing quotes.
`skipping` drops blanks and line breaks after a backslash that ends its line. -/
def readLongBasic : (skipping : Bool) → (pending : Nat) → List Char →
    Option (List Char × List Char)
  | _, _, [] => none
  | skipping, pending + 1, _ :: rest => readLongBasic skipping pending rest
  | skipping, 0, char :: rest =>
      if skipping && (isBlank char || char == '\n') then readLongBasic true 0 rest
      else if char = '\r' then
        if rest.head? ≠ some '\n' then none
        else if skipping then readLongBasic true 0 rest
        else readLongBasic false 0 rest
      else if char = '"' then
        if ['"', '"'].isPrefixOf rest then some (closing '"' (rest.drop 2))
        else before '"' (readLongBasic false 0 rest)
      else if char = '\\' then
        if endsLine rest then readLongBasic true 0 rest
        else
          match readEscape rest with
          | none => none
          | some (meant, after) =>
              before meant (readLongBasic false (rest.length - after.length) rest)
      else if char = '\n' || isCommentChar char then before char (readLongBasic false 0 rest)
      else none

/-- The body of a literal string through its closing quote. -/
def readLiteral : List Char → Option (List Char × List Char)
  | [] => none
  | char :: rest =>
      if char = '\'' then some ([], rest)
      else if isCommentChar char then before char (readLiteral rest)
      else none

/-- The body of a multi-line literal string through its closing quotes. -/
def readLongLiteral : List Char → Option (List Char × List Char)
  | [] => none
  | char :: rest =>
      if char = '\'' then
        if ['\'', '\''].isPrefixOf rest then some (closing '\'' (rest.drop 2))
        else before '\'' (readLongLiteral rest)
      else if char = '\r' then
        if rest.head? = some '\n' then readLongLiteral rest else none
      else if char = '\n' || isCommentChar char then before char (readLongLiteral rest)
      else none

/-- The characters after a line break that directly follows opening quotes. -/
def dropFirstBreak (chars : List Char) : List Char :=
  (lineBreak? chars).getD chars

/-- A string of any of the four sorts, from its first quote on. -/
def readString (chars : List Char) : Option (String × List Char) :=
  let read :=
    if "\"\"\"".toList.isPrefixOf chars then readLongBasic false 0 (dropFirstBreak (chars.drop 3))
    else if "'''".toList.isPrefixOf chars then readLongLiteral (dropFirstBreak (chars.drop 3))
    else if chars.head? = some '"' then readBasic 0 (chars.drop 1)
    else if chars.head? = some '\'' then readLiteral (chars.drop 1)
    else none
  read.map fun (body, after) => (String.ofList body, after)

/-! ## Keys -/

/-- The characters of a key without quotes. -/
def isBareKeyChar (char : Char) : Bool :=
  char.isAlphanum || char == '_' || char == '-'

/-- One key, with or without quotes. -/
def readKey (chars : List Char) : Option (String × List Char) :=
  match chars with
  | [] => none
  | char :: rest =>
      if char = '"' then
        (readBasic 0 rest).map fun (body, after) => (String.ofList body, after)
      else if char = '\'' then
        (readLiteral rest).map fun (body, after) => (String.ofList body, after)
      else
        let bare := chars.takeWhile isBareKeyChar
        if bare.isEmpty then none
        else some (String.ofList bare, chars.dropWhile isBareKeyChar)

/-- Keys divided by dots, with blanks around them. -/
def readDotted : (fuel : Nat) → List Char → Option (List String × List Char)
  | 0, _ => none
  | fuel + 1, chars => do
      let (key, chars) ← readKey (skipBlanks chars)
      match skipBlanks chars with
      | '.' :: rest =>
          let (keys, after) ← readDotted fuel rest
          some (key :: keys, after)
      | after => some ([key], after)

/-- How deep values may nest, and how many parts a key may have. -/
def depthLimit : Nat := 80

/-- A key path.  A path of `depthLimit` parts is too long. -/
def readPath (chars : List Char) : Option (List String × List Char) := do
  let (keys, after) ← readDotted (chars.length + 1) chars
  if keys.length < depthLimit then some (keys, after) else none

end Highlight.Toml
