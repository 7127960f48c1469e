import Highlight.Lexer.Basic

/-!
# Scanning with checked access

A cursor is an offset into a text.  The scanner of this file moves a cursor
over an indexed text and takes slices of it, and fails as soon as it reads an
index or takes a slice that is not there, or finds a lexeme without bytes.  It
differs from the lexer of the library in nothing else: looking at the byte under
the cursor, if there is one, cannot fail, and loops that do only that are shared
with it.

A rule gives `none` for an access out of range, and `some none` where it does
not apply.
-/

namespace Highlight.Cursor

/-! ## Checked slices -/

section Slices

variable {α : Type}

/-- The items from an offset on, unless the offset lies past the end. -/
def drop? (items : List α) (offset : Nat) : Option (List α) :=
  if offset ≤ items.length then some (items.drop offset) else none

/-- The items before an offset, unless the offset lies past the end. -/
def take? (items : List α) (offset : Nat) : Option (List α) :=
  if offset ≤ items.length then some (items.take offset) else none

/-- The items from one offset to another, unless the offsets are out of order
or one lies past the end. -/
def slice? (items : List α) (start stop : Nat) : Option (List α) :=
  if start ≤ stop ∧ stop ≤ items.length then some ((items.take stop).drop start) else none

end Slices

/-! ## Rules -/

/-- A backslash that joins two lines. -/
def lineJoin? (text : Bytes) (place : Nat) (b : UInt8) : Option (Option Lexeme) :=
  if b = Byte.backslash then do
    let rest ← drop? text (place + 1)
    return (Bytes.lineBreakLength? rest).map fun length => ⟨.whitespace, 1 + length⟩
  else some none

/-- The length of a line comment behind its marker.  `ahead` are the bytes from
the cursor on; at a newline the text before the cursor is sliced off to see
whether the newline is escaped. -/
def lineCommentTail? (text : Bytes) : (place : Nat) → (ahead : Bytes) → Option Nat
  | _, [] => some 0
  | place, b :: ahead =>
      if b = Byte.newline then do
        let before ← take? text place
        if Lexeme.isEscapedBreak before.reverse then
          return 1 + (← lineCommentTail? text (place + 1) ahead)
        else return 0
      else return 1 + (← lineCommentTail? text (place + 1) ahead)

/-- A line comment. -/
def lineComment? (grammar : Grammar) (text : Bytes) (place : Nat) : Option (Option Lexeme) :=
  match grammar.lineComment with
  | none => some none
  | some marker => do
      let marker := Utf8.bytes marker
      let rest ← drop? text place
      if !marker.isEmpty && marker.isPrefixOf rest then
        let behind := place + marker.length
        let tail ← lineCommentTail? text behind (text.drop behind)
        return some ⟨.comment, marker.length + tail⟩
      else return none

/-- A block comment. -/
def blockComment? (grammar : Grammar) (text : Bytes) (place : Nat) : Option (Option Lexeme) :=
  match grammar.blockComment with
  | none => some none
  | some markers => do
      let opening := Utf8.bytes markers.opening
      let rest ← drop? text place
      if !opening.isEmpty && opening.isPrefixOf rest then
        let body ← drop? text (place + opening.length)
        let tail := Lexeme.blockCommentTail (Utf8.bytes markers.closing) body
        return some ⟨.comment, opening.length + tail⟩
      else return none

/-- A directive. -/
def directive? (grammar : Grammar) (text : Bytes) (place : Nat) (b : UInt8) :
    Option (Option Lexeme) :=
  if grammar.preprocessor && b == Byte.hash then do
    let before ← take? text place
    if Lexeme.atLineStart before.reverse then
      return some ⟨.preprocessor, 1 + Lexeme.directiveTail (text.drop (place + 1))⟩
    else return none
  else some none

/-- Drops the blanks on both sides, by the offsets of the first and the last
byte that is none. -/
def trimBlanks? (bytes : Bytes) : Option Bytes :=
  let start := (bytes.takeWhile Byte.isBlank).length
  let stop :=
    if bytes.all Byte.isBlank then start
    else bytes.length - (bytes.reverse.takeWhile Byte.isBlank).length
  slice? bytes start stop

/-- Whether the line up to the cursor holds nothing but an include directive. -/
def isIncludeLine? (text : Bytes) (place : Nat) : Option Bool := do
  let before ← take? text place
  let lineStart := place - (before.reverse.takeWhile (· != Byte.newline)).length
  let line ← trimBlanks? (← slice? text lineStart place)
  match line with
  | [] => return false
  | b :: directive =>
      if b == Byte.hash then
        return Lexeme.includeDirectives.contains (← trimBlanks? directive)
      else return false

/-- A header name after an include directive. -/
def header? (grammar : Grammar) (text : Bytes) (place : Nat) (b : UInt8) :
    Option (Option Lexeme) :=
  if grammar.preprocessor && b == Byte.lessThan then do
    if ← isIncludeLine? text place then
      return some ⟨.string, 1 + Lexeme.headerTail (text.drop (place + 1))⟩
    else return none
  else some none

/-- The offset at which a quoted literal ends, from an offset inside it. -/
def quotedStop? (quote : UInt8) (text : Bytes) (place : Nat) : Option Nat :=
  if inside : place < text.length then
    let b := text[place]
    if b = Byte.backslash then do
      let rest ← drop? text (place + 1)
      let moved := place + 1 + (Bytes.lineBreakLength? rest).getD 1
      quotedStop? quote text (min moved text.length)
    else if b = Byte.newline then some place
    else if b = quote then some (place + 1)
    else quotedStop? quote text (place + 1)
  else some place
termination_by text.length - place

/-- A quoted literal that opens at the cursor with `b`. -/
def quoted? (text : Bytes) (place : Nat) (b : UInt8) : Option (Option Lexeme) :=
  match Lexeme.quoteKind? b with
  | none => some none
  | some kind => do
      let stop ← quotedStop? b text (place + 1)
      return some ⟨kind, stop - place⟩

/-- The length of a raw string behind its opening quote. -/
def rawTail? (text : Bytes) (place : Nat) : Option (Option Nat) := do
  let rest ← drop? text place
  match (rest.take (Lexeme.maxRawDelimiter + 1)).findIdx? (!Lexeme.isRawDelimiter ·) with
  | none => return none
  | some opening =>
      if (← rest[opening]?) = Byte.openParen then
        let delimiter ← take? rest opening
        let body ← drop? text (place + opening + 1)
        let closing := Byte.closeParen :: (delimiter ++ [Byte.doubleQuote])
        return some (opening + 1 + Lexeme.blockCommentTail closing body)
      else return none

/-- A word without regard to literals. -/
def bareWord? (grammar : Grammar) (text : Bytes) (place : Nat) : Option Lexeme := do
  let length := ((text.drop place).takeWhile Byte.isWord).length
  let word ← slice? text place (place + length)
  let blanks := ((text.drop (place + length)).takeWhile Byte.isBlank).length
  let after ← drop? text (place + length + blanks)
  return ⟨Lexeme.wordKind grammar word after, length⟩

/-- A raw string, with or without an encoding prefix. -/
def rawString? (grammar : Grammar) (text : Bytes) (place : Nat) : Option (Option Lexeme) := do
  let rest ← drop? text place
  let opening := Lexeme.prefixLength grammar rest
  let behind ← drop? rest opening
  if grammar.rawStrings && [0x52, Byte.doubleQuote].isPrefixOf behind then
    return (← rawTail? text (place + opening + 2)).map fun tail => ⟨.string, opening + 2 + tail⟩
  else return none

/-- A quoted literal with an encoding prefix. -/
def prefixedQuoted? (grammar : Grammar) (text : Bytes) (place : Nat) : Option (Option Lexeme) := do
  let rest ← drop? text place
  let opening := Lexeme.prefixLength grammar rest
  if opening = 0 then return none
  else
    match text[place + opening]? with
    | none => return none
    | some b =>
        return (← quoted? text (place + opening) b).map fun literal =>
          ⟨literal.kind, opening + literal.length⟩

/-- Whatever starts with a letter or an underscore. -/
def word? (grammar : Grammar) (text : Bytes) (place : Nat) (b : UInt8) : Option (Option Lexeme) :=
  if Byte.isWordStart b then do
    match ← rawString? grammar text place with
    | some literal => return some literal
    | none =>
        match ← prefixedQuoted? grammar text place with
        | some literal => return some literal
        | none => return some (← bareWord? grammar text place)
  else some none

/-- The longest operator. -/
def operator? (grammar : Grammar) (text : Bytes) (place : Nat) : Option (Option Lexeme) := do
  let rest ← drop? text place
  return Lexeme.operator? grammar rest

/-! ## The scanner -/

/-- The second rule where the first does not apply. -/
def orElse (first second : Option (Option Lexeme)) : Option (Option Lexeme) := do
  match ← first with
  | some found => return some found
  | none => second

/-- The lexeme at the cursor by a grammar. -/
def read? (grammar : Grammar) (text : Bytes) (place : Nat) : Option Lexeme := do
  let b ← text[place]?
  let ahead := text.drop place
  let found ← orElse (some (Lexeme.space? ahead)) <|
    orElse (lineJoin? text place b) <|
    orElse (lineComment? grammar text place) <|
    orElse (blockComment? grammar text place) <|
    orElse (directive? grammar text place b) <|
    orElse (header? grammar text place b) <|
    orElse (quoted? text place b) <|
    orElse (some (Lexeme.numeral? grammar ahead)) <|
    orElse (word? grammar text place b) <|
    orElse (some (Lexeme.bracket? ahead)) (operator? grammar text place)
  match found with
  | some found => return found
  | none => return Lexeme.unknown (← drop? text place)

/-- The lexeme at the cursor. -/
def lexeme? : Lexer → (text : Bytes) → (place : Nat) → Option Lexeme
  | .plain, text, place => (drop? text place).map Lexeme.line
  | .table grammar, text, place => read? grammar text place

/-- The tokens from the cursor on.  There are none if an access is out of range
or a lexeme has no bytes. -/
def tokensFrom? (lexer : Lexer) (text : Bytes) (place : Nat) : Option (List Token) :=
  if place < text.length then do
    let found ← lexeme? lexer text place
    if 0 < found.length then
      let others ← tokensFrom? lexer text (place + found.length)
      return ⟨found.kind, place, place + found.length⟩ :: others
    else none
  else some []
termination_by text.length - place

end Highlight.Cursor
