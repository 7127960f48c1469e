import Highlight.Grammar.Basic
import Highlight.Lexer.Lexeme

/-!
# Directives and header names

A `#` that only blanks separate from the start of its line opens a directive,
which takes in the blanks and the word after it.  After an include directive a
`<` opens a header name.  Both rules look back no further than the start of the
line.
-/

namespace Highlight.Lexeme

/-- Whether only blanks stand between the start of the line and the place after
the reversed bytes `before`. -/
def atLineStart (before : Bytes) : Bool :=
  match (before.dropWhile Byte.isBlank).head? with
  | none => true
  | some b => b == Byte.newline

/-- The bytes of the line so far, from the reversed bytes `before`. -/
def lineSoFar (before : Bytes) : Bytes :=
  (before.takeWhile (· != Byte.newline)).reverse

/-- The directives that a header name may follow. -/
def includeDirectives : List Bytes :=
  ["include", "include_next", "import"].map Utf8.bytes

/-- Whether a line holds nothing but an include directive. -/
def isIncludeLine (line : Bytes) : Bool :=
  match Bytes.trimBlanks line with
  | [] => false
  | b :: directive =>
      b == Byte.hash && includeDirectives.contains (Bytes.trimBlanks directive)

/-- The number of bytes after a `#` that belong to its directive: blanks and a
word, or nothing if no word comes. -/
def directiveTail (rest : Bytes) : Nat :=
  let word := rest.dropWhile Byte.isBlank
  if word.head?.any Byte.isWordStart then
    (rest.takeWhile Byte.isBlank).length + (word.takeWhile Byte.isWord).length
  else 0

/-- A directive. -/
def directive? (grammar : Grammar) (before : Bytes) : Bytes → Option Lexeme
  | [] => none
  | b :: rest =>
      if grammar.preprocessor && b == Byte.hash && atLineStart before then
        some ⟨.preprocessor, 1 + directiveTail rest⟩
      else none

/-- The number of bytes through the `>` that closes a header name, or up to the
end of the line. -/
def headerTail : Bytes → Nat
  | [] => 0
  | b :: rest =>
      if b = Byte.newline then 0
      else if b = Byte.greaterThan then 1
      else 1 + headerTail rest

/-- A header name after an include directive. -/
def header? (grammar : Grammar) (before : Bytes) : Bytes → Option Lexeme
  | [] => none
  | b :: rest =>
      if grammar.preprocessor && b == Byte.lessThan && isIncludeLine (lineSoFar before) then
        some ⟨.string, 1 + headerTail rest⟩
      else none

end Highlight.Lexeme
