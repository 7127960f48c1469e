import Highlight.Text.Ascii
import Highlight.Text.Utf8
import Highlight.WordSet

/-!
# Grammars

A grammar is a table that describes a language of the C family: its words by
class, its comment markers, its operators, the prefixes of its literals and
three optional features.  It holds no scanning logic; the lexer reads a text
and consults the table.
-/

namespace Highlight

/-- The markers around a block comment. -/
structure BlockComment where
  opening : String
  closing : String
  deriving DecidableEq

/-- The class a grammar gives to a word. -/
inductive WordClass where
  | boolean
  | null
  | control
  | keyword
  | typeName
  deriving DecidableEq

/-- The description of a language of the C family. -/
structure Grammar where
  /-- The name under which the grammar is found. -/
  name : String
  /-- The file extensions it handles, without the dot. -/
  extensions : List String
  /-- Reserved words. -/
  keywords : WordSet
  /-- Reserved words that steer control flow. -/
  control : WordSet
  /-- Names of types. -/
  types : WordSet
  /-- Boolean literals. -/
  constants : WordSet
  /-- Null literals. -/
  nullLiterals : WordSet
  /-- The marker that turns the rest of a line into a comment. -/
  lineComment : Option String
  /-- The markers around a block comment. -/
  blockComment : Option BlockComment
  /-- Operators, apart from brackets, the comma and the semicolon. -/
  operators : List String
  /-- The prefixes that may stand before a quote. -/
  stringPrefixes : List String
  /-- Whether `#` opens a directive at the start of a line. -/
  preprocessor : Bool
  /-- Whether raw strings with a chosen delimiter are read. -/
  rawStrings : Bool
  /-- Whether an apostrophe may stand between two digits. -/
  digitSeparators : Bool
  deriving DecidableEq

namespace Grammar

/-- The operators of C. -/
def commonOperators : List String :=
  ["...", "<<=", ">>=", "->", "++", "--", "<<", ">>", "<=", ">=", "==", "!=", "&&", "||", "+=",
    "-=", "*=", "/=", "%=", "&=", "|=", "^=", "##", "+", "-", "*", "/", "%", "=", "<", ">", "!",
    "~", "&", "|", "^", "?", ":", ".", "#"]

/-- The table that a description starts from: comments and operators of C, no
name, no words and no optional feature. -/
def base : Grammar where
  name := ""
  extensions := []
  keywords := .empty
  control := .empty
  types := .empty
  constants := .empty
  nullLiterals := .empty
  lineComment := some "//"
  blockComment := some ⟨"/*", "*/"⟩
  operators := commonOperators
  stringPrefixes := []
  preprocessor := false
  rawStrings := false
  digitSeparators := false

/-- The class of a word.  A word listed more than once takes the first of:
boolean, null, control, keyword, type. -/
def classify? (grammar : Grammar) (word : String) : Option WordClass :=
  if grammar.constants.contains word then some .boolean
  else if grammar.nullLiterals.contains word then some .null
  else if grammar.control.contains word then some .control
  else if grammar.keywords.contains word then some .keyword
  else if grammar.types.contains word then some .typeName
  else none

/-- The length in bytes of the longest of some texts that starts `rest`.  An
empty text never counts. -/
def longestMatch? (texts : List String) (rest : Bytes) : Option Nat :=
  (((texts.map Utf8.bytes).filter
    fun text => !text.isEmpty && text.isPrefixOf rest).map List.length).max?

/-- The length of the longest operator at the front. -/
def operatorLength? (grammar : Grammar) (rest : Bytes) : Option Nat :=
  longestMatch? grammar.operators rest

/-- The length of the longest literal prefix at the front. -/
def stringPrefixLength? (grammar : Grammar) (rest : Bytes) : Option Nat :=
  longestMatch? grammar.stringPrefixes rest

/-- Whether the grammar handles an extension, in either case. -/
def handles (grammar : Grammar) (extension : String) : Bool :=
  grammar.extensions.any (Ascii.sameLetters · extension)

end Grammar

end Highlight
