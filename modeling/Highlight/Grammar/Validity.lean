import Highlight.Grammar.Basic
import Highlight.Text.Space

/-!
# Valid grammars

A grammar can be used when it has a name without white space, no empty marker,
operators of punctuation only and literal prefixes that are words.  The first
fault found is the one reported.
-/

namespace Highlight

/-- What is wrong with a grammar. -/
inductive GrammarFault where
  | emptyName
  | spaceInName
  | emptyLineComment
  | emptyBlockComment
  | emptyOperator
  | badOperator (operator : String)
  | badPrefix (text : String)
  deriving DecidableEq

namespace GrammarFault

/-- The wording of the fault. -/
def message : GrammarFault → String
  | emptyName => "name must not be empty"
  | spaceInName => "name must not contain whitespace"
  | emptyLineComment => "line comment marker is empty"
  | emptyBlockComment => "block comment markers must not be empty"
  | emptyOperator => "empty operator"
  | badOperator operator => "operator '" ++ operator ++ "' may only contain punctuation"
  | badPrefix text => "string prefix '" ++ text ++ "' must be an identifier"

end GrammarFault

namespace Grammar

/-- The bytes that no operator holds: space, letters, digits, the underscore
and quotes. -/
def isReserved (b : UInt8) : Bool :=
  b == 0x20 || b == 0x09 || b == Byte.newline || b == 0x0C || b == Byte.carriageReturn
    || Byte.isWord b || b == Byte.doubleQuote || b == Byte.apostrophe

/-- The fault of an operator. -/
def operatorFault? (operator : String) : Option GrammarFault :=
  if operator.isEmpty then some .emptyOperator
  else if (Utf8.bytes operator).any isReserved then some (.badOperator operator)
  else none

/-- The fault of a literal prefix. -/
def prefixFault? (text : String) : Option GrammarFault :=
  if text.isEmpty || !(Utf8.bytes text).all Byte.isWord then some (.badPrefix text) else none

/-- The fault of a name. -/
def nameFault? (name : String) : Option GrammarFault :=
  if (Text.trim name).isEmpty then some .emptyName
  else if name.toList.any Text.isWhiteSpace then some .spaceInName
  else none

/-- The fault of a line comment marker. -/
def lineCommentFault? (marker : Option String) : Option GrammarFault :=
  if marker = some "" then some .emptyLineComment else none

/-- The fault of block comment markers. -/
def blockCommentFault? (markers : Option BlockComment) : Option GrammarFault :=
  if markers.any fun pair => pair.opening.isEmpty || pair.closing.isEmpty then
    some .emptyBlockComment
  else none

/-- The first fault of a grammar. -/
def fault? (grammar : Grammar) : Option GrammarFault :=
  nameFault? grammar.name
    |>.or (lineCommentFault? grammar.lineComment)
    |>.or (blockCommentFault? grammar.blockComment)
    |>.or (grammar.operators.findSome? operatorFault?)
    |>.or (grammar.stringPrefixes.findSome? prefixFault?)

/-- A grammar that can be used. -/
def IsValid (grammar : Grammar) : Prop :=
  grammar.fault? = none

end Grammar

end Highlight
