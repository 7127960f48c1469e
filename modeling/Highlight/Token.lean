import Highlight.Offset
import Highlight.Text.Byte

/-!
# Tokens

A token is a kind and a half-open range of byte offsets.  A lexer produces
tokens that lie side by side, so the kinds of a token list colour every byte of
a text once.
-/

namespace Highlight

/-- What a token is, as far as highlighting cares. -/
inductive TokenKind where
  | whitespace
  | comment
  | preprocessor
  | string
  | char
  | number
  | boolean
  | null
  | keyword
  | control
  | typeName
  | functionName
  | scope
  | constant
  | identifier
  | operator
  | delimiter
  | separator
  | text
  | error
  deriving DecidableEq

namespace TokenKind

/-- Every kind, in declaration order. -/
def all : List TokenKind :=
  [whitespace, comment, preprocessor, string, char, number, boolean, null, keyword, control,
    typeName, functionName, scope, constant, identifier, operator, delimiter, separator, text,
    error]

/-- The name of a kind in theme files and style sheets. -/
def key : TokenKind → String
  | whitespace => "whitespace"
  | comment => "comment"
  | preprocessor => "preprocessor"
  | string => "string"
  | char => "char"
  | number => "number"
  | boolean => "boolean"
  | null => "null"
  | keyword => "keyword"
  | control => "keyword_control"
  | typeName => "type_name"
  | functionName => "function_name"
  | scope => "namespace"
  | constant => "constant"
  | identifier => "identifier"
  | operator => "operator"
  | delimiter => "delimiter"
  | separator => "separator"
  | text => "text"
  | error => "error"

/-- The kind with a given name. -/
def ofKey? (name : String) : Option TokenKind :=
  all.find? (·.key == name)

/-- Trivia carries no meaning: space and comments. -/
def isTrivia (kind : TokenKind) : Bool :=
  kind matches whitespace | comment

/-- Bytes that no rule of a grammar covers. -/
def isError (kind : TokenKind) : Bool :=
  kind matches error

/-- Reserved words of either sort. -/
def isKeyword (kind : TokenKind) : Bool :=
  kind matches keyword | control

/-- Literal values. -/
def isLiteral (kind : TokenKind) : Bool :=
  kind matches string | char | number | boolean | null

end TokenKind

/-- A kind and the byte range `start`, …, `stop - 1` it covers. -/
structure Token where
  kind : TokenKind
  start : Nat
  stop : Nat
  deriving DecidableEq

namespace Token

/-- The number of bytes covered. -/
def length (token : Token) : Nat :=
  token.stop - token.start

/-- A token that covers nothing. -/
def isEmpty (token : Token) : Bool :=
  token.start == token.stop

/-- The bytes of `text` that the token covers. -/
def slice (token : Token) (text : Bytes) : Bytes :=
  (text.drop token.start).take token.length

/-- An offset moved by `delta`.  Offsets are 64-bit words: one that would fall
below zero wraps around to the top of their range. -/
def moveOffset (offset : Nat) (delta : Int) : Nat :=
  if 0 ≤ (offset : Int) + delta then ((offset : Int) + delta).toNat
  else ((offset : Int) + delta + Offset.count).toNat

/-- The token moved by `delta` bytes. -/
def shift (token : Token) (delta : Int) : Token :=
  { token with
    start := moveOffset token.start delta
    stop := moveOffset token.stop delta }

end Token

end Highlight
