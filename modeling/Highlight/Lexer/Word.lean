import Highlight.Grammar.Basic
import Highlight.Lexer.Quoted

/-!
# Words and prefixed literals

A word is a run of letters, digits and underscores.  Where one starts, a raw
string or a prefixed literal comes first.  A word that the grammar does not
list is told apart by what follows it and by its spelling.
-/

namespace Highlight.Lexeme

/-- The length of the literal prefix at the front, `0` without one. -/
def prefixLength (grammar : Grammar) (rest : Bytes) : Nat :=
  (grammar.stringPrefixLength? rest).getD 0

/-- A raw string, with or without an encoding prefix. -/
def rawString? (grammar : Grammar) (rest : Bytes) : Option Lexeme :=
  let opening := prefixLength grammar rest
  if grammar.rawStrings && [0x52, Byte.doubleQuote].isPrefixOf (rest.drop opening) then
    (rawTail? (rest.drop (opening + 2))).map fun tail => ⟨.string, opening + 2 + tail⟩
  else none

/-- A quoted literal with an encoding prefix. -/
def prefixedQuoted? (grammar : Grammar) (rest : Bytes) : Option Lexeme :=
  let opening := prefixLength grammar rest
  if opening = 0 then none
  else (quoted? (rest.drop opening)).map fun literal =>
    ⟨literal.kind, opening + literal.length⟩

/-- The text of a word. -/
def wordText (word : Bytes) : String :=
  String.ofList (word.map fun b => Char.ofNat b.toNat)

/-- Constants are written in capitals, digits and underscores, with a capital
and at least two bytes. -/
def isConstantName (word : Bytes) : Bool :=
  decide (1 < word.length) && word.any Byte.isUpper
    && word.all fun b => Byte.isUpper b || Byte.isDigit b || b == Byte.underscore

/-- The two bytes of the scope operator. -/
def scopeOperator : Bytes :=
  [0x3A, 0x3A]

/-- The kind of a word that the grammar does not list, given what follows it. -/
def unlistedKind (grammar : Grammar) (word after : Bytes) : TokenKind :=
  let next := after.dropWhile Byte.isBlank
  if next.head? = some Byte.openParen then .functionName
  else if scopeOperator.isPrefixOf next ∧ grammar.operatorLength? scopeOperator = some 2 then
    .scope
  else if isConstantName word then .constant
  else .identifier

/-- The kind of a word of a given class. -/
def classKind : WordClass → TokenKind
  | .boolean => .boolean
  | .null => .null
  | .control => .control
  | .keyword => .keyword
  | .typeName => .typeName

/-- The kind of a word, given what follows it. -/
def wordKind (grammar : Grammar) (word after : Bytes) : TokenKind :=
  match grammar.classify? (wordText word) with
  | some wordClass => classKind wordClass
  | none => unlistedKind grammar word after

/-- A word without regard to literals. -/
def bareWord (grammar : Grammar) (rest : Bytes) : Lexeme :=
  let word := rest.takeWhile Byte.isWord
  ⟨wordKind grammar word (rest.dropWhile Byte.isWord), word.length⟩

/-- Whatever starts with a letter or an underscore. -/
def word? (grammar : Grammar) (rest : Bytes) : Option Lexeme :=
  if rest.head?.any Byte.isWordStart then
    some (((rawString? grammar rest).or (prefixedQuoted? grammar rest)).getD
      (bareWord grammar rest))
  else none

end Highlight.Lexeme
