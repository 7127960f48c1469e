import Highlight.Grammar.Basic
import Highlight.Lexer.Lexeme

/-!
# Comments

A line comment runs to the newline that is not escaped by a backslash, and
leaves that newline out.  A block comment runs through its closing marker, or
to the end of the text if the marker does not come.
-/

namespace Highlight.Lexeme

/-- Whether a line break after the reversed bytes `before` is escaped: a
backslash stands right before it, or before the carriage return it may have. -/
def isEscapedBreak : Bytes → Bool
  | [] => false
  | b :: before =>
      if b = Byte.carriageReturn then before.head? == some Byte.backslash
      else b == Byte.backslash

/-- The number of bytes up to the newline that ends a line comment.  The
reversed bytes `before` tell whether a newline is escaped. -/
def lineCommentTail (before : Bytes) : Bytes → Nat
  | [] => 0
  | b :: rest =>
      if b = Byte.newline ∧ isEscapedBreak before = false then 0
      else 1 + lineCommentTail (b :: before) rest

/-- A line comment that starts with `marker`. -/
def lineCommentWith? (marker before rest : Bytes) : Option Lexeme :=
  if !marker.isEmpty && marker.isPrefixOf rest then
    some ⟨.comment,
      marker.length + lineCommentTail (marker.reverse ++ before) (rest.drop marker.length)⟩
  else none

/-- A line comment, if the grammar has them. -/
def lineComment? (grammar : Grammar) (before rest : Bytes) : Option Lexeme :=
  grammar.lineComment.bind fun marker => lineCommentWith? (Utf8.bytes marker) before rest

/-- The number of bytes through the closing marker, or of all bytes without
one. -/
def blockCommentTail (closing rest : Bytes) : Nat :=
  match Bytes.find? closing rest with
  | some offset => offset + closing.length
  | none => rest.length

/-- A block comment between two markers. -/
def blockCommentWith? (opening closing rest : Bytes) : Option Lexeme :=
  if !opening.isEmpty && opening.isPrefixOf rest then
    some ⟨.comment, opening.length + blockCommentTail closing (rest.drop opening.length)⟩
  else none

/-- A block comment, if the grammar has them. -/
def blockComment? (grammar : Grammar) (rest : Bytes) : Option Lexeme :=
  grammar.blockComment.bind fun markers =>
    blockCommentWith? (Utf8.bytes markers.opening) (Utf8.bytes markers.closing) rest

end Highlight.Lexeme
