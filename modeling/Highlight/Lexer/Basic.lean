import Highlight.Grammar.Builtin
import Highlight.Lexer.Comment
import Highlight.Lexer.Directive
import Highlight.Lexer.Numeral
import Highlight.Lexer.Punctuation
import Highlight.Lexer.Space
import Highlight.Lexer.Word

/-!
# Lexers

A lexer cuts a text into tokens that lie side by side.  At every place it takes
the lexeme of the first rule that applies and goes on behind it.  The place is
given by the reversed bytes before it and the bytes from it on, so a rule can
look back as well as ahead.
-/

namespace Highlight

namespace Lexeme

/-- The lexeme at a place: the one of the first rule that applies. -/
def read (grammar : Grammar) (before rest : Bytes) : Lexeme :=
  (space? rest
    |>.or (lineJoin? rest)
    |>.or (lineComment? grammar before rest)
    |>.or (blockComment? grammar rest)
    |>.or (directive? grammar before rest)
    |>.or (header? grammar before rest)
    |>.or (quoted? rest)
    |>.or (numeral? grammar rest)
    |>.or (word? grammar rest)
    |>.or (bracket? rest)
    |>.or (operator? grammar rest)).getD (unknown rest)

/-- The number of bytes through the end of the line. -/
def lineLength : Bytes → Nat
  | [] => 0
  | b :: rest => if b = Byte.newline then 1 else 1 + lineLength rest

/-- A line of plain text. -/
def line (rest : Bytes) : Lexeme :=
  ⟨.text, lineLength rest⟩

end Lexeme

/-- A way to cut texts into tokens: line by line, or by a grammar. -/
inductive Lexer where
  | plain
  | table (grammar : Grammar)

namespace Lexer

/-- The name of the lexer: that of its grammar. -/
def name : Lexer → String
  | plain => Language.plainText.id
  | table grammar => grammar.name

/-- The built-in lexer of a language. -/
def ofLanguage (language : Language) : Lexer :=
  ((Grammar.builtin? language).map table).getD plain

/-- The lexeme at a place. -/
def lexeme : Lexer → (before rest : Bytes) → Lexeme
  | plain, _, rest => Lexeme.line rest
  | table grammar, before, rest => Lexeme.read grammar before rest

/-- The lexeme at a place, with a guard: one without bytes would not lead on,
and is taken as an error of one byte. -/
def next (lexer : Lexer) (before rest : Bytes) : Lexeme :=
  let found := lexer.lexeme before rest
  if found.length = 0 then ⟨.error, 1⟩ else found

/-- The tokens from a place on.  `offset` is its distance from the start of the
text, and `pending` counts the bytes that belong to the token found last. -/
def walk (lexer : Lexer) : (before rest : Bytes) → (offset pending : Nat) → List Token
  | _, [], _, _ => []
  | before, b :: rest, offset, pending + 1 =>
      walk lexer (b :: before) rest (offset + 1) pending
  | before, b :: rest, offset, 0 =>
      let found := lexer.next before (b :: rest)
      ⟨found.kind, offset, offset + found.length⟩ ::
        walk lexer (b :: before) rest (offset + 1) (found.length - 1)

/-- The tokens of a text from an offset on. -/
def tokensFrom (lexer : Lexer) (text : Bytes) (start : Nat) : List Token :=
  walk lexer (text.take start).reverse (text.drop start) start 0

/-- The tokens of a text. -/
def tokenize (lexer : Lexer) (text : Bytes) : List Token :=
  lexer.tokensFrom text 0

end Lexer

end Highlight
