import Highlight.Render.Piece
import Highlight.Theme.Basic

/-!
# Styled spans

For those who paint text themselves: byte ranges with their styles, where
neighbours that touch and look the same are one.
-/

namespace Highlight

/-- A byte range drawn in one style. -/
structure StyledSpan where
  start : Nat
  stop : Nat
  style : Style
  deriving DecidableEq

namespace StyledSpan

/-- Joins neighbours that touch and look the same. -/
def merge : List StyledSpan → List StyledSpan
  | [] => []
  | span :: rest =>
      match merge rest with
      | [] => [span]
      | next :: others =>
          if span.style = next.style ∧ span.stop = next.start then
            { span with stop := next.stop } :: others
          else span :: next :: others

/-- The span of one token. -/
def ofToken (theme : Theme) (token : Token) : StyledSpan :=
  ⟨token.start, token.stop, theme.styleOf token.kind⟩

/-- The spans of some tokens, or the first token whose range is no slice of the
text. -/
def ofTokens (text : String) (tokens : List Token) (theme : Theme) :
    Except SpanError (List StyledSpan) := do
  Token.check text.toList tokens
  return merge (tokens.map (ofToken theme))

end StyledSpan

end Highlight
