import Highlight.Render.Piece
import Highlight.Theme.Basic

/-!
# HTML

Output is one `pre` element.  With classes, each run outside whitespace is a
`span` whose class names its kind, and a style sheet gives the looks.  With
inline styles the looks stand in each `span`, and a run that looks like the
page needs none.  Lines can be wrapped in numbered `span`s.
-/

namespace Highlight

/-- The settings of HTML output. -/
structure Html where
  /-- What every class starts with. -/
  classPrefix : String := "tg-"
  /-- Write the looks into each element instead of a class. -/
  inlineStyles : Bool := false
  /-- Wrap every line in a numbered element. -/
  lineNumbers : Bool := false
  deriving DecidableEq

namespace Html

/-- A character with its markup meaning taken away. -/
def escapeChar (char : Char) : List Char :=
  if char = '&' then "&amp;".toList
  else if char = '<' then "&lt;".toList
  else if char = '>' then "&gt;".toList
  else if char = '"' then "&quot;".toList
  else if char = '\'' then "&#39;".toList
  else [char]

/-- A text with the markup meaning of its characters taken away. -/
def escape (body : List Char) : List Char :=
  body.flatMap escapeChar

/-- The declarations for a style on a page with a given background. -/
def declarations (style : Style) (page : Option Color) : String :=
  "color: " ++ style.foreground.toText ++ ";"
    ++ (match style.ownBackground page with
      | some color => " background-color: " ++ color.toText ++ ";"
      | none => "")
    ++ (if style.bold then " font-weight: bold;" else "")
    ++ (if style.italic then " font-style: italic;" else "")
    ++ (if style.underline then " text-decoration: underline;" else "")

/-- A rule of the style sheet. -/
def rule (selector body : String) : String :=
  "." ++ selector ++ " \x7b " ++ body ++ " \x7d\n"

/-- The style sheet for output with classes. -/
def stylesheet (html : Html) (theme : Theme) : String :=
  rule (html.classPrefix ++ "code") (declarations theme.defaultStyle none)
    ++ String.join ((TokenKind.all.filter (· != .whitespace)).map fun kind =>
      rule (html.classPrefix ++ kind.key) (declarations (theme.styleOf kind) theme.background))
    ++ (if html.lineNumbers then
      rule (html.classPrefix ++ "line::before")
        ("content: attr(data-line); display: inline-block; width: 4ch; margin-right: 1ch; "
          ++ "text-align: right; opacity: 0.5;")
      else "")

/-- The tag that opens a run, unless the run needs no element. -/
def runTag? (html : Html) (theme : Theme) (kind : TokenKind) : Option String :=
  if kind = .whitespace then none
  else if html.inlineStyles then
    let style := theme.styleOf kind
    if style = theme.defaultStyle then none
    else some ("<span style=\"" ++ declarations style theme.background ++ "\">")
  else some ("<span class=\"" ++ html.classPrefix ++ kind.key ++ "\">")

/-- The markup of a run. -/
def run (html : Html) (theme : Theme) (kind : TokenKind) (body : List Char) : List Char :=
  match html.runTag? theme kind with
  | none => escape body
  | some tag => tag.toList ++ escape body ++ "</span>".toList

/-- The tag that opens the element of a line. -/
def lineTag (html : Html) (number : Int32) : String :=
  "<span class=\"" ++ html.classPrefix ++ "line\" data-line=\"" ++ toString number ++ "\">"

/-- How far a renderer has come: what is written, the number of the line that is
being written, and whether the element of that line is open. -/
structure Writer where
  out : String
  line : Int32
  lineOpen : Bool

namespace Writer

/-- Writes some text. -/
def push (writer : Writer) (text : String) : Writer :=
  { writer with out := writer.out ++ text }

/-- Opens the element of the line, if lines are numbered and it is not open. -/
def openLine (writer : Writer) (html : Html) : Writer :=
  if html.lineNumbers && !writer.lineOpen then
    { writer.push (html.lineTag writer.line) with lineOpen := true }
  else writer

/-- Closes the element of the line, if it is open. -/
def closeLine (writer : Writer) : Writer :=
  if writer.lineOpen then { writer.push "</span>" with lineOpen := false } else writer

end Writer

/-- Writes a piece into the element of its line.  A newline comes behind that
element, and with it the number of the line goes up by one; as a signed word of
32 bits it wraps around. -/
def write (html : Html) (theme : Theme) (writer : Writer) : Piece → Writer
  | .run kind body => (writer.openLine html).push (String.ofList (html.run theme kind body))
  | .newline =>
      let behind := (writer.openLine html).closeLine.push "\n"
      { behind with line := behind.line + 1 }

/-- Writes the text under a token. -/
def writeToken (html : Html) (theme : Theme) (text : List Char) (writer : Writer)
    (token : Token) : Except SpanError Writer := do
  let slice ← token.chars text
  return (Piece.cut token.kind slice).foldl (html.write theme) writer

/-- The tag that opens the output. -/
def openTag (html : Html) (theme : Theme) : String :=
  "<pre class=\"" ++ html.classPrefix ++ "code\""
    ++ (if html.inlineStyles then " style=\"" ++ declarations theme.defaultStyle none ++ "\""
      else "")
    ++ ">"

/-- Renders the text under some tokens. -/
def render (html : Html) (text : String) (tokens : List Token) (theme : Theme) :
    Except SpanError String := do
  let writer ← tokens.foldlM (html.writeToken theme text.toList) ⟨html.openTag theme, 1, false⟩
  return writer.closeLine.out ++ "</pre>"

end Html

end Highlight
