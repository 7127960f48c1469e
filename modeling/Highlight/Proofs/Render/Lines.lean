import Highlight.Proofs.Render.Piece
import Highlight.Render.Html

/-!
# Lines of output

A renderer goes through the pieces one by one and keeps a number and a flag.  What
it writes can be said without either: the markup of the runs is gathered into lines,
and the lines stand one behind the other, bare or each in an element that bears its
number.  `toList_out_foldl_write` is the step from the one to the other, by induction
on the pieces, and `render_eq` carries it over to whole texts.

The numbers are those of the renderer, words of 32 bits.
-/

namespace Highlight.Html

/-- A line of output: the markup of its runs, and whether a newline ends it. -/
structure Line where
  content : List Char
  ended : Bool
  deriving DecidableEq

/-- The lines of output.  A newline ends a line and starts none. -/
def lines (html : Html) (theme : Theme) : List Piece → List Line
  | [] => []
  | .newline :: rest => ⟨[], true⟩ :: lines html theme rest
  | .run kind body :: rest =>
      let markup := html.run theme kind body
      match lines html theme rest with
      | [] => [⟨markup, false⟩]
      | line :: others => { line with content := markup ++ line.content } :: others

/-- The newline that ends a line, if one does. -/
def Line.ending (line : Line) : List Char :=
  if line.ended then ['\n'] else []

/-- A line as it stands. -/
def Line.bare (line : Line) : List Char :=
  line.content ++ line.ending

/-- A line from behind the tag of its element on. -/
def Line.rest (line : Line) : List Char :=
  line.content ++ "</span>".toList ++ line.ending

/-- A line in an element that bears its number. -/
def Line.numbered (line : Line) (html : Html) (number : Int32) : List Char :=
  (html.lineTag number).toList ++ line.rest

/-- Lines in elements that bear their numbers, counted from `first`. -/
def numberLines (html : Html) : (first : Int32) → List Line → List Char
  | _, [] => []
  | first, line :: rest => line.numbered html first ++ numberLines html (first + 1) rest

/-- What stands inside the `pre` element. -/
def inner (html : Html) (lines : List Line) : List Char :=
  if html.lineNumbers then html.numberLines 1 lines else lines.flatMap Line.bare

/-! ## From the loop to the lines -/

variable {html : Html} {theme : Theme}

@[simp]
theorem toList_out_push (writer : Writer) (text : String) :
    (writer.push text).out.toList = writer.out.toList ++ text.toList :=
  String.toList_append

/-- What is left to write of some lines while the element of the first one is open. -/
def openRest (html : Html) (number : Int32) (lines : List Line) : List Char :=
  (lines.headD ⟨[], false⟩).rest ++ html.numberLines (number + 1) lines.tail

/-- Without numbers a renderer writes the lines as they stand. -/
theorem toList_out_foldl_write_bare (bare : html.lineNumbers = false) (pieces : List Piece)
    {writer : Writer} (closed : writer.lineOpen = false) :
    (pieces.foldl (html.write theme) writer).closeLine.out.toList =
      writer.out.toList ++ (html.lines theme pieces).flatMap Line.bare := by
  induction pieces generalizing writer with
  | nil => simp [Writer.closeLine, closed, lines]
  | cons piece rest ih =>
      have opened : writer.openLine html = writer := by simp [Writer.openLine, bare]
      cases piece with
      | newline =>
          have closedLine : writer.closeLine = writer := by simp [Writer.closeLine, closed]
          rw [List.foldl_cons, ih (by simp [write, opened, closedLine, Writer.push, closed])]
          simp [write, opened, closedLine, lines, Line.bare, Line.ending]
      | run kind body =>
          rw [List.foldl_cons, ih (by simp [write, opened, Writer.push, closed]), write, opened,
            toList_out_push, lines]
          cases html.lines theme rest with
          | nil => simp [Line.bare, Line.ending]
          | cons line others => simp [Line.bare, Line.ending]

/-- With numbers a renderer writes each line in its element.  If that of the first
line is open already, it goes on behind the tag. -/
theorem toList_out_foldl_write_numbered (numbered : html.lineNumbers = true)
    (pieces : List Piece) (writer : Writer) :
    (pieces.foldl (html.write theme) writer).closeLine.out.toList =
      writer.out.toList ++
        if writer.lineOpen then html.openRest writer.line (html.lines theme pieces)
        else html.numberLines writer.line (html.lines theme pieces) := by
  induction pieces generalizing writer with
  | nil =>
      cases opened : writer.lineOpen with
      | false => simp [Writer.closeLine, opened, lines, numberLines]
      | true =>
          simp [Writer.closeLine, opened, lines, openRest, numberLines, Line.rest, Line.ending]
  | cons piece rest ih =>
      rw [List.foldl_cons, ih]
      cases opened : writer.lineOpen with
      | false =>
          have openEq : writer.openLine html =
              { writer.push (html.lineTag writer.line) with lineOpen := true } := by
            simp [Writer.openLine, numbered, opened]
          cases piece with
          | newline =>
              simp [write, openEq, Writer.closeLine, Writer.push, lines, numberLines,
                Line.numbered, Line.rest, Line.ending]
          | run kind body =>
              rw [lines]
              cases html.lines theme rest with
              | nil =>
                  simp [write, openEq, Writer.push, numberLines, openRest, Line.numbered,
                    Line.rest, Line.ending]
              | cons line others =>
                  simp [write, openEq, Writer.push, numberLines, openRest, Line.numbered,
                    Line.rest, Line.ending]
      | true =>
          have openEq : writer.openLine html = writer := by simp [Writer.openLine, opened]
          cases piece with
          | newline =>
              simp [write, openEq, Writer.closeLine, opened, Writer.push, lines, openRest,
                Line.rest, Line.ending]
          | run kind body =>
              rw [lines]
              cases html.lines theme rest with
              | nil => simp [write, openEq, opened, Writer.push, numberLines, openRest,
                  Line.rest, Line.ending]
              | cons line others =>
                  simp [write, openEq, opened, Writer.push, openRest, Line.rest, Line.ending]

/-- Going through the tokens is going through the pieces of their text. -/
theorem foldlM_writeToken (text : List Char) (tokens : List Token) (writer : Writer) :
    tokens.foldlM (html.writeToken theme text) writer =
      (Piece.ofTokens text tokens).map fun pieces => pieces.foldl (html.write theme) writer := by
  induction tokens generalizing writer with
  | nil => rfl
  | cons token rest ih =>
      rw [List.foldlM_cons, Piece.ofTokens, writeToken]
      cases token.chars text with
      | error problem => rfl
      | ok slice =>
          change rest.foldlM (html.writeToken theme text)
            ((Piece.cut token.kind slice).foldl (html.write theme) writer) = _
          rw [ih]
          cases Piece.ofTokens text rest with
          | error problem => rfl
          | ok others =>
              exact congrArg Except.ok (List.foldl_append ..).symm

/-- From its start a renderer writes what stands inside the `pre` element. -/
theorem toList_out_foldl_write (html : Html) (theme : Theme) (pieces : List Piece)
    (out : String) :
    (pieces.foldl (html.write theme) ⟨out, 1, false⟩).closeLine.out.toList =
      out.toList ++ html.inner (html.lines theme pieces) := by
  unfold inner
  cases numbered : html.lineNumbers with
  | false => exact toList_out_foldl_write_bare numbered pieces rfl
  | true => exact toList_out_foldl_write_numbered numbered pieces _

/-- Rendering fails as cutting the text does; otherwise the lines stand between the
tags. -/
theorem render_eq (html : Html) (text : String) (tokens : List Token) (theme : Theme) :
    html.render text tokens theme =
      (Piece.ofTokens text.toList tokens).map fun pieces =>
        html.openTag theme ++ String.ofList (html.inner (html.lines theme pieces)) ++ "</pre>" := by
  rw [render, foldlM_writeToken]
  cases Piece.ofTokens text.toList tokens with
  | error problem => rfl
  | ok pieces =>
      have written := html.toList_out_foldl_write theme pieces (html.openTag theme)
      rw [← String.toList_ofList (l := html.inner _), ← String.toList_append,
        String.toList_inj] at written
      change Except.ok (_ ++ "</pre>") = Except.ok (_ ++ "</pre>")
      rw [written]

end Highlight.Html
