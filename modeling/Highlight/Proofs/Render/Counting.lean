import Highlight.Proofs.Render.Lines

/-!
# Counting lines with checks

The number of a line is a signed word of 32 bits.  A build that checks its arithmetic
stops where the number would leave these words, and one that does not goes on with the
number wrapped around.  `Html.write` is the latter, and `Html.write?` the former.

A renderer counts newlines whether or not it writes the numbers.  So whether it stops,
and at which newline, depends on the text and the tokens alone: `Html.render?_of_counts` and
`Html.render?_of_not_counts`.
-/

namespace Highlight.Html

/-- Writes a piece, and stops if the number behind a newline is no word. -/
def write? (html : Html) (theme : Theme) (writer : Writer) (piece : Piece) : Option Writer :=
  if piece = .newline ∧ writer.line = Int32.maxValue then none
  else some (html.write theme writer piece)

/-- Writes the text under a token.  Without a writer it has stopped. -/
def writeToken? (html : Html) (theme : Theme) (text : List Char) (writer : Writer)
    (token : Token) : ExceptT SpanError Option Writer := do
  let slice ← ExceptT.mk (some (token.chars text))
  ExceptT.lift ((Piece.cut token.kind slice).foldlM (html.write? theme) writer)

/-- Renders the text under some tokens with checked counting. -/
def render? (html : Html) (text : String) (tokens : List Token) (theme : Theme) :
    ExceptT SpanError Option String := do
  let writer ← tokens.foldlM (html.writeToken? theme text.toList) ⟨html.openTag theme, 1, false⟩
  return writer.closeLine.out ++ "</pre>"

/-- Counting the newlines under some tokens from a number on stays among the words, up
to the first token whose range is no slice of the text. -/
def Counts (text : List Char) : (number : Int) → List Token → Prop
  | _, [] => True
  | number, token :: rest =>
      match token.chars text with
      | .error _ => True
      | .ok slice =>
          number + slice.count '\n' ≤ Int32.maxValue.toInt ∧
            Counts text (number + slice.count '\n') rest

/-! ## Newlines of pieces -/

theorem count_cut (kind : TokenKind) (slice : List Char) :
    (Piece.cut kind slice).count .newline = slice.count '\n' := by
  induction slice with
  | nil => rfl
  | cons char rest ih =>
      rw [Piece.cut]
      split
      · rename_i isNewline
        rw [isNewline, List.count_cons_self, List.count_cons_self, ih]
      · rename_i notNewline
        rw [List.count_cons_of_ne notNewline, ← ih]
        split
        · rename_i other body others cutEq
          rw [cutEq, List.count_cons_of_ne (by simp), List.count_cons_of_ne (by simp)]
        · exact List.count_cons_of_ne (by simp)

variable {html : Html} {theme : Theme}

/-- Only a newline counts. -/
theorem line_write_run (writer : Writer) (kind : TokenKind) (body : List Char) :
    (html.write theme writer (.run kind body)).line = writer.line := by
  rw [write, Writer.openLine]
  split
  · rfl
  · rfl

theorem line_write_newline (writer : Writer) :
    (html.write theme writer .newline).line = writer.line + 1 := by
  have closed (writer : Writer) : writer.closeLine.line = writer.line := by
    rw [Writer.closeLine]
    split
    · rfl
    · rfl
  rw [write, Writer.openLine]
  split
  · exact congrArg (· + 1) (closed _)
  · exact congrArg (· + 1) (closed _)

/-- Below the largest word the next number is the sum. -/
theorem toInt_add_one {number : Int32} (below : number ≠ Int32.maxValue) :
    (number + 1).toInt = number.toInt + 1 := by
  have upper := number.toInt_le
  have lower := number.le_toInt
  have notMax : number.toInt ≠ Int32.maxValue.toInt := fun equal => below (Int32.toInt_inj.mp equal)
  have maxEq : Int32.maxValue.toInt = 2147483647 := by decide
  rw [Int32.toInt_add]
  apply Int.bmod_eq_of_le_mul_two
  · simp at *
    omega
  · simp at *
    omega

/-- Checked counting goes through as long as the newlines stay among the words, and then
counts them. -/
theorem foldlM_write? (html : Html) (theme : Theme) (pieces : List Piece) (writer : Writer) :
    if writer.line.toInt + pieces.count .newline ≤ Int32.maxValue.toInt then
      pieces.foldlM (html.write? theme) writer = some (pieces.foldl (html.write theme) writer) ∧
        (pieces.foldl (html.write theme) writer).line.toInt =
          writer.line.toInt + pieces.count .newline
    else pieces.foldlM (html.write? theme) writer = none := by
  induction pieces generalizing writer with
  | nil =>
      rw [if_pos (by simpa using writer.line.toInt_le)]
      exact ⟨rfl, by simp⟩
  | cons piece rest ih =>
      rw [List.foldlM_cons, List.foldl_cons]
      cases piece with
      | run kind body =>
          have stepEq : html.write? theme writer (.run kind body) =
              some (html.write theme writer (.run kind body)) := if_neg (by simp)
          have rest := ih (html.write theme writer (.run kind body))
          rw [line_write_run] at rest
          rw [stepEq, List.count_cons_of_ne (by simp)]
          exact rest
      | newline =>
          rw [List.count_cons_self]
          by_cases last : writer.line = Int32.maxValue
          · have stepEq : html.write? theme writer .newline = none := if_pos ⟨rfl, last⟩
            rw [stepEq, last, if_neg (by omega)]
            rfl
          · have stepEq : html.write? theme writer .newline =
                some (html.write theme writer .newline) := if_neg (by simp [last])
            have rest := ih (html.write theme writer .newline)
            rw [line_write_newline, toInt_add_one last] at rest
            rw [stepEq, Int.natCast_add, Int.natCast_one, Int.add_comm (List.count _ _ : Int) 1,
              ← Int.add_assoc]
            exact rest

/-! ## Texts under tokens -/

/-- Through the text of a token checked counting goes as through its pieces. -/
theorem writeToken?_ok {text slice : List Char} {token : Token}
    (charsEq : token.chars text = .ok slice) (writer : Writer) :
    html.writeToken? theme text writer token =
      ExceptT.lift ((Piece.cut token.kind slice).foldlM (html.write? theme) writer) := by
  rw [writeToken?, charsEq]
  rfl

/-- Through the tokens checked counting goes as `Counts` says. -/
theorem foldlM_writeToken? (html : Html) (theme : Theme) (text : List Char)
    (tokens : List Token) (writer : Writer) :
    (Counts text writer.line.toInt tokens →
      tokens.foldlM (html.writeToken? theme text) writer =
        ExceptT.mk (some (tokens.foldlM (html.writeToken theme text) writer))) ∧
    (¬ Counts text writer.line.toInt tokens →
      tokens.foldlM (html.writeToken? theme text) writer = ExceptT.mk none) := by
  induction tokens generalizing writer with
  | nil => exact ⟨fun _ => rfl, fun stopped => absurd trivial stopped⟩
  | cons token rest ih =>
      rw [List.foldlM_cons, List.foldlM_cons, Counts]
      cases charsEq : token.chars text with
      | error problem =>
          rw [writeToken?, writeToken, charsEq]
          exact ⟨fun _ => rfl, fun stopped => absurd trivial stopped⟩
      | ok slice =>
          have step := html.foldlM_write? theme (Piece.cut token.kind slice) writer
          rw [count_cut] at step
          rw [writeToken?_ok charsEq, writeToken, charsEq]
          split at step
          · rename_i within
            obtain ⟨stepEq, lineEq⟩ := step
            have restEq := ih ((Piece.cut token.kind slice).foldl (html.write theme) writer)
            rw [lineEq] at restEq
            rw [stepEq]
            constructor
            · intro counts
              exact restEq.1 counts.2
            · intro stopped
              exact restEq.2 fun counts => stopped ⟨within, counts⟩
          · rename_i beyond
            rw [step]
            constructor
            · intro counts
              exact absurd counts.1 beyond
            · intro _
              rfl

/-- The checked renderer ends if counting does, and then it does what the renderer
without the check does. -/
theorem render?_of_counts (html : Html) {text : String} {tokens : List Token} (theme : Theme)
    (counts : Counts text.toList 1 tokens) :
    (html.render? text tokens theme).run = some (html.render text tokens theme) := by
  have foldEq := (html.foldlM_writeToken? theme text.toList tokens
    ⟨html.openTag theme, 1, false⟩).1 counts
  rw [render?, foldEq, render]
  cases tokens.foldlM (html.writeToken theme text.toList) ⟨html.openTag theme, 1, false⟩ with
  | error problem => rfl
  | ok writer => rfl

/-- If counting does not end, the checked renderer stops. -/
theorem render?_of_not_counts (html : Html) {text : String} {tokens : List Token}
    (theme : Theme) (stopped : ¬ Counts text.toList 1 tokens) :
    (html.render? text tokens theme).run = none := by
  have foldEq := (html.foldlM_writeToken? theme text.toList tokens
    ⟨html.openTag theme, 1, false⟩).2 stopped
  rw [render?, foldEq]
  rfl

/-- Where counting ends and the text is cut into pieces, their newlines were counted. -/
theorem Counts.le {text : List Char} {number : Int} {tokens : List Token}
    (counts : Counts text number tokens) (start : number ≤ Int32.maxValue.toInt)
    {pieces : List Piece} (cutEq : Piece.ofTokens text tokens = .ok pieces) :
    number + pieces.count .newline ≤ Int32.maxValue.toInt := by
  induction tokens generalizing number pieces with
  | nil =>
      cases cutEq
      simpa using start
  | cons token rest ih =>
      rw [Piece.ofTokens] at cutEq
      rw [Counts] at counts
      cases charsEq : token.chars text with
      | error problem =>
          rw [charsEq] at cutEq
          cases cutEq
      | ok slice =>
          rw [charsEq] at cutEq counts
          cases restEq : Piece.ofTokens text rest with
          | error problem =>
              rw [restEq] at cutEq
              cases cutEq
          | ok others =>
              rw [restEq] at cutEq
              cases cutEq
              have restLe := ih counts.2 counts.1 restEq
              rw [List.count_append, count_cut]
              omega

end Highlight.Html
