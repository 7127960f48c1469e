import Highlight.Proofs.Render.Piece
import Highlight.Render.Ansi

/-!
# What a terminal shows

A terminal prints characters in the style that the last escape sequence has
chosen.  `Terminal.read` is such a terminal, defined by the sequences alone and
without regard to the renderer.  Reading rendered text with it gives the
characters under the tokens, each in the style of its token; newlines and
whitespace are bare, and no style is left at the end.
-/

namespace Highlight

/-- A character on the screen and the sequence that chose its style, or none for a
bare character. -/
structure Cell where
  char : Char
  style : Option String
  deriving DecidableEq

/-- What has been printed, and the style in force for what comes next. -/
structure Screen where
  cells : List Cell
  style : Option String
  deriving DecidableEq

/-- The screen with some cells printed before all others. -/
def Screen.behind (screen : Screen) (cells : List Cell) : Screen :=
  { screen with cells := cells ++ screen.cells }

namespace Terminal

/-- The character that every sequence starts with. -/
def escape : Char := '\x1b'

/-- The characters between the bracket and the `m` of a sequence. -/
def isParameter (char : Char) : Bool :=
  char.isDigit || char == ';'

/-- The sequence at the front: the escape character, a bracket, parameters and an
`m`. -/
def sequence? : List Char → Option (List Char)
  | first :: second :: rest =>
      if first = escape ∧ second = '[' ∧ (rest.dropWhile isParameter).head? = some 'm' then
        some (first :: second :: (rest.takeWhile isParameter ++ ['m']))
      else none
  | _ => none

/-- The style that a sequence chooses: the one with the parameter `0` goes back to
none. -/
def chosenStyle (sequence : List Char) : Option String :=
  if sequence = [escape, '[', '0', 'm'] then none else some (String.ofList sequence)

/-- Prints characters in a style and obeys the sequences among them.  `pending`
counts the characters that belong to the sequence found last. -/
def read : (style : Option String) → (pending : Nat) → List Char → Screen
  | style, _, [] => ⟨[], style⟩
  | style, pending + 1, _ :: rest => read style pending rest
  | style, 0, char :: rest =>
      match sequence? (char :: rest) with
      | some sequence => read (chosenStyle sequence) (sequence.length - 1) rest
      | none => (read style 0 rest).behind [⟨char, style⟩]

/-- What is shown of a text by a terminal without a style. -/
def display (text : String) : Screen :=
  read none 0 text.toList

/-! ## Reading in parts -/

theorem read_pending (style : Option String) (pending : Nat) (chars : List Char) :
    read style pending chars = read style 0 (chars.drop pending) := by
  induction chars generalizing pending with
  | nil => simp [read]
  | cons char chars ih =>
      cases pending with
      | zero => rfl
      | succ pending => rw [read, ih, List.drop_succ_cons]

/-- Parameters between a bracket and an `m` make a sequence. -/
theorem sequence?_append {parameters : List Char} (all : ∀ char ∈ parameters, isParameter char)
    (rest : List Char) :
    sequence? (escape :: '[' :: (parameters ++ 'm' :: rest)) =
      some (escape :: '[' :: (parameters ++ ['m'])) := by
  have stops : isParameter 'm' = false := by decide
  have takeEq : (parameters ++ 'm' :: rest).takeWhile isParameter = parameters := by
    rw [List.takeWhile_append_of_pos all, List.takeWhile_cons_of_neg (by simp [stops]),
      List.append_nil]
  have dropEq : (parameters ++ 'm' :: rest).dropWhile isParameter = 'm' :: rest := by
    rw [List.dropWhile_append_of_pos all, List.dropWhile_cons_of_neg (by simp [stops])]
  rw [sequence?, takeEq, dropEq, if_pos ⟨rfl, rfl, rfl⟩]

/-- A sequence chooses the style for all that follows, and prints nothing. -/
theorem read_sequence {parameters : List Char} (all : ∀ char ∈ parameters, isParameter char)
    (style : Option String) (rest : List Char) :
    read style 0 (escape :: '[' :: (parameters ++ ['m']) ++ rest) =
      read (chosenStyle (escape :: '[' :: (parameters ++ ['m']))) 0 rest := by
  have shapeEq : escape :: '[' :: (parameters ++ ['m']) ++ rest =
      escape :: '[' :: (parameters ++ 'm' :: rest) := by simp
  have dropEq : ('[' :: (parameters ++ 'm' :: rest)).drop ((parameters ++ ['m']).length + 1) =
      rest := by
    rw [List.drop_succ_cons, List.append_cons parameters 'm' rest,
      List.drop_left]
  rw [shapeEq, read, sequence?_append all]
  simp only [List.length_cons, Nat.add_sub_cancel]
  rw [read_pending, dropEq]

/-- Without the escape character everything is printed. -/
theorem read_append_of_notMem {body : List Char} (bare : escape ∉ body) (style : Option String)
    (rest : List Char) :
    read style 0 (body ++ rest) = (read style 0 rest).behind (body.map (⟨·, style⟩)) := by
  induction body with
  | nil => rfl
  | cons char body ih =>
      obtain ⟨notEscape, bodyBare⟩ := List.ne_and_not_mem_of_not_mem_cons bare
      have noSequence : sequence? (char :: (body ++ rest)) = none := by
        cases body ++ rest with
        | nil => rfl
        | cons next others => exact if_neg fun opens => notEscape opens.1.symm
      rw [List.cons_append, read, noSequence, ih bodyBare]
      rfl

/-- The text leaves a terminal without a style as it was, and prints the cells. -/
def Prints (text : List Char) (cells : List Cell) : Prop :=
  ∀ rest, read none 0 (text ++ rest) = (read none 0 rest).behind cells

theorem Prints.nil : Prints [] [] :=
  fun _ => rfl

theorem Prints.append {text more : List Char} {cells others : List Cell}
    (first : Prints text cells) (second : Prints more others) :
    Prints (text ++ more) (cells ++ others) := by
  intro rest
  rw [List.append_assoc, first, second, Screen.behind, Screen.behind, Screen.behind,
    List.append_assoc]

theorem Prints.of_notMem {body : List Char} (bare : escape ∉ body) :
    Prints body (body.map (⟨·, none⟩)) :=
  read_append_of_notMem bare none

/-- A text that is printed shows its cells, and leaves no style in force. -/
theorem Prints.display {text : List Char} {cells : List Cell} (prints : Prints text cells) :
    display (String.ofList text) = ⟨cells, none⟩ := by
  have read := prints []
  rw [List.append_nil] at read
  rw [Terminal.display, String.toList_ofList, read, Screen.behind, Terminal.read, List.append_nil]

end Terminal

/-! ## The sequences of styles -/

namespace Ansi

open Terminal

theorem isParameter_of_mem_toString {char : Char} {n : Nat} (member : char ∈ (toString n).toList) :
    isParameter char := by
  rw [Nat.toString_eq_ofList_toDigits, String.toList_ofList] at member
  rw [isParameter, Nat.isDigit_of_mem_toDigits (by decide) (by decide) member]
  rfl

theorem isParameter_of_mem_colorCode (ansi : Ansi) {base : String}
    (baseParameters : base.toList.all isParameter = true) (color : Color) :
    ∀ char ∈ (ansi.colorCode base color).toList, isParameter char := by
  have fullColor : ∀ char ∈ ";2;".toList, isParameter char :=
    List.all_eq_true.mp (by decide)
  have paletteColor : ∀ char ∈ ";5;".toList, isParameter char :=
    List.all_eq_true.mp (by decide)
  have semicolon : ∀ char ∈ ";".toList, isParameter char :=
    List.all_eq_true.mp (by decide)
  intro char member
  unfold colorCode at member
  split at member
  · simp only [String.toList_append, List.mem_append] at member
    rcases member with (((((inBase | inFull) | inRed) | inFirst) | inGreen) | inSecond) | inBlue
    · exact List.all_eq_true.mp baseParameters char inBase
    · exact fullColor char inFull
    · exact isParameter_of_mem_toString inRed
    · exact semicolon char inFirst
    · exact isParameter_of_mem_toString inGreen
    · exact semicolon char inSecond
    · exact isParameter_of_mem_toString inBlue
  · simp only [String.toList_append, List.mem_append] at member
    rcases member with (inBase | inPalette) | inEntry
    · exact List.all_eq_true.mp baseParameters char inBase
    · exact paletteColor char inPalette
    · exact isParameter_of_mem_toString inEntry

theorem isParameter_of_mem_codes (ansi : Ansi) (style : Style) (page : Option Color) :
    ∀ code ∈ ansi.codes style page, ∀ char ∈ code.toList, isParameter char := by
  have flag (set : Bool) {text : String} (parameters : text.toList.all isParameter = true) :
      ∀ code ∈ (if set then [text] else []), ∀ char ∈ code.toList, isParameter char := by
    cases set with
    | false => exact List.forall_mem_nil _
    | true => exact List.forall_mem_singleton.mpr (List.all_eq_true.mp parameters)
  unfold codes
  simp only [List.forall_mem_append]
  refine ⟨⟨⟨⟨flag _ (by decide), flag _ (by decide)⟩, flag _ (by decide)⟩, ?_⟩, ?_⟩
  · exact List.forall_mem_singleton.mpr (ansi.isParameter_of_mem_colorCode (by decide) _)
  · intro code member
    obtain ⟨color, _, rfl⟩ := Option.map_eq_some_iff.mp (Option.mem_toList.mp member)
    exact ansi.isParameter_of_mem_colorCode (by decide) color

/-- What is put together with a separator holds nothing but the separator and the
parts. -/
theorem forall_mem_intercalate {holds : Char → Prop} {separator : List Char}
    (inSeparator : ∀ char ∈ separator, holds char) {parts : List (List Char)}
    (inParts : ∀ part ∈ parts, ∀ char ∈ part, holds char) :
    ∀ char ∈ separator.intercalate parts, holds char := by
  induction parts with
  | nil => simp
  | cons part parts ih =>
      obtain ⟨inPart, inOthers⟩ := List.forall_mem_cons.mp inParts
      cases parts with
      | nil => simpa using inPart
      | cons next others =>
          rw [List.intercalate_cons_cons, List.forall_mem_append, List.forall_mem_append]
          exact ⟨⟨inPart, inSeparator⟩, ih inOthers⟩

/-- What is put together with a separator holds all of the parts. -/
theorem mem_intercalate {separator : List Char} {parts : List (List Char)} {part : List Char}
    (partMember : part ∈ parts) {char : Char} (member : char ∈ part) :
    char ∈ separator.intercalate parts := by
  induction parts with
  | nil => cases partMember
  | cons first parts ih =>
      cases parts with
      | nil =>
          rw [List.mem_singleton.mp partMember] at member
          simpa using member
      | cons next others =>
          rw [List.intercalate_cons_cons, List.mem_append, List.mem_append]
          rcases List.mem_cons.mp partMember with rfl | partMember
          · exact Or.inl (Or.inl member)
          · exact Or.inr (ih partMember)

/-- The parameters of the sequence that switches to a style. -/
def parameters (ansi : Ansi) (style : Style) (page : Option Color) : List Char :=
  (";".intercalate (ansi.codes style page)).toList

theorem isParameter_of_mem_parameters (ansi : Ansi) (style : Style) (page : Option Color) :
    ∀ char ∈ ansi.parameters style page, isParameter char := by
  rw [parameters, String.toList_intercalate]
  refine forall_mem_intercalate (List.all_eq_true.mp (by decide)) ?_
  intro part member
  obtain ⟨code, codeMember, rfl⟩ := List.mem_map.mp member
  exact ansi.isParameter_of_mem_codes style page code codeMember

theorem toList_switch (ansi : Ansi) (style : Style) (page : Option Color) :
    (ansi.switch style page).toList =
      escape :: '[' :: (ansi.parameters style page ++ ['m']) := by
  rw [switch, String.toList_append, String.toList_append]
  rfl

/-- Every style has a colour of its own, so no style is taken for the way back to
none. -/
theorem chosenStyle_switch (ansi : Ansi) (style : Style) (page : Option Color) :
    chosenStyle (ansi.switch style page).toList = some (ansi.switch style page) := by
  have colorCode : '8' ∈ (ansi.colorCode "38" style.foreground).toList := by
    unfold Ansi.colorCode
    split
    · simp [String.toList_append]
    · simp [String.toList_append]
  have inParameters : '8' ∈ ansi.parameters style page := by
    rw [parameters, String.toList_intercalate]
    refine mem_intercalate (List.mem_map_of_mem ?_) colorCode
    simp [codes]
  have notReset : (ansi.switch style page).toList ≠ [escape, '[', '0', 'm'] := by
    intro resetEq
    have inReset : '8' ∈ [escape, '[', '0', 'm'] := by
      rw [← resetEq, toList_switch]
      simp [inParameters]
    exact absurd inReset (by decide)
  rw [chosenStyle, if_neg notReset, String.ofList_toList]

theorem read_switch (ansi : Ansi) (style : Style) (page : Option Color) (current : Option String)
    (rest : List Char) :
    read current 0 ((ansi.switch style page).toList ++ rest) =
      read (some (ansi.switch style page)) 0 rest := by
  have switched := read_sequence (ansi.isParameter_of_mem_parameters style page) current rest
  rwa [← toList_switch, chosenStyle_switch] at switched

theorem read_reset (current : Option String) (rest : List Char) :
    read current 0 (reset.toList ++ rest) = read none 0 rest := by
  have zero : ∀ char ∈ ['0'], isParameter char := List.all_eq_true.mp (by decide)
  exact read_sequence zero current rest

/-! ## Pieces and tokens on the screen -/

/-- A character in the style of a kind, or a bare one. -/
def cell (ansi : Ansi) (theme : Theme) (kind : Option TokenKind) (char : Char) : Cell where
  char := char
  style := kind.map fun kind => ansi.switch (theme.styleOf kind) theme.background

/-- A piece is printed in the style of its kind, and no style is left. -/
theorem prints_piece (ansi : Ansi) (theme : Theme) {piece : Piece}
    (bare : ∀ kind body, piece = .run kind body → escape ∉ body) :
    Prints (ansi.piece theme piece) (piece.paint (ansi.cell theme)) := by
  cases piece with
  | newline =>
      have newlineBare : escape ∉ ['\n'] := by decide
      exact Prints.of_notMem newlineBare
  | run kind body =>
      have bodyBare := bare kind body rfl
      by_cases whitespace : kind = .whitespace
      · simp only [Ansi.piece, Piece.paint, if_pos whitespace]
        exact Prints.of_notMem bodyBare
      · simp only [Ansi.piece, Piece.paint, if_neg whitespace]
        intro rest
        rw [List.append_assoc, List.append_assoc, read_switch, read_append_of_notMem bodyBare,
          read_reset]
        rfl

theorem prints_pieces (ansi : Ansi) (theme : Theme) {pieces : List Piece}
    (bare : ∀ kind body, Piece.run kind body ∈ pieces → escape ∉ body) :
    Prints (pieces.flatMap (ansi.piece theme))
      (pieces.flatMap (Piece.paint (ansi.cell theme))) := by
  induction pieces with
  | nil => exact Prints.nil
  | cons piece pieces ih =>
      rw [List.flatMap_cons, List.flatMap_cons]
      refine (ansi.prints_piece theme ?_).append (ih ?_)
      · rintro kind body rfl
        exact bare kind body List.mem_cons_self
      · intro kind body member
        exact bare kind body (List.mem_cons_of_mem _ member)

/-- A terminal that reads rendered text without escape characters of its own shows
the characters under the tokens in order.  Those of whitespace and newlines are
bare, all others are in the style of their token, and no style is left at the
end. -/
theorem display_render (ansi : Ansi) (theme : Theme) {text : String} {tokens : List Token}
    (bare : escape ∉ text.toList) (valid : Token.check text.toList tokens = .ok ()) :
    ∃ output, ansi.render text tokens theme = .ok output ∧
      display output =
        { cells := tokens.flatMap fun token => (token.text text.toList).map fun char =>
            { char := char
              style :=
                if token.kind = .whitespace ∨ char = '\n' then none
                else some (ansi.switch (theme.styleOf token.kind) theme.background) }
          style := none } := by
  have inText := Token.check_eq_ok_iff.mp valid
  refine ⟨_, by rw [render, Piece.ofTokens_eq_ok inText]; rfl, ?_⟩
  rw [(ansi.prints_pieces theme ?_).display, Piece.flatMap_paint_under]
  · simp only [cell, apply_ite (Option.map _), Option.map_none, Option.map_some]
  · intro kind body member escapeMember
    exact bare (Piece.mem_of_mem_under member _ escapeMember)

/-- A comment of two lines and a space, with a character of three bytes behind them
that no token covers. -/
theorem display_render_comment :
    ∃ output,
      (⟨false⟩ : Ansi).render "/*\n*/ €" [⟨.comment, 0, 5⟩, ⟨.whitespace, 5, 6⟩] .dark =
          .ok output ∧
        display output =
          { cells :=
              [⟨'/', some "\x1b[3;38;5;65m"⟩, ⟨'*', some "\x1b[3;38;5;65m"⟩, ⟨'\n', none⟩,
                ⟨'*', some "\x1b[3;38;5;65m"⟩, ⟨'/', some "\x1b[3;38;5;65m"⟩, ⟨' ', none⟩]
            style := none } := by
  have bare : escape ∉ "/*\n*/ €".toList := by decide
  have valid : Token.check "/*\n*/ €".toList [⟨.comment, 0, 5⟩, ⟨.whitespace, 5, 6⟩] = .ok () :=
    rfl
  exact display_render ⟨false⟩ .dark bare valid

end Ansi

end Highlight
