import Highlight.Proofs.List
import Highlight.Proofs.Render.Terminal

/-!
# The pen that a sequence chooses

`Terminal.read` tells the sequences of a text apart and leaves them as they are.  What
such a sequence asks for is read here, number by number: emphasis, and colours that are
given in full or as entries of the terminal's palette.  The sequence that switches to a
style asks for that style and for nothing else.
-/

namespace Highlight

/-- A colour that a terminal is asked for, in full or as an entry of its palette. -/
inductive Ink where
  | full (red green blue : Nat)
  | entry (index : Nat)
  deriving DecidableEq

/-- What a terminal draws with.  Without an ink it uses the one that it starts with. -/
structure Pen where
  foreground : Option Ink := none
  background : Option Ink := none
  bold : Bool := false
  italic : Bool := false
  underline : Bool := false
  deriving DecidableEq

namespace Pen

/-- The pen after the numbers of a sequence, unless one of them is unknown. -/
def obey? : Pen → List Nat → Option Pen
  | pen, [] => some pen
  | _, 0 :: rest => obey? {} rest
  | pen, 1 :: rest => obey? { pen with bold := true } rest
  | pen, 3 :: rest => obey? { pen with italic := true } rest
  | pen, 4 :: rest => obey? { pen with underline := true } rest
  | pen, 38 :: 2 :: red :: green :: blue :: rest =>
      obey? { pen with foreground := some (.full red green blue) } rest
  | pen, 38 :: 5 :: index :: rest => obey? { pen with foreground := some (.entry index) } rest
  | pen, 48 :: 2 :: red :: green :: blue :: rest =>
      obey? { pen with background := some (.full red green blue) } rest
  | pen, 48 :: 5 :: index :: rest => obey? { pen with background := some (.entry index) } rest
  | _, _ => none

/-- The numbers between the bracket and the `m` of a sequence. -/
def numbers (sequence : List Char) : List Nat :=
  ((sequence.drop 2).dropLast.splitOn ';').map (Nat.ofDigitChars 10 · 0)

/-- What a terminal draws with after a sequence that starts afresh. -/
def ofSequence? (sequence : String) : Option Pen :=
  obey? {} (numbers sequence.toList)

/-! ## Numbers in a sequence -/

theorem numbers_intercalate {values : List Nat} (nonempty : values ≠ []) :
    numbers (Terminal.escape :: '[' ::
      ([';'].intercalate (values.map (Nat.toDigits 10)) ++ ['m'])) = values := by
  have bare : ∀ digits ∈ values.map (Nat.toDigits 10), ';' ∉ digits := by
    intro digits member semicolon
    rcases List.mem_map.mp member with ⟨value, _, rfl⟩
    exact absurd (Nat.isDigit_of_mem_toDigits (by decide) (by decide) semicolon) (by decide)
  have parts : values.map (Nat.toDigits 10) ≠ [] := by
    simpa using nonempty
  rw [numbers, List.drop_succ_cons, List.drop_succ_cons, List.drop_zero, List.dropLast_concat,
    List.splitOn_intercalate ';' bare parts, List.map_map]
  apply List.map_id''
  intro value
  exact Nat.ofDigitChars_toDigits (by decide) (by decide)

end Pen

namespace Ansi

/-- The ink for a colour. -/
def ink (ansi : Ansi) (color : Color) : Ink :=
  if ansi.trueColor then .full color.red.toNat color.green.toNat color.blue.toNat
  else .entry color.palette

/-- The pen for a style on a page with a given background. -/
def pen (ansi : Ansi) (style : Style) (page : Option Color) : Pen where
  foreground := some (ansi.ink style.foreground)
  background := (style.ownBackground page).map ansi.ink
  bold := style.bold
  italic := style.italic
  underline := style.underline

/-- The numbers that select a colour for a layer. -/
def colorNumbers (ansi : Ansi) (layer : Nat) (color : Color) : List Nat :=
  if ansi.trueColor then
    [layer, 2, color.red.toNat, color.green.toNat, color.blue.toNat]
  else [layer, 5, color.palette]

/-- The numbers of a style, in groups of those that belong together. -/
def numberGroups (ansi : Ansi) (style : Style) (page : Option Color) : List (List Nat) :=
  (if style.bold then [[1]] else []) ++ (if style.italic then [[3]] else [])
    ++ (if style.underline then [[4]] else []) ++ [ansi.colorNumbers 38 style.foreground]
    ++ ((style.ownBackground page).map (ansi.colorNumbers 48)).toList

/-- The text of some numbers in a sequence. -/
def numberText (values : List Nat) : List Char :=
  [';'].intercalate (values.map (Nat.toDigits 10))

/-- The code of a colour is the text of its numbers. -/
theorem toList_colorCode (ansi : Ansi) {base : String} (layer : Nat)
    (baseEq : base.toList = Nat.toDigits 10 layer) (color : Color) :
    (ansi.colorCode base color).toList = numberText (ansi.colorNumbers layer color) := by
  have two : Nat.toDigits 10 2 = ['2'] := by decide
  have five : Nat.toDigits 10 5 = ['5'] := by decide
  unfold colorCode colorNumbers numberText
  split
  · simp [String.toList_append, baseEq, two]
  · simp [String.toList_append, baseEq, five]

theorem map_toList_codes (ansi : Ansi) (style : Style) (page : Option Color) :
    (ansi.codes style page).map String.toList =
      (ansi.numberGroups style page).map numberText := by
  have flag (set : Bool) {text : String} (number : Nat)
      (textEq : text.toList = numberText [number]) :
      (if set then [text] else []).map String.toList =
        (if set then [[number]] else []).map numberText := by
    cases set with
    | false => rfl
    | true => exact congrArg (fun text => [text]) textEq
  have background : ((style.ownBackground page).map (ansi.colorCode "48")).toList.map
      String.toList =
      ((style.ownBackground page).map (ansi.colorNumbers 48)).toList.map numberText := by
    cases style.ownBackground page with
    | none => rfl
    | some color => exact congrArg (fun text => [text]) (ansi.toList_colorCode 48 (by decide) color)
  unfold codes numberGroups
  simp only [List.map_append, List.map_cons, List.map_nil]
  rw [flag style.bold 1 (by decide), flag style.italic 3 (by decide),
    flag style.underline 4 (by decide), ansi.toList_colorCode 38 (by decide), background]

theorem ne_nil_of_mem_numberGroups (ansi : Ansi) (style : Style) (page : Option Color) :
    ∀ group ∈ ansi.numberGroups style page, group ≠ [] := by
  have flag (set : Bool) (number : Nat) :
      ∀ group ∈ (if set then [[number]] else []), group ≠ [] := by
    cases set with
    | false => exact List.forall_mem_nil _
    | true => exact List.forall_mem_singleton.mpr (List.cons_ne_nil _ _)
  have color (layer : Nat) (color : Color) : ansi.colorNumbers layer color ≠ [] := by
    unfold colorNumbers
    split
    · exact List.cons_ne_nil _ _
    · exact List.cons_ne_nil _ _
  unfold numberGroups
  simp only [List.forall_mem_append]
  refine ⟨⟨⟨⟨flag _ _, flag _ _⟩, flag _ _⟩, List.forall_mem_singleton.mpr (color _ _)⟩, ?_⟩
  intro group member
  rcases Option.map_eq_some_iff.mp (Option.mem_toList.mp member) with ⟨own, _, rfl⟩
  exact color 48 own

/-- The parameters of a style are the text of its numbers. -/
theorem parameters_eq (ansi : Ansi) (style : Style) (page : Option Color) :
    ansi.parameters style page = numberText (ansi.numberGroups style page).flatten := by
  have nonempty : ∀ group ∈ (ansi.numberGroups style page).map (List.map (Nat.toDigits 10)),
      group ≠ [] := by
    intro group member
    rcases List.mem_map.mp member with ⟨values, valuesMember, rfl⟩
    simpa using ansi.ne_nil_of_mem_numberGroups style page values valuesMember
  have joined := List.intercalate_map_intercalate [';'] nonempty
  rw [List.map_map, ← List.map_flatten] at joined
  rw [parameters, String.toList_intercalate, map_toList_codes]
  exact joined

/-! ## Obeying the numbers of a style -/

theorem obey?_colorNumbers_foreground (ansi : Ansi) (color : Color) (pen : Pen)
    (rest : List Nat) :
    pen.obey? (ansi.colorNumbers 38 color ++ rest) =
      { pen with foreground := some (ansi.ink color) }.obey? rest := by
  unfold colorNumbers ink
  split
  · rfl
  · rfl

theorem obey?_colorNumbers_background (ansi : Ansi) (color : Color) (pen : Pen)
    (rest : List Nat) :
    pen.obey? (ansi.colorNumbers 48 color ++ rest) =
      { pen with background := some (ansi.ink color) }.obey? rest := by
  unfold colorNumbers ink
  split
  · rfl
  · rfl

theorem obey?_flatten_numberGroups (ansi : Ansi) (style : Style) (page : Option Color) :
    Pen.obey? {} (ansi.numberGroups style page).flatten = some (ansi.pen style page) := by
  have flag (set : Bool) (number : Nat) (rest : List Nat) :
      (if set then [[number]] else []).flatten ++ rest =
        if set then number :: rest else rest := by
    cases set with
    | false => rfl
    | true => rfl
  have bold (rest : List Nat) : Pen.obey? {} (if style.bold then 1 :: rest else rest) =
      Pen.obey? { bold := style.bold } rest := by
    cases style.bold with
    | false => rfl
    | true => rfl
  have italic (rest : List Nat) :
      Pen.obey? { bold := style.bold } (if style.italic then 3 :: rest else rest) =
        Pen.obey? { bold := style.bold, italic := style.italic } rest := by
    cases style.italic with
    | false => rfl
    | true => rfl
  have underline (rest : List Nat) :
      Pen.obey? { bold := style.bold, italic := style.italic }
          (if style.underline then 4 :: rest else rest) =
        Pen.obey? { bold := style.bold, italic := style.italic, underline := style.underline }
          rest := by
    cases style.underline with
    | false => rfl
    | true => rfl
  simp only [numberGroups, List.flatten_append, List.append_assoc, flag, List.flatten_singleton]
  rw [bold, italic, underline, obey?_colorNumbers_foreground]
  unfold pen
  cases style.ownBackground page with
  | none => rfl
  | some color =>
      rw [Option.map_some, Option.toList_some, List.flatten_singleton,
        ← List.append_nil (ansi.colorNumbers 48 color), obey?_colorNumbers_background]
      rfl

/-- A terminal that obeys the sequence of a style draws with the pen of that style. -/
theorem ofSequence?_switch (ansi : Ansi) (style : Style) (page : Option Color) :
    Pen.ofSequence? (ansi.switch style page) = some (ansi.pen style page) := by
  have nonempty : (ansi.numberGroups style page).flatten ≠ [] := by
    have member : ansi.colorNumbers 38 style.foreground ∈ ansi.numberGroups style page := by
      simp [numberGroups]
    intro empty
    exact ansi.ne_nil_of_mem_numberGroups style page _ member
      (List.flatten_eq_nil_iff.mp empty _ member)
  rw [Pen.ofSequence?, toList_switch, parameters_eq, numberText,
    Pen.numbers_intercalate nonempty, obey?_flatten_numberGroups]

end Ansi

end Highlight
