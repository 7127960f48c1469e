import Highlight.Proofs.Render.Lines
import Highlight.Proofs.Render.Markup

/-!
# Reading rendered markup

Rendered output is one element.  A reader of it finds every character of the
pieces in order.  A newline stands in that element alone; a character of a run
stands in the element of its line, if lines are numbered, and there in the element
of its run, if the run has one.

The prefix of the classes is written as it is.  All statements are for prefixes
that can stand between quotes.
-/

namespace Highlight

/-- A `span` that bears no line number. -/
def Element.isTokenSpan (element : Element) : Bool :=
  element.name == "span" && (element.attribute? "data-line").isNone

/-- The classes of the token spans that the character stands in, the innermost
first. -/
def Placed.tokenClasses (placed : Placed) : List (Option String) :=
  (placed.inside.filter Element.isTokenSpan).map (·.attribute? "class")

namespace Color

/-- What holds of the sign in front and of all digits holds of a written colour. -/
theorem forall_mem_toText (color : Color) (holds : Char → Prop) (hash : holds '#')
    (digits : ∀ n < 16, holds (Nat.digitChar n)) : ∀ char ∈ color.toText.toList, holds char := by
  have byte (value : UInt8) : ∀ char ∈ byteDigits value, holds char := by
    have valueLt := value.toNat_lt
    have high : value.toNat / 16 < 16 := by omega
    exact List.forall_mem_cons.mpr ⟨digits _ high,
      List.forall_mem_singleton.mpr (digits _ (Nat.mod_lt _ (by decide)))⟩
  rw [toText, String.toList_ofList]
  refine List.forall_mem_cons.mpr ⟨hash, ?_⟩
  simp only [List.forall_mem_append]
  exact ⟨⟨byte color.red, byte color.green⟩, byte color.blue⟩

end Color

namespace Html

open Highlight.Markup

/-! ## The elements of the output -/

/-- The element that holds the output. -/
def page (html : Html) (theme : Theme) : Element where
  name := "pre"
  attributes :=
    ("class", html.classPrefix ++ "code") ::
      if html.inlineStyles then [("style", declarations theme.defaultStyle none)] else []

/-- The element of a line. -/
def lineElement (html : Html) (number : Int32) : Element where
  name := "span"
  attributes := [("class", html.classPrefix ++ "line"), ("data-line", toString number)]

/-- The element of a run, unless the run needs none. -/
def runElement? (html : Html) (theme : Theme) (kind : TokenKind) : Option Element :=
  if kind = .whitespace then none
  else if html.inlineStyles then
    if theme.styleOf kind = theme.defaultStyle then none
    else some ⟨"span", [("style", declarations (theme.styleOf kind) theme.background)]⟩
  else some ⟨"span", [("class", html.classPrefix ++ kind.key)]⟩

theorem name_page (html : Html) (theme : Theme) : (html.page theme).name = "pre" :=
  rfl

theorem toList_openTag (html : Html) (theme : Theme) :
    (html.openTag theme).toList = Markup.openTag (html.page theme) := by
  unfold openTag page
  split
  · simp [Markup.openTag, attributeText]
  · simp [Markup.openTag, attributeText]

/-- The element of a run is a `span` with a style or a class. -/
theorem runElement?_eq_some {html : Html} {theme : Theme} {kind : TokenKind} {element : Element}
    (elementEq : html.runElement? theme kind = some element) :
    ∃ pair, element = ⟨"span", [pair]⟩ ∧
      (pair = ("style", declarations (theme.styleOf kind) theme.background) ∨
        pair = ("class", html.classPrefix ++ kind.key)) := by
  unfold runElement? at elementEq
  split at elementEq
  · cases elementEq
  · split at elementEq
    · split at elementEq
      · cases elementEq
      · cases elementEq
        exact ⟨_, rfl, Or.inl rfl⟩
    · cases elementEq
      exact ⟨_, rfl, Or.inr rfl⟩

/-- The tag of a run opens the element of the run. -/
theorem runTag?_eq (html : Html) (theme : Theme) (kind : TokenKind) :
    html.runTag? theme kind =
      (html.runElement? theme kind).map fun element => String.ofList (Markup.openTag element) := by
  unfold runTag? runElement?
  split
  · rfl
  · split
    · simp only
      split
      · rfl
      · rw [Option.map_some, Option.some_inj, ← String.toList_inj]
        simp [Markup.openTag, attributeText]
    · rw [Option.map_some, Option.some_inj, ← String.toList_inj]
      simp [Markup.openTag, attributeText]

theorem closeTag_span (attributes : List (String × String)) :
    closeTag ⟨"span", attributes⟩ = "</span>".toList := by
  simp [closeTag]

theorem lineTag_eq (html : Html) (number : Int32) :
    (html.lineTag number).toList = Markup.openTag (html.lineElement number) := by
  unfold lineTag lineElement
  simp [Markup.openTag, attributeText]

theorem numbered_eq (line : Line) (html : Html) (number : Int32) :
    line.numbered html number =
      Markup.openTag (html.lineElement number) ++ line.content ++
        closeTag (html.lineElement number) ++ line.ending := by
  rw [Line.numbered, Line.rest, lineTag_eq, lineElement, closeTag_span]
  simp only [List.append_assoc]

/-! ## What is written between quotes -/

/-- The characters of names, numbers and declarations. -/
def isValueChar (char : Char) : Bool :=
  char.isAlphanum || ['#', ':', ';', '-', '_', ' '].contains char

/-- The text holds nothing but characters of names, numbers and declarations. -/
def IsValue (text : List Char) : Prop :=
  ∀ char ∈ text, isValueChar char = true

instance (text : List Char) : Decidable (IsValue text) :=
  decidable_of_iff (text.all isValueChar = true) List.all_eq_true

theorem isValue_append {left right : List Char} :
    IsValue (left ++ right) ↔ IsValue left ∧ IsValue right :=
  List.forall_mem_append

/-- Such a text lacks every other character. -/
theorem IsValue.notMem {text : List Char} (isValue : IsValue text) {char : Char}
    (other : isValueChar char = false) : char ∉ text := by
  intro member
  rw [isValue char member] at other
  cases other

theorem IsValue.quotable {text : List Char} (isValue : IsValue text) : Quotable text := by
  constructor
  · exact isValue.notMem (by decide)
  · exact isValue.notMem (by decide)

theorem isValue_toText (color : Color) : IsValue color.toText.toList :=
  color.forall_mem_toText (isValueChar · = true) (by decide) (by decide)

theorem isValue_repr (number : Nat) : IsValue (Nat.repr number).toList := by
  intro char member
  rw [Nat.repr, String.toList_ofList] at member
  have digit := Nat.isDigit_of_mem_toDigits (by decide) (by decide) member
  rw [isValueChar, Char.isAlphanum, digit, Bool.or_true, Bool.true_or]

/-- The number of a line is written with digits, and a sign once it has wrapped
around. -/
theorem isValue_toString (number : Int32) : IsValue (toString number).toList := by
  have sign : IsValue "-".toList := by decide
  change IsValue (toString number.toInt).toList
  cases number.toInt with
  | ofNat value => exact isValue_repr value
  | negSucc value =>
      change IsValue ("-" ++ Nat.repr (value + 1)).toList
      rw [String.toList_append]
      exact isValue_append.mpr ⟨sign, isValue_repr (value + 1)⟩

theorem isValue_key (kind : TokenKind) : IsValue kind.key.toList := by
  cases kind <;> decide

theorem isValue_declarations (style : Style) (page : Option Color) :
    IsValue (declarations style page).toList := by
  have nothing : IsValue "".toList := by decide
  have flag (set : Bool) {text : String} (isValue : IsValue text.toList) :
      IsValue (if set then text else "").toList := by
    cases set with
    | false => exact nothing
    | true => exact isValue
  unfold declarations
  simp only [String.toList_append, isValue_append]
  refine ⟨⟨⟨⟨⟨⟨by decide, isValue_toText _⟩, by decide⟩, ?_⟩, flag _ (by decide)⟩,
    flag _ (by decide)⟩, flag _ (by decide)⟩
  cases style.ownBackground page with
  | none => exact nothing
  | some color =>
      simp only [String.toList_append, isValue_append]
      exact ⟨⟨by decide, isValue_toText color⟩, by decide⟩

/-- A class can be written if its prefix can. -/
theorem quotable_class {html : Html} (plain : Quotable html.classPrefix.toList) {name : String}
    (quotable : Quotable name.toList) :
    Quotable "class".toList ∧ Quotable (html.classPrefix ++ name).toList := by
  rw [String.toList_append]
  exact ⟨by decide, quotable_append.mpr ⟨plain, quotable⟩⟩

theorem quotable_style (style : Style) (page : Option Color) :
    Quotable "style".toList ∧ Quotable (declarations style page).toList :=
  ⟨by decide, (isValue_declarations style page).quotable⟩

theorem isName_span : IsName "span".toList := by
  decide

theorem spellable_page {html : Html} (plain : Quotable html.classPrefix.toList) (theme : Theme) :
    Spellable (html.page theme) := by
  have name : IsName "pre".toList := by decide
  refine ⟨name, List.forall_mem_cons.mpr ⟨quotable_class plain (by decide), ?_⟩⟩
  split
  · exact List.forall_mem_singleton.mpr (quotable_style theme.defaultStyle none)
  · exact List.forall_mem_nil _

theorem spellable_lineElement {html : Html} (plain : Quotable html.classPrefix.toList)
    (number : Int32) : Spellable (html.lineElement number) := by
  have attributeName : Quotable "data-line".toList := by decide
  exact ⟨isName_span, List.forall_mem_cons.mpr ⟨quotable_class plain (by decide),
    List.forall_mem_singleton.mpr ⟨attributeName, (isValue_toString number).quotable⟩⟩⟩

theorem spellable_runElement? {html : Html} (plain : Quotable html.classPrefix.toList)
    {theme : Theme} {kind : TokenKind} {element : Element}
    (elementEq : html.runElement? theme kind = some element) : Spellable element := by
  obtain ⟨pair, rfl, pairEq⟩ := runElement?_eq_some elementEq
  refine ⟨isName_span, List.forall_mem_singleton.mpr ?_⟩
  rcases pairEq with rfl | rfl
  · exact quotable_style (theme.styleOf kind) theme.background
  · exact quotable_class plain (isValue_key kind).quotable

/-! ## Characters and runs -/

/-- An escaped character is read as the character. -/
theorem item?_escapeChar (char : Char) (rest : List Char) :
    item? (escapeChar char ++ rest) = some (.char char, (escapeChar char).length) := by
  unfold escapeChar
  split
  · rename_i ampersand
    rw [ampersand]
    exact item?_entity (by decide : ';' ∉ "amp".toList) rfl rest
  split
  · rename_i less
    rw [less]
    exact item?_entity (by decide : ';' ∉ "lt".toList) rfl rest
  split
  · rename_i greater
    rw [greater]
    exact item?_entity (by decide : ';' ∉ "gt".toList) rfl rest
  split
  · rename_i quote
    rw [quote]
    exact item?_entity (by decide : ';' ∉ "quot".toList) rfl rest
  split
  · rename_i apostrophe
    rw [apostrophe]
    exact item?_entity (by decide : ';' ∉ "#39".toList) rfl rest
  · rename_i ampersand less _ _ _
    exact (if_neg less).trans (if_neg ampersand)

theorem escapeChar_ne_nil (char : Char) : escapeChar char ≠ [] := by
  intro empty
  have read := item?_escapeChar char []
  rw [empty] at read
  cases read

/-- Escaped characters are shown where they stand. -/
theorem shows_escape (outer : Element) (opened : List Element) (body : List Char) :
    Shows (outer :: opened) (escape body) (body.map (⟨·, outer :: opened⟩)) := by
  induction body with
  | nil => exact Shows.nil _
  | cons char body ih =>
      have first : Shows (outer :: opened) (escapeChar char) [⟨char, outer :: opened⟩] := by
        intro rest
        exact rest?_char (escapeChar_ne_nil char) (item?_escapeChar char rest) outer opened
      exact first.append ih

/-- The characters of a run are shown in the element of the run, if it has one. -/
theorem shows_run {html : Html} (plain : Quotable html.classPrefix.toList) (theme : Theme)
    (kind : TokenKind) (body : List Char) (outer : Element) (opened : List Element) :
    Shows (outer :: opened) (html.run theme kind body)
      (body.map (⟨·, (html.runElement? theme kind).toList ++ outer :: opened⟩)) := by
  rw [run, runTag?_eq]
  cases elementEq : html.runElement? theme kind with
  | none => exact shows_escape outer opened body
  | some element =>
      have spellable := spellable_runElement? plain elementEq
      obtain ⟨pair, rfl, _⟩ := runElement?_eq_some elementEq
      simp only [Option.map_some, String.toList_ofList]
      rw [← closeTag_span [pair]]
      exact (shows_escape _ (outer :: opened) body).element spellable

/-! ## Lines -/

/-- The elements of the line with a number: one if lines are numbered. -/
def lineElements (html : Html) (number : Int32) : List Element :=
  if html.lineNumbers then [html.lineElement number] else []

/-- The elements that a run stands in, the innermost first. -/
def inside (html : Html) (theme : Theme) (number : Int32) (kind : TokenKind) : List Element :=
  (html.runElement? theme kind).toList ++ (html.lineElements number ++ [html.page theme])

/-- The characters of the pieces with the elements they stand in, for lines counted
from `number`. -/
def placed (html : Html) (theme : Theme) : (number : Int32) → List Piece → List Placed
  | _, [] => []
  | number, .newline :: rest => ⟨'\n', [html.page theme]⟩ :: html.placed theme (number + 1) rest
  | number, .run kind body :: rest =>
      body.map (⟨·, html.inside theme number kind⟩) ++ html.placed theme number rest

theorem eq_nil_of_lines {html : Html} {theme : Theme} {pieces : List Piece}
    (linesEq : html.lines theme pieces = []) : pieces = [] := by
  cases pieces with
  | nil => rfl
  | cons piece rest =>
      cases piece with
      | newline => cases linesEq
      | run kind body =>
          rw [lines] at linesEq
          cases restEq : html.lines theme rest with
          | nil =>
              rw [restEq] at linesEq
              cases linesEq
          | cons line others =>
              rw [restEq] at linesEq
              cases linesEq

theorem shows_newline (outer : Element) (opened : List Element) :
    Shows (outer :: opened) ['\n'] [⟨'\n', outer :: opened⟩] :=
  shows_escape outer opened ['\n']

/-- Lines without numbers show the characters of the pieces. -/
theorem shows_bare {html : Html} (plain : Quotable html.classPrefix.toList)
    (bare : html.lineNumbers = false) (theme : Theme) (number : Int32) (pieces : List Piece) :
    Shows [html.page theme] ((html.lines theme pieces).flatMap Line.bare)
      (html.placed theme number pieces) := by
  have noElement (number : Int32) : html.lineElements number = [] := by
    rw [lineElements, bare]
    rfl
  induction pieces generalizing number with
  | nil => exact Shows.nil _
  | cons piece rest ih =>
      cases piece with
      | newline => exact (shows_newline (html.page theme) []).append (ih (number + 1))
      | run kind body =>
          have markupEq : (html.lines theme (.run kind body :: rest)).flatMap Line.bare =
              html.run theme kind body ++ (html.lines theme rest).flatMap Line.bare := by
            rw [lines]
            cases html.lines theme rest with
            | nil => simp [Line.bare, Line.ending]
            | cons line others => simp [Line.bare, Line.ending]
          rw [markupEq, placed, inside, noElement]
          exact (shows_run plain theme kind body (html.page theme) []).append (ih number)

/-- Lines with numbers show the characters of the pieces. -/
theorem shows_numberLines {html : Html} (plain : Quotable html.classPrefix.toList)
    (numbered : html.lineNumbers = true) (theme : Theme) (number : Int32) (pieces : List Piece) :
    Shows [html.page theme] (html.numberLines number (html.lines theme pieces))
      (html.placed theme number pieces) := by
  have oneElement (number : Int32) : html.lineElements number = [html.lineElement number] := by
    rw [lineElements, numbered]
    rfl
  induction pieces generalizing number with
  | nil => exact Shows.nil _
  | cons piece rest ih =>
      have spellable := spellable_lineElement plain number
      cases piece with
      | newline =>
          rw [lines, numberLines, numbered_eq]
          have line := (Shows.nil (html.lineElement number :: [html.page theme])).element spellable
          exact (line.append (shows_newline (html.page theme) [])).append (ih (number + 1))
      | run kind body =>
          have run := shows_run plain theme kind body (html.lineElement number) [html.page theme]
          rw [lines, placed, inside, oneElement]
          cases restEq : html.lines theme rest with
          | nil =>
              rw [eq_nil_of_lines restEq, placed, List.append_nil, numberLines, numberLines,
                numbered_eq, List.append_nil]
              have shown := run.element spellable
              rwa [← List.append_nil (_ ++ closeTag _)] at shown
          | cons line others =>
              -- The run joins the first line of the rest, behind the tag of that line.
              have shown := ih number
              rw [restEq, numberLines, numbered_eq] at shown
              simp only [numberLines, numbered_eq, List.append_assoc] at shown ⊢
              exact run.behind_openTag spellable shown

theorem shows_inner {html : Html} (plain : Quotable html.classPrefix.toList) (theme : Theme)
    (pieces : List Piece) :
    Shows [html.page theme] (html.inner (html.lines theme pieces))
      (html.placed theme 1 pieces) := by
  unfold inner
  split
  · rename_i numbered
    exact shows_numberLines plain numbered theme 1 pieces
  · rename_i bare
    exact shows_bare plain (Bool.eq_false_iff.mpr bare) theme 1 pieces

/-! ## Tokens in a document -/

/-- The text under tokens with slices is rendered as a document. -/
theorem document?_render {html : Html} (plain : Quotable html.classPrefix.toList) (theme : Theme)
    {text : String} {tokens : List Token} (inText : ∀ token ∈ tokens, token.InText text.toList) :
    ∃ output, html.render text tokens theme = .ok output ∧
      document? output =
        some (html.page theme, html.placed theme 1 (Piece.under text.toList tokens)) := by
  have closing : "</pre>".toList = closeTag (html.page theme) := by
    rw [closeTag, name_page]
    rfl
  have written (inner : List Char) :
      html.openTag theme ++ String.ofList inner ++ "</pre>" =
        String.ofList
          (Markup.openTag (html.page theme) ++ inner ++ closeTag (html.page theme)) := by
    rw [← String.toList_inj, String.toList_append, String.toList_append, closing,
      String.toList_ofList, String.toList_ofList, toList_openTag]
  rw [render_eq, Piece.ofTokens_eq_ok inText]
  refine ⟨_, rfl, ?_⟩
  simp only [written]
  exact (shows_inner plain theme _).document (spellable_page plain theme)

/-- What is read off each character of a document, if it depends on the kind of the
run only, is read off the pieces. -/
theorem map_placed {α : Type} {html : Html} {theme : Theme} {read : Placed → α}
    (look : Option TokenKind → Char → α)
    (newline : read ⟨'\n', [html.page theme]⟩ = look none '\n')
    (run : ∀ number kind char, read ⟨char, html.inside theme number kind⟩ =
      look (if kind = .whitespace then none else some kind) char)
    (number : Int32) (pieces : List Piece) :
    (html.placed theme number pieces).map read = pieces.flatMap (Piece.paint look) := by
  induction pieces generalizing number with
  | nil => rfl
  | cons piece rest ih =>
      rw [List.flatMap_cons]
      cases piece with
      | newline => rw [placed, List.map_cons, newline, ih, Piece.paint, List.singleton_append]
      | run kind body =>
          rw [placed, List.map_append, List.map_map, ih, Piece.paint]
          simp only [Function.comp_def, run]

/-- The classes of the token spans around a character of a kind, or around a bare
one. -/
def classesOf (html : Html) (kind : Option TokenKind) : List (Option String) :=
  kind.toList.map fun kind => some (html.classPrefix ++ kind.key)

/-- With classes a run outside whitespace stands in one token span. -/
theorem tokenClasses_inside {html : Html} (classes : html.inlineStyles = false) (theme : Theme)
    (number : Int32) (kind : TokenKind) (char : Char) :
    Placed.tokenClasses ⟨char, html.inside theme number kind⟩ =
      html.classesOf (if kind = .whitespace then none else some kind) := by
  have noPage : (html.page theme).isTokenSpan = false := rfl
  have noLine : (html.lineElements number).filter Element.isTokenSpan = [] := by
    unfold lineElements
    split
    · rfl
    · rfl
  have runSpan (value : String) : Element.isTokenSpan ⟨"span", [("class", value)]⟩ = true := rfl
  unfold Placed.tokenClasses inside runElement? classesOf
  rw [List.filter_append, List.filter_append, noLine]
  by_cases whitespace : kind = .whitespace
  · simp [whitespace, noPage]
  · simp [whitespace, classes, noPage, runSpan, Element.attribute?]

/-- The characters of a document are those under the tokens. -/
theorem map_char_placed (html : Html) (theme : Theme) (text : List Char) (tokens : List Token) :
    (html.placed theme 1 (Piece.under text tokens)).map Placed.char =
      tokens.flatMap (Token.text text) := by
  rw [map_placed (fun _ char => char) rfl fun _ _ _ => rfl, Piece.flatMap_paint_under]
  simp only [List.map_id']

/-- With classes the spans of a document show the kinds of the tokens. -/
theorem map_tokenClasses_placed {html : Html} (classes : html.inlineStyles = false)
    (theme : Theme) (text : List Char) (tokens : List Token) :
    (html.placed theme 1 (Piece.under text tokens)).map (fun p => (p.char, p.tokenClasses)) =
      tokens.flatMap fun token => (token.text text).map fun char =>
        (char,
          if token.kind = .whitespace ∨ char = '\n' then []
          else [some (html.classPrefix ++ token.kind.key)]) := by
  have runClasses (number : Int32) (kind : TokenKind) (char : Char) :=
    congrArg (Prod.mk char) (tokenClasses_inside classes theme number kind char)
  rw [map_placed (fun kind char => (char, html.classesOf kind)) rfl runClasses,
    Piece.flatMap_paint_under]
  simp only [classesOf, apply_ite Option.toList, apply_ite (List.map _)]
  rfl

end Html

end Highlight
