import Highlight.Proofs.Render.Css
import Highlight.Proofs.Render.Html
import Highlight.Proofs.Render.Pen
import Highlight.Proofs.Theme

/-!
# What rendered markup looks like

Output is read with the style sheet that goes with it, or by itself if it has inline
styles.  A character of a token then has the colours of its style.  Its emphasis is
that of its style and that of the page together: declarations only ever add emphasis, so
what the page has is inherited where the style has it not.

`Html.render_looks` says so for every character, and for which styles the look is the
one that the theme gives: those that have all the emphasis of the default style.  A
terminal is told every style afresh and always draws the style alone.
-/

namespace Highlight

open Highlight.Css

namespace Style

/-- The look of a style by itself, in front of a background. -/
def alone (style : Style) (background : Option Color) : Look where
  color := style.foreground
  background := style.background.or background
  bold := style.bold
  italic := style.italic
  underline := style.underline

/-- The look of a style that adds to the emphasis around it. -/
def within (style : Style) (outer : Look) : Look where
  color := style.foreground
  background := style.background.or outer.background
  bold := outer.bold || style.bold
  italic := outer.italic || style.italic
  underline := outer.underline || style.underline

/-- The style has all the emphasis of another one. -/
structure Covers (style other : Style) : Prop where
  bold : other.bold = true → style.bold = true
  italic : other.italic = true → style.italic = true
  underline : other.underline = true → style.underline = true

/-- The declarations for a style on a page with a given background. -/
def declared (style : Style) (page : Option Color) : List Declaration :=
  ⟨"color", style.foreground.toText⟩ ::
    (((style.ownBackground page).map fun color =>
        (⟨"background-color", color.toText⟩ : Declaration)).toList
      ++ (if style.bold then [⟨"font-weight", "bold"⟩] else [])
      ++ (if style.italic then [⟨"font-style", "italic"⟩] else [])
      ++ (if style.underline then [⟨"text-decoration", "underline"⟩] else []))

theorem within_plain (style : Style) (color : Color) (background : Option Color) :
    style.within (Look.plain color background) = style.alone background := by
  simp [within, alone, Look.plain]

/-- A style within another looks as it does alone exactly if it has all the emphasis of the
other one. -/
theorem within_eq_alone_iff (style other : Style) (background : Option Color) :
    style.within (other.alone background) = style.alone (other.alone background).background ↔
      style.Covers other := by
  simp only [within, alone, Look.mk.injEq, true_and, Bool.or_eq_right_iff_imp]
  constructor
  · rintro ⟨bold, italic, underline⟩
    exact ⟨bold, italic, underline⟩
  · rintro ⟨bold, italic, underline⟩
    exact ⟨bold, italic, underline⟩

/-- A style within itself looks the same. -/
theorem within_alone_self (style : Style) (background : Option Color) :
    style.within (style.alone background) = style.alone background := by
  simp [within, alone, ← Option.or_assoc]

end Style

/-! ## Declarations of a style -/

namespace Color

theorem toList_toText_ne_nil (color : Color) : color.toText.toList ≠ [] := by
  rw [toText, String.toList_ofList]
  exact List.cons_ne_nil _ _

/-- A property that can be written can be given a colour. -/
theorem plain_declaration {property : String} (isWord : IsWord property.toList)
    (noColon : ':' ∉ property.toList) (color : Color) :
    Declaration.Plain ⟨property, color.toText⟩ := by
  have word := color.forall_mem_toText (isWordChar · = true) (by decide) (by decide)
  have notColon := color.forall_mem_toText (· ≠ ':') (by decide) (by decide)
  exact ⟨isWord, ⟨color.toList_toText_ne_nil, List.all_eq_true.mpr word⟩, noColon,
    fun member => notColon _ member rfl⟩

/-- A written colour is read as the value of a property. -/
theorem color?_toText (color : Color) : color? color.toText = some color := by
  have hash : color.toText.toList.head? = some '#' := by
    rw [toText, String.toList_ofList]
    rfl
  rw [color?, if_pos hash, ofText?_toText]

end Color

namespace Style

theorem plain_of_mem_declared (style : Style) (page : Option Color) :
    ∀ declaration ∈ style.declared page, declaration.Plain := by
  have flag (set : Bool) {declaration : Declaration} (plain : declaration.Plain) :
      ∀ other ∈ if set then [declaration] else [], other.Plain := by
    cases set with
    | false => exact List.forall_mem_nil _
    | true => exact List.forall_mem_singleton.mpr plain
  have background : ∀ other ∈ ((style.ownBackground page).map fun color =>
      (⟨"background-color", color.toText⟩ : Declaration)).toList, other.Plain := by
    cases style.ownBackground page with
    | none => exact List.forall_mem_nil _
    | some color =>
        exact List.forall_mem_singleton.mpr (color.plain_declaration (by decide) (by decide))
  refine List.forall_mem_cons.mpr ⟨Color.plain_declaration (by decide) (by decide) _, ?_⟩
  simp only [List.forall_mem_append]
  refine ⟨⟨⟨background, flag _ ?_⟩, flag _ ?_⟩, flag _ ?_⟩
  all_goals exact ⟨by decide, by decide, by decide, by decide⟩

/-- The declarations stand side by side. -/
theorem spell_declared (style : Style) (page : Option Color) :
    ' ' :: (Html.declarations style page).toList = (style.declared page).flatMap spell := by
  have flag (set : Bool) (text : String) (declaration : Declaration)
      (textEq : text.toList = spell declaration) :
      (if set then text else "").toList = (if set then [declaration] else []).flatMap spell := by
    cases set with
    | false => rfl
    | true => rw [if_pos rfl, if_pos rfl, List.flatMap_singleton, textEq]
  have bold := flag style.bold " font-weight: bold;" ⟨"font-weight", "bold"⟩ rfl
  have italic := flag style.italic " font-style: italic;" ⟨"font-style", "italic"⟩ rfl
  have underline :=
    flag style.underline " text-decoration: underline;" ⟨"text-decoration", "underline"⟩ rfl
  simp only [Html.declarations, declared, String.toList_append, List.flatMap_cons,
    List.flatMap_append, bold, italic, underline]
  cases style.ownBackground page with
  | none => simp [spell, written]
  | some color => simp [spell, written]

/-- No brace stands among the declarations. -/
theorem ne_brace_of_mem_declarations (style : Style) (page : Option Color) :
    ∀ char ∈ (Html.declarations style page).toList, char ≠ '\x7b' ∧ char ≠ '\x7d' := by
  have isValue := Html.isValue_declarations style page
  intro char member
  constructor
  · rintro rfl
    exact isValue.notMem (by decide) member
  · rintro rfl
    exact isValue.notMem (by decide) member

/-- The declarations are read back, with or without a blank around them. -/
theorem declarations_declared (style : Style) (page : Option Color) :
    Css.declarations (Html.declarations style page).toList = style.declared page ∧
      Css.declarations (' ' :: ((Html.declarations style page).toList ++ [' '])) =
        style.declared page := by
  have plain := style.plain_of_mem_declared page
  constructor
  · have read := declarations_flatMap_spell plain []
    rw [List.append_nil, ← spell_declared, declarations_cons_blank] at read
    rw [read]
    exact List.append_nil _
  · have read := declarations_flatMap_spell plain [' ']
    rw [← spell_declared, List.cons_append] at read
    rw [read]
    exact List.append_nil _

/-- Where the page shows, leaving its background out changes nothing. -/
theorem or_ownBackground (style : Style) {page around : Option Color}
    (behind : ∀ color, page = some color → around = some color) :
    (style.ownBackground page).or around = style.background.or around := by
  rw [ownBackground]
  cases style.background with
  | none => rfl
  | some own =>
      by_cases same : page = some own
      · simp [same, behind own same, Option.filter]
      · simp [Ne.symm same, Option.filter]

/-- An element with the declarations of a style takes its colours and adds its emphasis,
if it stands in front of the background that the declarations are for. -/
theorem enter_declared (style : Style) {page : Option Color} {outer : Look}
    (behind : ∀ color, page = some color → outer.background = some color) :
    outer.enter (style.declared page) = style.within outer := by
  have bold (look : Look) : (if style.bold then [⟨"font-weight", "bold"⟩] else []).foldl
      Look.obey look = { look with bold := look.bold || style.bold } := by
    cases style.bold with
    | false => simp
    | true => simp [Look.obey]
  have italic (look : Look) : (if style.italic then [⟨"font-style", "italic"⟩] else []).foldl
      Look.obey look = { look with italic := look.italic || style.italic } := by
    cases style.italic with
    | false => simp
    | true => simp [Look.obey]
  have underline (look : Look) :
      (if style.underline then [⟨"text-decoration", "underline"⟩] else []).foldl
        Look.obey look = { look with underline := look.underline || style.underline } := by
    cases style.underline with
    | false => simp
    | true => simp [Look.obey]
  have color (look : Look) : look.obey ⟨"color", style.foreground.toText⟩ =
      { look with color := style.foreground } := by
    simp [Look.obey, Color.color?_toText]
  have background (look : Look) : (((style.ownBackground page).map fun color =>
      (⟨"background-color", color.toText⟩ : Declaration)).toList).foldl Look.obey look =
        { look with background := (style.ownBackground page).or look.background } := by
    cases style.ownBackground page with
    | none => rfl
    | some color => simp [Look.obey, Color.color?_toText]
  simp only [Look.enter, declared, List.foldl_cons, List.foldl_append, color, background, bold,
    italic, underline, style.or_ownBackground behind, within, Bool.false_or]

end Style

/-! ## The style sheet -/

namespace Html

/-- What is declared for the numbers in front of lines. -/
def numberDeclarations : String :=
  "content: attr(data-line); display: inline-block; width: 4ch; margin-right: 1ch; "
    ++ "text-align: right; opacity: 0.5;"

/-- The kinds that the style sheet has rules for. -/
def sheetKinds : List TokenKind :=
  TokenKind.all.filter (· != .whitespace)

/-- The rules of the style sheet: what stands behind the prefix, and the declarations. -/
def sheetTable (html : Html) (theme : Theme) : List (String × String) :=
  ("code", declarations theme.defaultStyle none) ::
    ((sheetKinds.map fun kind =>
        (kind.key, declarations (theme.styleOf kind) theme.background))
      ++ (if html.lineNumbers then [("line::before", numberDeclarations)] else []))

/-- A selector for the class with the given name behind the prefix. -/
def selector (html : Html) (pair : String × String) : String × String :=
  ("." ++ html.classPrefix ++ pair.1, pair.2)

/-- The style sheet that goes with the output: none if it has inline styles. -/
def sheet (html : Html) (theme : Theme) : List Rule :=
  if html.inlineStyles then [] else rules (html.stylesheet theme).toList

/-- Style sheets can select the classes of the output, if these are used. -/
def Selectable (html : Html) : Prop :=
  html.inlineStyles = false → isIdentifier (html.classPrefix ++ "code").toList = true

instance (html : Html) : Decidable html.Selectable :=
  inferInstanceAs (Decidable (_ → _))

theorem toList_stylesheet (html : Html) (theme : Theme) :
    (html.stylesheet theme).toList =
      ((html.sheetTable theme).map html.selector).flatMap spellRule := by
  have ruleEq (name body : String) :
      (rule (html.classPrefix ++ name) body).toList = spellRule (html.selector (name, body)) := by
    simp [rule, spellRule, writtenRule, selector]
  have numberEq : (if html.lineNumbers then
      rule (html.classPrefix ++ "line::before") numberDeclarations else "").toList =
      (if html.lineNumbers then [("line::before", numberDeclarations)] else []).flatMap
        fun pair => spellRule (html.selector pair) := by
    cases html.lineNumbers with
    | false => rfl
    | true => rw [if_pos rfl, if_pos rfl, List.flatMap_singleton, ruleEq]
  rw [List.flatMap_map, sheetTable, List.flatMap_cons, List.flatMap_append, ← numberEq,
    List.flatMap_map, ← ruleEq]
  simp only [← ruleEq]
  rw [stylesheet, String.toList_append, String.toList_append, String.toList_join,
    List.flatMap_map, List.append_assoc]
  rfl

/-- The lines with a name hold the default style or the styles of the kinds of that name. -/
theorem declarations_filter_sheetTable (html : Html) (theme : Theme) {name : String}
    (isName : name.toList.all isNameChar = true) :
    ((html.sheetTable theme).filter (·.1 == name)).flatMap (fun entry =>
        Css.declarations (' ' :: (entry.2.toList ++ [' ']))) =
      (if name = "code" then theme.defaultStyle.declared none else []) ++
        (sheetKinds.filter (·.key == name)).flatMap fun kind =>
          (theme.styleOf kind).declared theme.background := by
  -- The line for numbers is no candidate: its selector goes on behind the class.
  have noNumber : (if html.lineNumbers then [("line::before", numberDeclarations)] else []).filter
      (·.1 == name) = [] := by
    rw [List.filter_eq_nil_iff]
    intro entry member same
    split at member
    · cases List.mem_singleton.mp member
      cases beq_iff_eq.mp same
      revert isName
      decide
    · cases member
  have read (style : Style) (page : Option Color) := (style.declarations_declared page).2
  have kindsEq : (sheetKinds.map fun kind =>
        (kind.key, declarations (theme.styleOf kind) theme.background)).filter (·.1 == name) =
      (sheetKinds.filter (·.key == name)).map fun kind =>
        (kind.key, declarations (theme.styleOf kind) theme.background) := List.filter_map
  rw [sheetTable, List.filter_cons, List.filter_append, noNumber, List.append_nil, kindsEq]
  by_cases code : name = "code"
  · rw [if_pos (beq_iff_eq.mpr code.symm), if_pos code, List.flatMap_cons, List.flatMap_map]
    simp only [read]
  · rw [if_neg fun same => code (beq_iff_eq.mp same).symm, if_neg code, List.flatMap_map]
    simp only [read, List.nil_append]

theorem ne_brace_of_mem_numberDeclarations :
    ∀ char ∈ numberDeclarations.toList, char ≠ '\x7b' ∧ char ≠ '\x7d' := by
  have braceFree : numberDeclarations.toList.all
      (fun char => char != '\x7b' && char != '\x7d') = true := by
    decide +kernel
  simpa using braceFree

section

variable {html : Html} (identifier : isIdentifier (html.classPrefix ++ "code").toList = true)
include identifier

/-- Every line of the style sheet can be read. -/
theorem isRuleLine_of_mem (theme : Theme) :
    ∀ pair ∈ (html.sheetTable theme).map html.selector, IsRuleLine pair := by
  have front : IsWord ('.' :: html.classPrefix.toList) := by
    apply isWord_dot
    intro char member
    apply isNameChar_of_mem identifier
    rw [String.toList_append]
    exact List.mem_append_left _ member
  have selectorWord {name body : String} (isWord : IsWord name.toList) :
      IsWord (html.selector (name, body)).1.toList := by
    have word := front.append isWord
    simpa [selector] using word
  have line {name body : String} (isWord : IsWord name.toList)
      (braceFree : ∀ char ∈ body.toList, char ≠ '\x7b' ∧ char ≠ '\x7d') :
      IsRuleLine (html.selector (name, body)) :=
    ⟨selectorWord isWord, braceFree⟩
  have styleLine (style : Style) (page : Option Color) {name : String}
      (isWord : IsWord name.toList) : IsRuleLine (html.selector (name, declarations style page)) :=
    line isWord (style.ne_brace_of_mem_declarations page)
  intro pair member
  obtain ⟨entry, entryMember, rfl⟩ := List.mem_map.mp member
  rcases List.mem_cons.mp entryMember with rfl | entryMember
  · exact styleLine theme.defaultStyle none (by decide)
  rcases List.mem_append.mp entryMember with kindMember | numberMember
  · obtain ⟨kind, _, rfl⟩ := List.mem_map.mp kindMember
    apply styleLine (theme.styleOf kind) theme.background
    cases kind <;> decide
  · split at numberMember
    · cases List.mem_singleton.mp numberMember
      exact line (by decide) ne_brace_of_mem_numberDeclarations
    · cases numberMember

/-- An element of a class is given the style of the kind that the class names, or the default
style if it holds the output. -/
theorem selected_sheet (classes : html.inlineStyles = false) (theme : Theme) {element : Element}
    (name : String) (classEq : element.attribute? "class" = some (html.classPrefix ++ name))
    (starts : name.toList.head?.any isNameStart = true)
    (isName : name.toList.all isNameChar = true) :
    selected (html.sheet theme) element =
      (if name = "code" then theme.defaultStyle.declared none else []) ++
        (sheetKinds.filter (·.key == name)).flatMap fun kind =>
          (theme.styleOf kind).declared theme.background := by
  have named : isIdentifier (html.classPrefix ++ name).toList = true := by
    rw [String.toList_append] at identifier ⊢
    exact isIdentifier_append identifier starts isName
  have bare : ∀ char ∈ (html.classPrefix ++ name).toList, isBlank char = false := by
    intro char member
    exact isBlank_of_isNameChar (isNameChar_of_mem named char member)
  have nothing : ∀ char ∈ ([] : List Char), isBlank char = true := List.forall_mem_nil _
  have rulesEq : html.sheet theme = ((html.sheetTable theme).map html.selector).map ruleOf := by
    have read := rules_flatMap_spellRule (isRuleLine_of_mem identifier theme) nothing
    rw [List.nil_append] at read
    rw [sheet, if_neg (by simp [classes]), toList_stylesheet, read]
  have matchEq (entry : String × String) :
      ((ruleOf (html.selector entry)).selector.toList ==
        '.' :: (html.classPrefix ++ name).toList) = (entry.1 == name) := by
    rw [Bool.eq_iff_iff, beq_iff_eq, beq_iff_eq]
    simp only [ruleOf, selector, String.toList_append, List.append_assoc]
    exact (List.append_right_inj _).trans ((List.append_right_inj _).trans String.toList_inj)
  rw [selected_eq (classes_eq classEq bare) named, rulesEq, List.map_map, List.filter_map,
    List.flatMap_map]
  simp only [Function.comp_def, matchEq]
  exact html.declarations_filter_sheetTable theme isName

end

/-! ## What is declared -/

theorem sheet_of_inlineStyles {html : Html} (inline : html.inlineStyles = true) (theme : Theme) :
    html.sheet theme = [] := by
  rw [sheet, if_pos inline]

/-- A run without an element is whitespace or looks as the output does. -/
theorem runElement?_eq_none {html : Html} {theme : Theme} {kind : TokenKind}
    (noElement : html.runElement? theme kind = none) :
    kind = .whitespace ∨ theme.styleOf kind = theme.defaultStyle := by
  unfold runElement? at noElement
  split at noElement
  · rename_i whitespace
    exact Or.inl whitespace
  · split at noElement
    · split at noElement
      · rename_i same
        exact Or.inr same
      · cases noElement
    · cases noElement

section

variable {html : Html} (selectable : html.Selectable) (theme : Theme)
include selectable

/-- The output is given the default style. -/
theorem declared_page :
    declared (html.sheet theme) (html.page theme) = theme.defaultStyle.declared none := by
  cases inline : html.inlineStyles with
  | true =>
      have styleEq : (html.page theme).attribute? "style" =
          some (declarations theme.defaultStyle none) := by
        simp [page, inline, Element.attribute?, List.lookup_cons]
      rw [sheet_of_inlineStyles inline, declared_nil styleEq,
        (theme.defaultStyle.declarations_declared none).1]
  | false =>
      have noStyle : (html.page theme).attribute? "style" = none := by
        simp [page, inline, Element.attribute?, List.lookup_cons]
      have noKind : sheetKinds.filter (·.key == "code") = [] := by decide
      rw [declared_eq_selected noStyle, selected_sheet (selectable inline) inline theme "code" rfl
        (by decide) (by decide), if_pos rfl, noKind, List.flatMap_nil, List.append_nil]

/-- Nothing is declared for the elements of lines. -/
theorem declared_lineElement (number : Int32) :
    declared (html.sheet theme) (html.lineElement number) = [] := by
  have noStyle : (html.lineElement number).attribute? "style" = none := rfl
  rw [declared_eq_selected noStyle]
  cases inline : html.inlineStyles with
  | true =>
      rw [sheet_of_inlineStyles inline]
      rfl
  | false =>
      have noKind : sheetKinds.filter (·.key == "line") = [] := by decide
      rw [selected_sheet (selectable inline) inline theme "line" rfl (by decide) (by decide),
        if_neg (by decide), noKind]
      rfl

/-- The element of a run is given the style of its kind. -/
theorem declared_runElement? {kind : TokenKind} {element : Element}
    (elementEq : html.runElement? theme kind = some element) :
    declared (html.sheet theme) element = (theme.styleOf kind).declared theme.background := by
  unfold runElement? at elementEq
  split at elementEq
  · cases elementEq
  rename_i notWhitespace
  cases inline : html.inlineStyles with
  | true =>
      rw [if_pos inline, Option.ite_none_left_eq_some] at elementEq
      cases elementEq.2
      rw [sheet_of_inlineStyles inline, declared_nil rfl,
        ((theme.styleOf kind).declarations_declared theme.background).1]
  | false =>
      rw [if_neg (by simp [inline])] at elementEq
      cases elementEq
      have starts : kind.key.toList.head?.any isNameStart = true := by cases kind <;> decide
      have isName : kind.key.toList.all isNameChar = true := by cases kind <;> decide
      have notCode : kind.key ≠ "code" := by cases kind <;> decide
      have oneKind : sheetKinds.filter (·.key == kind.key) = [kind] := by
        cases kind <;> first | rfl | exact absurd rfl notWhitespace
      rw [declared_eq_selected rfl, selected_sheet (selectable inline) inline theme kind.key rfl
        starts isName, if_neg notCode, oneKind, List.flatMap_singleton, List.nil_append]

/-! ## Looks -/

/-- What stands in the output alone has the default style. -/
theorem inside_page (color : Color) (background : Option Color) :
    Look.inside (html.sheet theme) (.plain color background) [html.page theme] =
      theme.defaultStyle.alone background := by
  rw [Look.inside_cons, Look.inside_nil, declared_page selectable theme,
    Style.enter_declared _ (by rintro _ ⟨⟩), Style.within_plain]

/-- What stands in a line looks as the output does. -/
theorem inside_lineElements (number : Int32) (canvas : Look) :
    Look.inside (html.sheet theme) canvas (html.lineElements number ++ [html.page theme]) =
      Look.inside (html.sheet theme) canvas [html.page theme] := by
  unfold lineElements
  split
  · rw [List.singleton_append, Look.inside_cons, declared_lineElement selectable theme,
      Look.enter_nil]
  · rfl

/-- A run outside whitespace has the colours of its style, and the emphasis of its style
and of the default style. -/
theorem inside_inside (number : Int32) (kind : TokenKind) (color : Color)
    (background : Option Color) :
    Look.inside (html.sheet theme) (.plain color background) (html.inside theme number kind) =
      if kind = .whitespace then theme.defaultStyle.alone background
      else (theme.styleOf kind).within (theme.defaultStyle.alone background) := by
  have line := (inside_lineElements selectable theme number (.plain color background)).trans
    (inside_page selectable theme color background)
  rw [inside]
  cases elementEq : html.runElement? theme kind with
  | none =>
      rw [Option.toList_none, List.nil_append, line]
      split
      · rfl
      · rename_i notWhitespace
        rcases runElement?_eq_none elementEq with whitespace | same
        · exact absurd whitespace notWhitespace
        · rw [same, Style.within_alone_self]
  | some element =>
      have notWhitespace : kind ≠ .whitespace := by
        rintro rfl
        rw [runElement?, if_pos rfl] at elementEq
        cases elementEq
      have behind (own : Color) (page : theme.background = some own) :
          (theme.defaultStyle.alone background).background = some own := by
        have pageEq : theme.defaultStyle.background = some own := page
        rw [Style.alone, pageEq, Option.some_or]
      rw [Option.toList_some, List.singleton_append, if_neg notWhitespace]
      rw [Look.inside_cons, line, declared_runElement? selectable theme elementEq,
        Style.enter_declared _ behind]

end

/-- Output shows every token in the colours of its style.  It shows the emphasis of the
style alone exactly if the style has all the emphasis of the default style; else a token
is emphasised as the output is.  A terminal draws every style alone. -/
theorem render_looks {html : Html} (plain : Markup.Quotable html.classPrefix.toList)
    (selectable : html.Selectable) {text : String} {tokens : List Token}
    (checked : Token.check text.toList tokens = .ok ()) (theme : Theme) (color : Color)
    (background : Option Color) :
    let page := theme.defaultStyle.alone background
    (∃ output placed, html.render text tokens theme = .ok output ∧
      Markup.document? output = some (html.page theme, placed) ∧
      placed.map (fun p =>
          (p.char, Look.inside (html.sheet theme) (.plain color background) p.inside)) =
        tokens.flatMap fun token => (token.text text.toList).map fun char =>
          (char,
            if token.kind = .whitespace ∨ char = '\n' then page
            else (theme.styleOf token.kind).within page)) ∧
    ∀ kind,
      ((theme.styleOf kind).within page = (theme.styleOf kind).alone page.background ↔
        (theme.styleOf kind).Covers theme.defaultStyle) ∧
      ∀ ansi : Ansi, Pen.ofSequence? (ansi.switch (theme.styleOf kind) theme.background) =
        some (ansi.pen (theme.styleOf kind) theme.background) := by
  intro page
  have inText := Token.check_eq_ok_iff.mp checked
  obtain ⟨output, rendered, document⟩ := document?_render plain theme inText
  constructor
  · let look (kind : Option TokenKind) : Look :=
      kind.elim page fun kind => (theme.styleOf kind).within page
    have newline := congrArg (Prod.mk '\n') (inside_page selectable theme color background)
    have run (number : Int32) (kind : TokenKind) (char : Char) :
        (char, Look.inside (html.sheet theme) (.plain color background)
            (html.inside theme number kind)) =
          (char, look (if kind = .whitespace then none else some kind)) := by
      rw [inside_inside selectable theme number kind color background, apply_ite look]
      rfl
    refine ⟨output, _, rendered, document, ?_⟩
    rw [map_placed (fun kind char => (char, look kind)) newline run, Piece.flatMap_paint_under]
    simp only [apply_ite look]
    rfl
  · intro kind
    constructor
    · exact Style.within_eq_alone_iff _ _ background
    · intro ansi
      exact ansi.ofSequence?_switch _ _

/-- A comment of two lines, with numbered lines: the default style has no emphasis. -/
theorem render_looks_comment :
    let html : Html := { lineNumbers := true }
    let page := Theme.dark.defaultStyle.alone none
    let comment := (Theme.dark.styleOf .comment).alone page.background
    ∃ output placed, html.render "/*\né" [⟨.comment, 0, 5⟩] .dark = .ok output ∧
      Markup.document? output = some (html.page .dark, placed) ∧
      placed.map (fun p => (p.char, Look.inside (html.sheet .dark) (.plain (.ofNat 0) none)
        p.inside)) = [('/', comment), ('*', comment), ('\n', page), ('é', comment)] := by
  intro html page comment
  have plain : Markup.Quotable html.classPrefix.toList := by decide
  have selectable : html.Selectable := by decide
  have checked : Token.check "/*\né".toList [⟨.comment, 0, 5⟩] = .ok () := by decide
  have textEq : Token.text "/*\né".toList ⟨.comment, 0, 5⟩ = ['/', '*', '\n', 'é'] := by decide
  obtain ⟨⟨output, placed, rendered, document, looks⟩, kinds⟩ :=
    render_looks plain selectable checked .dark (.ofNat 0) none
  have alone : (Theme.dark.styleOf .comment).within page = comment :=
    (kinds .comment).1.mpr ⟨by decide, by decide, by decide⟩
  refine ⟨output, placed, rendered, document, ?_⟩
  rw [looks, List.flatMap_singleton, textEq]
  simp [page, ← alone]

end Html

/-- A theme whose default style is bold, with comments that are not. -/
def Theme.boldDefault : Theme where
  name := "Bold"
  isDark := true
  defaultStyle := { foreground := .ofNat 0xC0C0C0, bold := true }
  styles := StyleTable.empty.insert .comment (.plain 0x5C6370)

namespace Html

/-- Output shows the comments of that theme bold. -/
theorem exists_bold_comment {html : Html} (plain : Markup.Quotable html.classPrefix.toList)
    (selectable : html.Selectable) :
    ∃ output placed, html.render "//" [⟨.comment, 0, 2⟩] .boldDefault = .ok output ∧
      Markup.document? output = some (html.page .boldDefault, placed) ∧
      ∃ p ∈ placed, p.char = '/' ∧
        (Look.inside (html.sheet .boldDefault) (.plain (.ofNat 0) none) p.inside).bold = true := by
  have checked : Token.check "//".toList [⟨.comment, 0, 2⟩] = .ok () := by decide
  have pieces : Piece.under "//".toList [⟨.comment, 0, 2⟩] = [.run .comment ['/', '/']] := by decide
  obtain ⟨output, rendered, document⟩ :=
    document?_render plain .boldDefault (Token.check_eq_ok_iff.mp checked)
  have member : ⟨'/', html.inside .boldDefault 1 .comment⟩ ∈
      html.placed .boldDefault 1 (Piece.under "//".toList [⟨.comment, 0, 2⟩]) := by
    rw [pieces, placed]
    exact List.mem_cons_self
  refine ⟨output, _, rendered, document, _, member, rfl, ?_⟩
  rw [inside_inside selectable]
  decide

/-- With classes and with inline styles alike, such a comment is bold, although its style
is not and a terminal does not draw it so. -/
theorem render_boldDefault :
    (∃ output placed, render {} "//" [⟨.comment, 0, 2⟩] .boldDefault = .ok output ∧
      Markup.document? output = some (page {} .boldDefault, placed) ∧
      ∃ p ∈ placed, p.char = '/' ∧
        (Look.inside (sheet {} .boldDefault) (.plain (.ofNat 0) none) p.inside).bold = true) ∧
    (∃ output placed,
      render { inlineStyles := true } "//" [⟨.comment, 0, 2⟩] .boldDefault = .ok output ∧
      Markup.document? output = some (page { inlineStyles := true } .boldDefault, placed) ∧
      ∃ p ∈ placed, p.char = '/' ∧
        (Look.inside (sheet { inlineStyles := true } .boldDefault) (.plain (.ofNat 0) none)
          p.inside).bold = true) ∧
    (Theme.boldDefault.styleOf .comment).bold = false ∧
    (Pen.ofSequence? (Ansi.switch {} (Theme.boldDefault.styleOf .comment)
      Theme.boldDefault.background)).map Pen.bold = some false := by
  refine ⟨exists_bold_comment (by decide) (by decide), exists_bold_comment (by decide) (by decide),
    by decide, ?_⟩
  rw [Ansi.ofSequence?_switch]
  decide

end Html

end Highlight
