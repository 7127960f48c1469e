import Highlight.Color
import Highlight.Proofs.Render.Markup

/-!
# Reading style sheets

A style sheet is read as rules, each with a selector and its declarations.  An element
has the declarations of the rules that select one of its classes, and behind them those
of its `style` attribute, which win.  Inside an element everything looks as it does
around it, except for what the element declares.  One thing cannot be declared away:
a line under an element is drawn under all that stands in it.

The reader knows nothing of the renderer.  It knows selectors of one class, written
without escapes, colours in hexadecimal digits, and the properties that decide how a
character looks; it passes over everything else.
-/

namespace Highlight

/-- How a character looks: its colour, the colour behind it, if there is one, and its
emphasis. -/
structure Look where
  color : Color
  background : Option Color
  bold : Bool
  italic : Bool
  underline : Bool
  deriving DecidableEq

namespace Css

/-- A property and its value. -/
structure Declaration where
  property : String
  value : String
  deriving DecidableEq

/-- A selector and the declarations for what it selects. -/
structure Rule where
  selector : String
  declarations : List Declaration
  deriving DecidableEq

/-! ## Declarations and rules -/

/-- White space of style sheets and of lists of classes. -/
def isBlank (char : Char) : Bool :=
  char = ' ' || char = '\t' || char = '\n' || char = '\r' || char = '\x0c'

/-- The text without the blanks at its ends. -/
def trim (text : List Char) : List Char :=
  ((text.dropWhile isBlank).reverse.dropWhile isBlank).reverse

/-- The declaration with a colon between its two parts. -/
def declaration? (text : List Char) : Option Declaration :=
  match text.splitOn ':' with
  | [property, value] => some ⟨String.ofList (trim property), String.ofList (trim value)⟩
  | _ => none

/-- The declarations with a semicolon between each two. -/
def declarations (text : List Char) : List Declaration :=
  (text.splitOn ';').filterMap declaration?

/-- The rule in front of a closing brace. -/
def rule? (text : List Char) : Option Rule :=
  match text.splitOn '\x7b' with
  | [selector, body] => some ⟨String.ofList (trim selector), declarations body⟩
  | _ => none

/-- The rules of a style sheet. -/
def rules (sheet : List Char) : List Rule :=
  (sheet.splitOn '\x7d').filterMap rule?

/-! ## Selectors -/

/-- The characters that an identifier can start with, behind at most one hyphen. -/
def isNameStart (char : Char) : Bool :=
  char.isAlpha || char = '_' || 0x80 ≤ char.toNat

/-- The characters of identifiers. -/
def isNameChar (char : Char) : Bool :=
  isNameStart char || char.isDigit || char = '-'

/-- The text starts as an identifier does. -/
def beginsName : List Char → Bool
  | [] => false
  | first :: rest =>
      if first = '-' then rest.head?.any fun second => second = '-' || isNameStart second
      else isNameStart first

/-- The text is an identifier. -/
def isIdentifier (name : List Char) : Bool :=
  beginsName name && name.all isNameChar

/-- The classes of an element. -/
def classes (element : Element) : List (List Char) :=
  ((element.attribute? "class").getD "").toList.splitOnP isBlank

/-- The rule is for one of the classes of the element. -/
def Rule.selects (rule : Rule) (element : Element) : Bool :=
  (classes element).any fun name => isIdentifier name && rule.selector.toList == '.' :: name

/-- What the rules of a style sheet declare for an element. -/
def selected (sheet : List Rule) (element : Element) : List Declaration :=
  (sheet.filter (·.selects element)).flatMap Rule.declarations

/-- What is declared for an element. -/
def declared (sheet : List Rule) (element : Element) : List Declaration :=
  selected sheet element ++ declarations ((element.attribute? "style").getD "").toList

/-! ## Looks -/

/-- The colour that a value writes. -/
def color? (value : String) : Option Color :=
  if value.toList.head? = some '#' then Color.ofText? value else none

end Css

namespace Look

open Highlight.Css

/-- The look without emphasis. -/
def plain (color : Color) (background : Option Color) : Look :=
  ⟨color, background, false, false, false⟩

/-- The look that a declaration asks for. -/
def obey (look : Look) (declaration : Declaration) : Look :=
  match declaration.property, declaration.value with
  | "color", value => { look with color := (color? value).getD look.color }
  | "background-color", value => { look with background := (color? value).or look.background }
  | "font-weight", "bold" => { look with bold := true }
  | "font-weight", "normal" => { look with bold := false }
  | "font-style", "italic" => { look with italic := true }
  | "font-style", "normal" => { look with italic := false }
  | "text-decoration", "underline" => { look with underline := true }
  | "text-decoration", "none" => { look with underline := false }
  | _, _ => look

/-- The look inside an element with some declarations, from the look around it.  What the
element declares about lines is about its own line, which joins the one around it. -/
def enter (outer : Look) (declarations : List Declaration) : Look :=
  let own := declarations.foldl obey { outer with underline := false }
  { own with underline := outer.underline || own.underline }

/-- The look inside some elements, the innermost first, from the look around them all. -/
def inside (sheet : List Rule) (canvas : Look) (elements : List Element) : Look :=
  elements.foldr (fun element outer => outer.enter (declared sheet element)) canvas

theorem enter_nil (outer : Look) : outer.enter [] = outer := by
  simp [enter]

theorem inside_nil (sheet : List Rule) (canvas : Look) : inside sheet canvas [] = canvas :=
  rfl

theorem inside_cons (sheet : List Rule) (canvas : Look) (element : Element)
    (outer : List Element) :
    inside sheet canvas (element :: outer) =
      (inside sheet canvas outer).enter (declared sheet element) :=
  rfl

end Look

namespace Css

/-! ## Words between blanks -/

/-- The characters that neither separate words nor end a declaration or a rule. -/
def isWordChar (char : Char) : Bool :=
  !isBlank char && char != ';' && char != '\x7b' && char != '\x7d'

theorem isWordChar_iff {char : Char} : isWordChar char = true ↔
    isBlank char = false ∧ char ≠ ';' ∧ char ≠ '\x7b' ∧ char ≠ '\x7d' := by
  simp [isWordChar, and_assoc]

/-- The text can stand as a word. -/
def IsWord (word : List Char) : Prop :=
  word ≠ [] ∧ word.all isWordChar = true

instance (word : List Char) : Decidable (IsWord word) :=
  inferInstanceAs (Decidable (_ ∧ _))

namespace IsWord

variable {word : List Char}

theorem append {other : List Char} (isWord : IsWord word) (otherWord : IsWord other) :
    IsWord (word ++ other) := by
  constructor
  · exact List.append_ne_nil_of_left_ne_nil isWord.1 other
  · rw [List.all_append, isWord.2, otherWord.2]
    rfl

theorem isWordChar_of_mem (isWord : IsWord word) :
    ∀ char ∈ word, isBlank char = false ∧ char ≠ ';' ∧ char ≠ '\x7b' ∧ char ≠ '\x7d' :=
  fun char member => isWordChar_iff.mp (List.all_eq_true.mp isWord.2 char member)

theorem semicolon_notMem (isWord : IsWord word) : ';' ∉ word :=
  fun member => (isWord.isWordChar_of_mem _ member).2.1 rfl

theorem opening_notMem (isWord : IsWord word) : '\x7b' ∉ word :=
  fun member => (isWord.isWordChar_of_mem _ member).2.2.1 rfl

theorem closing_notMem (isWord : IsWord word) : '\x7d' ∉ word :=
  fun member => (isWord.isWordChar_of_mem _ member).2.2.2 rfl

end IsWord

/-- A word is found between the blanks around it. -/
theorem trim_append {lead word tail : List Char} (leadBlank : ∀ char ∈ lead, isBlank char = true)
    (isWord : IsWord word) (tailBlank : ∀ char ∈ tail, isBlank char = true) :
    trim (lead ++ word ++ tail) = word := by
  have bare := isWord.isWordChar_of_mem
  have stops {text : List Char} (textNonempty : text ≠ [])
      (textBare : ∀ char ∈ text, isBlank char = false) (rest : List Char) :
      (text ++ rest).dropWhile isBlank = text ++ rest := by
    obtain ⟨first, others, rfl⟩ := List.exists_cons_of_ne_nil textNonempty
    exact List.dropWhile_cons_of_neg (by simp [textBare first List.mem_cons_self])
  have wordStops := stops isWord.1 fun char member => (bare char member).1
  have reverseStops := stops (List.reverse_ne_nil_iff.mpr isWord.1) (fun char member =>
    (bare char (List.mem_reverse.mp member)).1) []
  have reverseBlank : ∀ char ∈ tail.reverse, isBlank char = true := by
    intro char member
    exact tailBlank char (List.mem_reverse.mp member)
  rw [List.append_nil] at reverseStops
  rw [trim, List.append_assoc, List.dropWhile_append_of_pos leadBlank, wordStops,
    List.reverse_append, List.dropWhile_append_of_pos reverseBlank, reverseStops,
    List.reverse_reverse]

/-! ## Written declarations -/

/-- The declaration can be written as it is: both parts are words without a colon. -/
structure Declaration.Plain (declaration : Declaration) : Prop where
  property : IsWord declaration.property.toList
  value : IsWord declaration.value.toList
  propertyColon : ':' ∉ declaration.property.toList
  valueColon : ':' ∉ declaration.value.toList

/-- A declaration as it is written, with a blank in front of it. -/
def written (declaration : Declaration) : List Char :=
  ' ' :: (declaration.property.toList ++ [':', ' '] ++ declaration.value.toList)

/-- A written declaration and the semicolon behind it. -/
def spell (declaration : Declaration) : List Char :=
  written declaration ++ [';']

theorem isBlank_of_mem_singleton {char : Char} (member : char ∈ [' ']) : isBlank char = true := by
  rw [List.mem_singleton.mp member]
  rfl

theorem declaration?_written {declaration : Declaration} (plain : declaration.Plain) :
    declaration? (written declaration) = some declaration := by
  have blank : ∀ char ∈ [' '], isBlank char = true := fun char => isBlank_of_mem_singleton
  have nothing : ∀ char ∈ ([] : List Char), isBlank char = true := List.forall_mem_nil _
  have propertyEq := trim_append blank plain.property nothing
  have valueEq := trim_append blank plain.value nothing
  rw [List.append_nil] at propertyEq valueEq
  have propertyFree : ':' ∉ [' '] ++ declaration.property.toList := by
    simp [plain.propertyColon]
  have valueFree : ':' ∉ [' '] ++ declaration.value.toList := by
    simp [plain.valueColon]
  have shapeEq : written declaration =
      ([' '] ++ declaration.property.toList) ++ ':' :: ([' '] ++ declaration.value.toList) := by
    simp [written]
  rw [shapeEq, declaration?, List.splitOn_append_cons_self_of_not_mem propertyFree,
    List.splitOn_eq_singleton valueFree]
  simp only [propertyEq, valueEq, String.ofList_toList]

/-- A written declaration is read, and then those behind it. -/
theorem declarations_spell {declaration : Declaration} (plain : declaration.Plain)
    (rest : List Char) :
    declarations (spell declaration ++ rest) = declaration :: declarations rest := by
  have free : ';' ∉ written declaration := by
    simp [written, plain.property.semicolon_notMem, plain.value.semicolon_notMem]
  rw [spell, List.append_assoc, List.singleton_append, declarations,
    List.splitOn_append_cons_self_of_not_mem free,
    List.filterMap_cons_some (declaration?_written plain), declarations]

theorem declarations_flatMap_spell {list : List Declaration} (plain : ∀ d ∈ list, d.Plain)
    (rest : List Char) :
    declarations (list.flatMap spell ++ rest) = list ++ declarations rest := by
  induction list with
  | nil => rfl
  | cons declaration list ih =>
      obtain ⟨firstPlain, othersPlain⟩ := List.forall_mem_cons.mp plain
      rw [List.flatMap_cons, List.append_assoc, declarations_spell firstPlain, ih othersPlain,
        List.cons_append]

/-- A blank in front changes no declaration. -/
theorem declaration?_cons_blank (text : List Char) :
    declaration? (' ' :: text) = declaration? text := by
  have trimEq (part : List Char) : trim (' ' :: part) = trim part := rfl
  rw [declaration?, List.splitOn_cons_eq_if_modifyHead, if_neg (by decide), declaration?]
  rcases text.splitOn ':' with _ | ⟨property, _ | ⟨value, _ | ⟨more, others⟩⟩⟩
  · rfl
  · rfl
  · simp only [List.modifyHead_cons, trimEq]
  · rfl

theorem declarations_cons_blank (text : List Char) :
    declarations (' ' :: text) = declarations text := by
  rw [declarations, List.splitOn_cons_eq_if_modifyHead, if_neg (by decide), declarations]
  cases text.splitOn ';' with
  | nil => rfl
  | cons first others =>
      rw [List.modifyHead_cons, List.filterMap_cons, List.filterMap_cons, declaration?_cons_blank]

/-! ## Written rules -/

/-- A selector and the text of its declarations, as they are written. -/
def writtenRule (pair : String × String) : List Char :=
  pair.1.toList ++ [' ', '\x7b', ' '] ++ pair.2.toList ++ [' ']

/-- A written rule in a line of its own. -/
def spellRule (pair : String × String) : List Char :=
  writtenRule pair ++ ['\x7d', '\n']

/-- The rule that is written so. -/
def ruleOf (pair : String × String) : Rule :=
  ⟨pair.1, declarations (' ' :: (pair.2.toList ++ [' ']))⟩

/-- The line can be read as a rule: the selector is a word, and no brace stands among the
declarations. -/
structure IsRuleLine (pair : String × String) : Prop where
  selector : IsWord pair.1.toList
  body : ∀ char ∈ pair.2.toList, char ≠ '\x7b' ∧ char ≠ '\x7d'

theorem IsRuleLine.opening_notMem {pair : String × String} (line : IsRuleLine pair) :
    '\x7b' ∉ pair.2.toList :=
  fun member => (line.body _ member).1 rfl

theorem IsRuleLine.closing_notMem {pair : String × String} (line : IsRuleLine pair) :
    '\x7d' ∉ pair.2.toList :=
  fun member => (line.body _ member).2 rfl

theorem not_mem_of_blank {lead : List Char} (leadBlank : ∀ char ∈ lead, isBlank char = true)
    {char : Char} (notBlank : isBlank char = false) : char ∉ lead := by
  intro member
  rw [leadBlank char member] at notBlank
  cases notBlank

theorem rule?_writtenRule {pair : String × String} (line : IsRuleLine pair) {lead : List Char}
    (leadBlank : ∀ char ∈ lead, isBlank char = true) :
    rule? (lead ++ writtenRule pair) = some (ruleOf pair) := by
  have frontFree : '\x7b' ∉ lead ++ pair.1.toList ++ [' '] := by
    simp [line.selector.opening_notMem,
      not_mem_of_blank leadBlank (by decide : isBlank '\x7b' = false)]
  have bodyFree : '\x7b' ∉ ' ' :: (pair.2.toList ++ [' ']) := by
    simp [line.opening_notMem]
  have shapeEq : lead ++ writtenRule pair =
      (lead ++ pair.1.toList ++ [' ']) ++ '\x7b' :: ' ' :: (pair.2.toList ++ [' ']) := by
    simp [writtenRule]
  rw [shapeEq, rule?, List.splitOn_append_cons_self_of_not_mem frontFree,
    List.splitOn_eq_singleton bodyFree]
  simp only [trim_append leadBlank line.selector fun char => isBlank_of_mem_singleton,
    String.ofList_toList]
  rfl

/-- Written rules are read in order, with blanks in front of the first of them. -/
theorem rules_flatMap_spellRule {table : List (String × String)}
    (lines : ∀ pair ∈ table, IsRuleLine pair) {lead : List Char}
    (leadBlank : ∀ char ∈ lead, isBlank char = true) :
    rules (lead ++ table.flatMap spellRule) = table.map ruleOf := by
  induction table generalizing lead with
  | nil =>
      have closingFree := not_mem_of_blank leadBlank (by decide : isBlank '\x7d' = false)
      have openingFree := not_mem_of_blank leadBlank (by decide : isBlank '\x7b' = false)
      rw [List.flatMap_nil, List.append_nil, rules, List.splitOn_eq_singleton closingFree,
        List.filterMap_cons, rule?, List.splitOn_eq_singleton openingFree]
      rfl
  | cons pair table ih =>
      obtain ⟨line, othersLines⟩ := List.forall_mem_cons.mp lines
      have free : '\x7d' ∉ lead ++ writtenRule pair := by
        simp [writtenRule, line.selector.closing_notMem, line.closing_notMem,
          not_mem_of_blank leadBlank (by decide : isBlank '\x7d' = false)]
      have shapeEq : lead ++ (pair :: table).flatMap spellRule =
          (lead ++ writtenRule pair) ++ '\x7d' :: (['\n'] ++ table.flatMap spellRule) := by
        simp [spellRule]
      have newlineBlank : ∀ char ∈ ['\n'], isBlank char = true :=
        List.forall_mem_singleton.mpr rfl
      have others := ih othersLines newlineBlank
      rw [rules] at others
      rw [shapeEq, rules, List.splitOn_append_cons_self_of_not_mem free,
        List.filterMap_cons_some (rule?_writtenRule line leadBlank), others, List.map_cons]

/-! ## Identifiers -/

theorem isBlank_of_isNameChar {char : Char} (isName : isNameChar char = true) :
    isBlank char = false := by
  cases blank : isBlank char with
  | false => rfl
  | true =>
      simp only [isBlank, Bool.or_eq_true, decide_eq_true_eq] at blank
      rcases blank with (((rfl | rfl) | rfl) | rfl) | rfl
      all_goals cases isName

theorem isNameChar_of_mem {name : List Char} (identifier : isIdentifier name = true) :
    ∀ char ∈ name, isNameChar char = true := by
  rw [isIdentifier, Bool.and_eq_true] at identifier
  exact List.all_eq_true.mp identifier.2

/-- The characters of a name are a word behind a dot. -/
theorem isWord_dot {name : List Char} (isName : ∀ char ∈ name, isNameChar char = true) :
    IsWord ('.' :: name) := by
  refine ⟨List.cons_ne_nil _ _, List.all_eq_true.mpr (List.forall_mem_cons.mpr ⟨rfl, ?_⟩)⟩
  intro char member
  have isName := isName char member
  refine isWordChar_iff.mpr ⟨isBlank_of_isNameChar isName, ?_, ?_, ?_⟩
  all_goals
    rintro rfl
    cases isName

/-- The front of an identifier can be followed by any text that starts as a name. -/
theorem isIdentifier_append {front left right : List Char}
    (identifier : isIdentifier (front ++ left) = true)
    (starts : right.head?.any isNameStart = true) (isName : right.all isNameChar = true) :
    isIdentifier (front ++ right) = true := by
  simp only [isIdentifier, List.all_append, Bool.and_eq_true] at identifier ⊢
  obtain ⟨begins, frontName, _⟩ := identifier
  refine ⟨?_, frontName, isName⟩
  cases right with
  | nil => cases starts
  | cons initial right =>
      have starts : isNameStart initial = true := starts
      cases front with
      | nil =>
          have notHyphen : initial ≠ '-' := by
            rintro rfl
            cases starts
          rwa [List.nil_append, beginsName, if_neg notHyphen]
      | cons first front =>
          cases front with
          | nil =>
              rw [List.singleton_append, beginsName] at begins ⊢
              split
              · simp [starts]
              · rename_i notHyphen
                rwa [if_neg notHyphen] at begins
          | cons second front => exact begins

/-! ## Selection -/

/-- Without a style sheet an element has the declarations of its attribute. -/
theorem declared_nil {element : Element} {value : String}
    (styleEq : element.attribute? "style" = some value) :
    declared [] element = declarations value.toList := by
  rw [declared, styleEq, selected, List.filter_nil, List.flatMap_nil, List.nil_append,
    Option.getD_some]

/-- Without the attribute an element has the declarations of the style sheet. -/
theorem declared_eq_selected {element : Element} (noStyle : element.attribute? "style" = none)
    (sheet : List Rule) : declared sheet element = selected sheet element := by
  have empty : declarations "".toList = [] := by decide
  rw [declared, noStyle, Option.getD_none, empty, List.append_nil]

/-- An element whose class holds no blank has that one class. -/
theorem classes_eq {element : Element} {value : String}
    (classEq : element.attribute? "class" = some value)
    (bare : ∀ char ∈ value.toList, isBlank char = false) : classes element = [value.toList] := by
  rw [classes, classEq, Option.getD_some, List.splitOnP_eq_singleton bare]

/-- The declarations for an element of one class are those of the rules for it. -/
theorem selected_eq {element : Element} {name : List Char} (classEq : classes element = [name])
    (identifier : isIdentifier name = true) (sheet : List Rule) :
    selected sheet element =
      (sheet.filter (·.selector.toList == '.' :: name)).flatMap Rule.declarations := by
  have selectsEq (rule : Rule) : rule.selects element = (rule.selector.toList == '.' :: name) := by
    simp [Rule.selects, classEq, identifier]
  simp only [selected, selectsEq]

end Css

end Highlight
