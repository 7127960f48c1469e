/-!
# Reading markup

Markup is read as tags and characters, with entities standing for the characters
that have a meaning of their own.  A document is one element that holds
everything: its tags nest properly, and every character stands in the elements
that are open where it is.

The reader knows nothing of the renderer.  It is strict: a tag that is not
closed, an attribute without quotes or an unknown entity is no markup.
-/

namespace Highlight

/-- An element by its name and its attributes in order. -/
structure Element where
  name : String
  attributes : List (String × String)
  deriving DecidableEq

/-- The value of an attribute. -/
def Element.attribute? (element : Element) (key : String) : Option String :=
  element.attributes.lookup key

/-- A character and the elements it stands in, the innermost first. -/
structure Placed where
  char : Char
  inside : List Element
  deriving DecidableEq

namespace Markup

/-- What markup is made of. -/
inductive Item where
  | opening (element : Element)
  | closing (name : String)
  | char (char : Char)
  deriving DecidableEq

/-! ## Tags and entities -/

/-- The characters in front of the first `stop`, if it comes. -/
def upTo? (stop : Char) (chars : List Char) : Option (List Char) :=
  if stop ∈ chars then some (chars.takeWhile (· != stop)) else none

/-- The character that an entity stands for. -/
def entity? (name : List Char) : Option Char :=
  if name = "amp".toList then some '&'
  else if name = "lt".toList then some '<'
  else if name = "gt".toList then some '>'
  else if name = "quot".toList then some '"'
  else if name = "#39".toList then some '\''
  else none

/-- The name of an attribute, from the blank before it to the sign behind it. -/
def attributeName? : List Char → Option String
  | [] => none
  | first :: rest =>
      if first = ' ' ∧ rest.getLast? = some '=' then some (String.ofList rest.dropLast) else none

/-- The attributes of a tag, from what stands between its quotes. -/
def attributes? : List (List Char) → Option (List (String × String))
  | [] => none
  | [last] => if last.isEmpty then some [] else none
  | label :: value :: rest => do
      let name ← attributeName? label
      let others ← attributes? rest
      return (name, String.ofList value) :: others

/-- The tag with the given characters between its brackets. -/
def tag? : List Char → Option Item
  | [] => none
  | first :: rest =>
      if first = '/' then some (.closing (String.ofList rest))
      else
        (attributes? (((first :: rest).dropWhile (· != ' ')).splitOn '"')).map fun attributes =>
          .opening ⟨String.ofList ((first :: rest).takeWhile (· != ' ')), attributes⟩

/-- The item at the front and the number of its characters. -/
def item? : List Char → Option (Item × Nat)
  | [] => none
  | first :: rest =>
      if first = '<' then do
        let inside ← upTo? '>' rest
        let item ← tag? inside
        return (item, inside.length + 2)
      else if first = '&' then do
        let name ← upTo? ';' rest
        let char ← entity? name
        return (.char char, name.length + 2)
      else some (.char first, 1)

/-- The items of some markup.  `pending` counts the characters that belong to the
item found last. -/
def items? : (pending : Nat) → List Char → Option (List Item)
  | _, [] => some []
  | pending + 1, _ :: rest => items? pending rest
  | 0, char :: rest => do
      let (item, length) ← item? (char :: rest)
      let others ← items? (length - 1) rest
      return item :: others

/-! ## Documents -/

/-- The characters among some items with the elements they stand in.  `opened`
holds the elements that are open, the innermost first; the last of them is closed
by the last item. -/
def place : (opened : List Element) → List Item → Option (List Placed)
  | [], [] => some []
  | [], _ :: _ => none
  | _ :: _, [] => none
  | element :: outer, .closing name :: rest =>
      if name = element.name then place outer rest else none
  | element :: outer, .opening inner :: rest => place (inner :: element :: outer) rest
  | element :: outer, .char char :: rest => do
      let others ← place (element :: outer) rest
      return ⟨char, element :: outer⟩ :: others

/-- The element that holds a whole document, and the characters in it. -/
def document? (text : String) : Option (Element × List Placed) :=
  match items? 0 text.toList with
  | some (.opening root :: rest) => (place [root] rest).map (root, ·)
  | _ => none

/-- The characters of the rest of a document where some elements are open. -/
def rest? (opened : List Element) (markup : List Char) : Option (List Placed) :=
  (items? 0 markup).bind (place opened)

/-! ## Items at the front -/

theorem upTo?_append {stop : Char} {body : List Char} (free : stop ∉ body) (rest : List Char) :
    upTo? stop (body ++ stop :: rest) = some body := by
  have passes : ∀ char ∈ body, (char != stop) = true := by
    intro char member
    exact bne_iff_ne.mpr fun equal => free (equal ▸ member)
  rw [upTo?, if_pos (List.mem_append_right body List.mem_cons_self),
    List.takeWhile_append_of_pos passes, List.takeWhile_cons_of_neg (by simp), List.append_nil]

/-- An entity stands for its character. -/
theorem item?_entity {name : List Char} {char : Char} (free : ';' ∉ name)
    (entityEq : entity? name = some char) (rest : List Char) :
    item? ('&' :: name ++ [';'] ++ rest) = some (.char char, ('&' :: name ++ [';']).length) := by
  have shapeEq : '&' :: name ++ [';'] ++ rest = '&' :: (name ++ ';' :: rest) := by simp
  rw [shapeEq, item?, if_neg (by decide), if_pos rfl, upTo?_append free rest,
    Option.bind_eq_bind, Option.bind_some, entityEq]
  simp

theorem items?_pending (pending : Nat) (chars : List Char) :
    items? pending chars = items? 0 (chars.drop pending) := by
  induction chars generalizing pending with
  | nil => simp [items?]
  | cons char chars ih =>
      cases pending with
      | zero => rfl
      | succ pending => rw [items?, ih, List.drop_succ_cons]

/-- An item is read with its own characters, and the others after it. -/
theorem items?_append {front rest : List Char} {item : Item} (nonempty : front ≠ [])
    (found : item? (front ++ rest) = some (item, front.length)) :
    items? 0 (front ++ rest) = (items? 0 rest).map (item :: ·) := by
  cases front with
  | nil => exact absurd rfl nonempty
  | cons char front =>
      rw [List.cons_append] at found ⊢
      rw [items?, found]
      simp only [Option.bind_eq_bind, Option.bind_some, List.length_cons, Nat.add_sub_cancel]
      rw [items?_pending, List.drop_left]
      cases items? 0 rest with
      | none => rfl
      | some others => rfl

/-! ## The spelling of elements -/

/-- A name and a value as they stand in a tag. -/
def attributeText (pair : String × String) : List Char :=
  ' ' :: (pair.1.toList ++ ['=', '"'] ++ pair.2.toList ++ ['"'])

/-- The tag that opens an element. -/
def openTag (element : Element) : List Char :=
  '<' :: (element.name.toList ++ element.attributes.flatMap attributeText ++ ['>'])

/-- The tag that closes an element. -/
def closeTag (element : Element) : List Char :=
  '<' :: '/' :: (element.name.toList ++ ['>'])

/-- The text can stand between quotes: it holds neither a quote nor the end of a
tag. -/
def Quotable (text : List Char) : Prop :=
  '"' ∉ text ∧ '>' ∉ text

instance (text : List Char) : Decidable (Quotable text) :=
  inferInstanceAs (Decidable (_ ∧ _))

theorem quotable_append {left right : List Char} :
    Quotable (left ++ right) ↔ Quotable left ∧ Quotable right := by
  simp only [Quotable, List.mem_append, not_or]
  exact and_and_and_comm

/-- The text can name an element: it is not empty, and holds nothing that ends a
name or turns an opening tag into a closing one. -/
def IsName (name : List Char) : Prop :=
  name ≠ [] ∧ ' ' ∉ name ∧ '/' ∉ name ∧ '>' ∉ name

instance (name : List Char) : Decidable (IsName name) :=
  inferInstanceAs (Decidable (_ ∧ _))

/-- The element can be written as a tag. -/
structure Spellable (element : Element) : Prop where
  name : IsName element.name.toList
  attributes : ∀ pair ∈ element.attributes, Quotable pair.1.toList ∧ Quotable pair.2.toList

theorem openTag_ne_nil (element : Element) : openTag element ≠ [] :=
  List.cons_ne_nil _ _

theorem closeTag_ne_nil (element : Element) : closeTag element ≠ [] :=
  List.cons_ne_nil _ _

theorem attributeName?_eq (name : String) :
    attributeName? (' ' :: (name.toList ++ ['='])) = some name := by
  rw [attributeName?, if_pos ⟨rfl, List.getLast?_concat⟩, List.dropLast_concat,
    String.ofList_toList]

/-- Attributes are read as they are written. -/
theorem attributes?_splitOn {attributes : List (String × String)}
    (quotable : ∀ pair ∈ attributes, Quotable pair.1.toList ∧ Quotable pair.2.toList) :
    attributes? ((attributes.flatMap attributeText).splitOn '"') = some attributes := by
  induction attributes with
  | nil => rfl
  | cons pair attributes ih =>
      obtain ⟨⟨nameQuotable, valueQuotable⟩, othersQuotable⟩ := List.forall_mem_cons.mp quotable
      have labelFree : '"' ∉ ' ' :: (pair.1.toList ++ ['=']) := by
        simp [nameQuotable.1]
      have shapeEq : (pair :: attributes).flatMap attributeText =
          (' ' :: (pair.1.toList ++ ['='])) ++ '"' ::
            (pair.2.toList ++ '"' :: attributes.flatMap attributeText) := by
        simp [attributeText]
      rw [shapeEq, List.splitOn_append_cons_self_of_not_mem labelFree,
        List.splitOn_append_cons_self_of_not_mem valueQuotable.1, attributes?,
        attributeName?_eq, ih othersQuotable, String.ofList_toList]
      rfl

/-- The name of an element ends where its attributes begin. -/
theorem takeWhile_name {name : List Char} (blank : ' ' ∉ name)
    (attributes : List (String × String)) :
    (name ++ attributes.flatMap attributeText).takeWhile (· != ' ') = name ∧
      (name ++ attributes.flatMap attributeText).dropWhile (· != ' ') =
        attributes.flatMap attributeText := by
  have passes : ∀ char ∈ name, (char != ' ') = true := by
    intro char member
    exact bne_iff_ne.mpr fun equal => blank (equal ▸ member)
  rw [List.takeWhile_append_of_pos passes, List.dropWhile_append_of_pos passes]
  cases attributes with
  | nil => simp
  | cons pair attributes => simp [attributeText]

theorem tag?_openTag {element : Element} (spellable : Spellable element) :
    tag? (element.name.toList ++ element.attributes.flatMap attributeText) =
      some (.opening element) := by
  obtain ⟨nonempty, blank, slash, _⟩ := spellable.name
  obtain ⟨takeEq, dropEq⟩ := takeWhile_name blank element.attributes
  obtain ⟨first, others, nameEq⟩ := List.exists_cons_of_ne_nil nonempty
  have notSlash : first ≠ '/' := by
    rintro rfl
    exact slash (nameEq ▸ List.mem_cons_self)
  rw [nameEq, List.cons_append] at takeEq dropEq ⊢
  rw [tag?, if_neg notSlash, takeEq, dropEq, attributes?_splitOn spellable.attributes,
    Option.map_some, ← nameEq, String.ofList_toList]

/-- No attribute that can be written holds the end of its tag. -/
theorem bracket_notMem_inside {element : Element} (spellable : Spellable element) :
    '>' ∉ element.name.toList ++ element.attributes.flatMap attributeText := by
  obtain ⟨_, _, _, bracket⟩ := spellable.name
  rw [List.mem_append, not_or]
  refine ⟨bracket, ?_⟩
  intro member
  obtain ⟨pair, pairMember, charMember⟩ := List.mem_flatMap.mp member
  obtain ⟨nameQuotable, valueQuotable⟩ := spellable.attributes pair pairMember
  simp [attributeText, nameQuotable.2, valueQuotable.2] at charMember

theorem item?_openTag {element : Element} (spellable : Spellable element) (rest : List Char) :
    item? (openTag element ++ rest) = some (.opening element, (openTag element).length) := by
  have inside := upTo?_append (bracket_notMem_inside spellable) rest
  have shapeEq : openTag element ++ rest =
      '<' :: (element.name.toList ++ element.attributes.flatMap attributeText ++ '>' :: rest) := by
    simp [openTag]
  rw [shapeEq, item?, if_pos rfl, inside, Option.bind_eq_bind, Option.bind_some,
    tag?_openTag spellable]
  simp [openTag, Nat.add_assoc]

theorem item?_closeTag {element : Element} (spellable : Spellable element) (rest : List Char) :
    item? (closeTag element ++ rest) =
      some (.closing element.name, (closeTag element).length) := by
  obtain ⟨_, _, _, bracket⟩ := spellable.name
  have bodyBracket : '>' ∉ '/' :: element.name.toList := by
    simp [bracket]
  have inside := upTo?_append bodyBracket rest
  have shapeEq : closeTag element ++ rest =
      '<' :: ('/' :: element.name.toList ++ '>' :: rest) := by
    simp [closeTag]
  rw [shapeEq, item?, if_pos rfl, inside, Option.bind_eq_bind, Option.bind_some, tag?, if_pos rfl,
    String.ofList_toList]
  simp [closeTag]

/-! ## Reading in parts -/

/-- The item at the front is placed before what follows it. -/
theorem rest?_append {front rest : List Char} {item : Item} (nonempty : front ≠ [])
    (found : item? (front ++ rest) = some (item, front.length)) (opened : List Element) :
    rest? opened (front ++ rest) =
      (items? 0 rest).bind fun items => place opened (item :: items) := by
  rw [rest?, items?_append nonempty found, Option.bind_map]
  rfl

theorem rest?_openTag {element : Element} (spellable : Spellable element) (outer : Element)
    (opened : List Element) (rest : List Char) :
    rest? (outer :: opened) (openTag element ++ rest) = rest? (element :: outer :: opened) rest :=
  rest?_append (openTag_ne_nil element) (item?_openTag spellable rest) _

theorem rest?_closeTag {element : Element} (spellable : Spellable element)
    (opened : List Element) (rest : List Char) :
    rest? (element :: opened) (closeTag element ++ rest) = rest? opened rest := by
  rw [rest?_append (closeTag_ne_nil element) (item?_closeTag spellable rest)]
  simp only [place, if_pos]
  rfl

theorem rest?_char {front rest : List Char} {char : Char} (nonempty : front ≠ [])
    (found : item? (front ++ rest) = some (.char char, front.length)) (outer : Element)
    (opened : List Element) :
    rest? (outer :: opened) (front ++ rest) =
      (rest? (outer :: opened) rest).map (⟨char, outer :: opened⟩ :: ·) := by
  rw [rest?_append nonempty found, rest?, Option.map_bind]
  congr 1
  funext items
  rw [place, Function.comp]
  cases place (outer :: opened) items with
  | none => rfl
  | some others => rfl

/-- Where the elements in `opened` are open, the markup leaves them open and puts
the characters in place. -/
def Shows (opened : List Element) (markup : List Char) (placed : List Placed) : Prop :=
  ∀ rest, rest? opened (markup ++ rest) = (rest? opened rest).map (placed ++ ·)

theorem Shows.nil (opened : List Element) : Shows opened [] [] := by
  intro rest
  rw [List.nil_append]
  exact Option.map_id'.symm

theorem Shows.append {opened : List Element} {markup more : List Char}
    {placed others : List Placed} (first : Shows opened markup placed)
    (second : Shows opened more others) :
    Shows opened (markup ++ more) (placed ++ others) := by
  intro rest
  rw [List.append_assoc, first, second, Option.map_map]
  simp only [Function.comp_def, List.append_assoc]

/-- What is shown inside an element is shown with its tags around it. -/
theorem Shows.element {element outer : Element} {opened : List Element} {markup : List Char}
    {placed : List Placed} (spellable : Spellable element)
    (shows : Shows (element :: outer :: opened) markup placed) :
    Shows (outer :: opened) (openTag element ++ markup ++ closeTag element) placed := by
  intro rest
  rw [List.append_assoc, List.append_assoc, rest?_openTag spellable, shows,
    rest?_closeTag spellable]

/-- What is shown inside an element joins what is shown from its tag on. -/
theorem Shows.behind_openTag {element outer : Element} {opened : List Element}
    {markup more : List Char} {placed others : List Placed} (spellable : Spellable element)
    (first : Shows (element :: outer :: opened) markup placed)
    (second : Shows (outer :: opened) (openTag element ++ more) others) :
    Shows (outer :: opened) (openTag element ++ (markup ++ more)) (placed ++ others) := by
  intro rest
  have secondRest := second rest
  rw [List.append_assoc, rest?_openTag spellable] at secondRest
  rw [List.append_assoc, rest?_openTag spellable, List.append_assoc, first, secondRest,
    Option.map_map]
  simp only [Function.comp_def, List.append_assoc]

/-- A document is what follows the tag of its element. -/
theorem document?_openTag {root : Element} (spellable : Spellable root) (markup : List Char) :
    document? (String.ofList (openTag root ++ markup)) = (rest? [root] markup).map (root, ·) := by
  rw [document?, String.toList_ofList,
    items?_append (openTag_ne_nil root) (item?_openTag spellable markup), rest?]
  cases items? 0 markup with
  | none => rfl
  | some items => rfl

/-- An element with markup between its tags is a document. -/
theorem Shows.document {root : Element} {markup : List Char} {placed : List Placed}
    (spellable : Spellable root) (shows : Shows [root] markup placed) :
    document? (String.ofList (openTag root ++ markup ++ closeTag root)) = some (root, placed) := by
  have closing : rest? [root] (closeTag root) = some [] := by
    have closed := rest?_closeTag spellable [] []
    rwa [List.append_nil] at closed
  rw [List.append_assoc, document?_openTag spellable, shows, closing]
  simp only [Option.map_some, List.append_nil]

end Markup

end Highlight
