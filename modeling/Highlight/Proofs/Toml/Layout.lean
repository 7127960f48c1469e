import Highlight.Proofs.Toml.Document
import Highlight.Proofs.Toml.Lines

/-!
# Reading documents that were laid out

The text of a layout consists of lines, and the lines define a table.  The table has the
fields, the tables and the parent with the tables inside, in this order.  So a document
is read back if no key is given twice in one table.
-/

namespace Highlight.Toml

/-- An array of texts. -/
def texts (contents : List String) : Toml :=
  .array (contents.map .string)

theorem strings?_texts (contents : List String) : (texts contents).strings? = some contents := by
  have each : contents.mapM (string? ∘ Toml.string) = some (contents.map id) := List.mapM_pure
  rw [texts, strings?, List.mapM_map, each, List.map_id]

/-- The value of a field. -/
@[simp]
def Field.value : Field → Toml
  | text content => .string content
  | boolean value => .boolean value
  | texts contents => Toml.texts contents

theorem written_write (field : Field) : Written field.write field.value := by
  cases field with
  | text content => exact written_writeString content
  | boolean value => exact written_writeBoolean value
  | texts contents => exact written_writeStrings contents

namespace Fields

/-- Keys with the values of their fields. -/
def entries (fields : Fields) : List (String × Toml) :=
  fields.map fun (key, field) => (key, field.value)

@[simp]
theorem entries_nil : entries [] = [] := rfl

@[simp]
theorem entries_cons (key : String) (field : Field) (fields : Fields) :
    entries ((key, field) :: fields) = (key, field.value) :: fields.entries := rfl

theorem keys_entries (fields : Fields) :
    fields.entries.map Prod.fst = fields.map Prod.fst := by
  rw [entries, List.map_map]
  rfl

/-- Names with their tables, as values. -/
def values (tables : List (String × Fields)) : List (String × Toml) :=
  tables.map fun (name, fields) => (name, .table fields.entries)

/-- Names with the entries of their tables. -/
def sections (tables : List (String × Fields)) : List (String × List (String × Toml)) :=
  tables.map fun (name, fields) => (name, entries fields)

theorem finishedTables_sections (tables : List (String × Fields)) :
    finishedTables (sections tables) = values tables := by
  rw [finishedTables, sections, List.map_map]
  rfl

theorem keys_sections (tables : List (String × Fields)) :
    (sections tables).map Prod.fst = tables.map Prod.fst := by
  rw [sections, List.map_map]
  rfl

theorem nodup_of_mem_sections {tables : List (String × Fields)}
    (distinct : ∀ table ∈ tables, (table.2.map Prod.fst).Nodup) :
    ∀ table ∈ sections tables, (table.2.map Prod.fst).Nodup := by
  intro table among
  rcases List.mem_map.mp among with ⟨written, member, rfl⟩
  exact keys_entries written.2 ▸ distinct written member

end Fields

/-! ## Lines -/

theorem Lines.fields (fields : Fields) :
    Lines (writeFields fields) (assignments fields.entries) := by
  induction fields with
  | nil => exact .nil
  | cons first fields ih => exact (Lines.entry first.1 (written_write first.2)).append ih

theorem Lines.table {path : List String} (nonempty : path ≠ []) (short : path.length < depthLimit)
    (fields : Fields) : Lines (writeTable path fields) (tableStatements path fields.entries) :=
  (Lines.header nonempty short).append (.fields fields)

theorem Lines.tables (tables : List (String × Fields)) :
    Lines (tables.flatMap fun (name, fields) => writeTable [name] fields)
      (sectionStatements (Fields.sections tables)) := by
  induction tables with
  | nil => exact .nil
  | cons first tables ih =>
      exact (Lines.table (List.cons_ne_nil _ _) (by simp [depthLimit]) first.2).append ih

theorem Lines.children (parent : String) (tables : List (String × Fields)) :
    Lines (tables.flatMap fun (name, fields) => writeTable [parent, name] fields)
      (childStatements parent (Fields.sections tables)) := by
  induction tables with
  | nil => exact .nil
  | cons first tables ih =>
      exact (Lines.table (List.cons_ne_nil _ _) (by simp [depthLimit]) first.2).append ih

namespace Layout

/-- The parent as a table with a header, which it is if there are no tables inside. -/
def emptyParent (layout : Layout) : List (String × Fields) :=
  if layout.children.isEmpty then [(layout.parent, [])] else []

/-- The statements of a document. -/
def statements (layout : Layout) : List Statement :=
  assignments layout.fields.entries ++
    (sectionStatements (Fields.sections (layout.tables ++ layout.emptyParent)) ++
      childStatements layout.parent (Fields.sections layout.children))

theorem lines_writeChildren (layout : Layout) :
    Lines layout.writeChildren
      (sectionStatements (Fields.sections layout.emptyParent) ++
        childStatements layout.parent (Fields.sections layout.children)) := by
  rcases layout with ⟨fields, tables, parent, children⟩
  cases children with
  | nil => exact Lines.table (List.cons_ne_nil _ _) (by simp [depthLimit]) []
  | cons first children => exact Lines.children parent (first :: children)

theorem readStatements_toText (layout : Layout) :
    readStatements (layout.toText.length + 1) layout.toText.toList = some layout.statements := by
  have lines := ((Lines.fields layout.fields).append (.tables layout.tables)).append
    layout.lines_writeChildren
  rw [toText, String.length_ofList, String.toList_ofList, lines.readStatements]
  simp [statements, sectionStatements, Fields.sections]

theorem head?_writeChildren (layout : Layout) : layout.writeChildren.head? = some '\n' := by
  rcases layout with ⟨fields, tables, parent, children⟩
  cases children with
  | nil => rfl
  | cons first children => rfl

/-- A document starts with a key or with the line in front of a header. -/
theorem head?_toText (layout : Layout) :
    ∀ char ∈ layout.toText.toList.head?, isKeyStart char = true ∨ char = '\n' := by
  intro char first
  have closing := layout.head?_writeChildren
  rw [toText, String.toList_ofList] at first
  rcases layout with ⟨_ | ⟨⟨key, field⟩, fields⟩, tables, parent, children⟩
  · right
    cases tables with
    | nil =>
        rw [writeFields, List.flatMap_nil, List.flatMap_nil, List.nil_append, List.nil_append,
          closing] at first
        exact (Option.some.inj first).symm
    | cons table tables => exact (Option.some.inj first).symm
  · rcases exists_writeKey_eq_cons key with ⟨start, others, same, starts⟩
    simp only [writeFields, List.flatMap_cons, same, List.cons_append, List.head?_cons,
      Option.mem_some_iff] at first
    exact .inl (first ▸ starts)

/-- No byte order mark stands in front of a document. -/
theorem dropMark_toText (layout : Layout) :
    dropMark layout.toText.toList = layout.toText.toList := by
  have head := layout.head?_toText
  cases textEq : layout.toText.toList with
  | nil => rfl
  | cons char rest =>
      rw [textEq] at head
      rw [dropMark, if_neg]
      intro mark
      have isMark : char = '\uFEFF' := Char.toNat_inj.mp mark
      rcases head char rfl with starts | isNewline
      · exact ne_of_passes starts (by decide) isMark
      · rw [isNewline] at isMark
        exact absurd isMark (by decide)

/-! ## Values -/

/-- The table that a layout stands for. -/
def value (layout : Layout) : Toml :=
  .table (layout.fields.entries ++ (Fields.values layout.tables ++
    [(layout.parent, .table (Fields.values layout.children))]))

/-- No key is given twice in one table. -/
structure Distinct (layout : Layout) : Prop where
  topLevel :
    (layout.fields.map Prod.fst ++ (layout.tables.map Prod.fst ++ [layout.parent])).Nodup
  names : (layout.children.map Prod.fst).Nodup
  fields : ∀ table ∈ layout.tables ++ layout.children, (table.2.map Prod.fst).Nodup

theorem ofStatements?_statements {layout : Layout} (distinct : layout.Distinct) :
    Document.ofStatements? layout.statements = some layout.value := by
  rcases layout with ⟨fields, tables, parent, children⟩
  rcases distinct with ⟨topLevel, names, distinct⟩
  rw [statements, ofStatements?_append, Fields.finishedTables_sections,
    Fields.finishedTables_sections]
  · cases children with
    | nil => simp [value, emptyParent, Fields.sections, Fields.values]
    | cons first children => simp [value, emptyParent, Fields.sections]
  · rw [Fields.keys_entries, Fields.keys_sections, List.map_append]
    cases children with
    | nil => exact topLevel
    | cons first children =>
        have parentless := (List.sublist_append_left (tables.map Prod.fst) [parent]).append_left
          (fields.map Prod.fst)
        simpa [emptyParent] using topLevel.sublist parentless
  · rw [Fields.keys_entries, Fields.keys_sections, List.map_append]
    cases children with
    | nil => exact fun occupied => absurd rfl occupied
    | cons first children =>
        intro _
        rw [← List.append_assoc] at topLevel
        simpa [emptyParent] using not_mem_of_nodup_append topLevel
  · exact (Fields.keys_sections children).symm ▸ names
  · have parentFields : ∀ table ∈ emptyParent ⟨fields, tables, parent, children⟩,
        (table.2.map Prod.fst).Nodup := by
      cases children with
      | nil => simp [emptyParent]
      | cons first children => simp [emptyParent]
    rw [List.forall_mem_append] at distinct
    rw [List.forall_mem_append]
    refine ⟨Fields.nodup_of_mem_sections ?_, Fields.nodup_of_mem_sections distinct.2⟩
    exact List.forall_mem_append.mpr ⟨distinct.1, parentFields⟩

/-- The text of a layout is read as the table that the layout stands for. -/
theorem parse?_toText {layout : Layout} (distinct : layout.Distinct) :
    parse? layout.toText = some layout.value := by
  rw [parse?, dropMark_toText, readStatements_toText, Option.bind_some,
    ofStatements?_statements distinct]

end Layout

end Highlight.Toml
