import Highlight.Toml.Document

/-!
# Assembling written documents

A document is written from the top down: values, then tables under headers of their
own, then tables inside a common parent that has no header.  Statements in this order
define the table that was written, since each of them goes into what came last.
-/

namespace Highlight.Toml

namespace Items

/-- The keys of some items. -/
abbrev keys (items : Items) : List String :=
  items.map Prod.fst

variable {items outer : Items} {key name : String}

/-! ## The last entry -/

theorem lookup_eq_none (fresh : key ∉ items.keys) : items.lookup key = none := by
  rw [List.lookup_eq_none_iff]
  intro entry among
  have differs : key ≠ entry.1 := by
    rintro rfl
    exact fresh (List.mem_map_of_mem among)
  simpa using differs

theorem lookup_last (fresh : key ∉ items.keys) (item : Item) :
    List.lookup key (items ++ [(key, item)]) = some item := by
  rw [List.lookup_append, lookup_eq_none fresh]
  simp

theorem replace_last (fresh : key ∉ items.keys) (old new : Item) :
    replace (items ++ [(key, old)]) key new = items ++ [(key, new)] := by
  have others : ∀ entry ∈ items, (if entry.1 = key then (key, new) else entry) = entry := by
    intro entry among
    rw [if_neg]
    rintro rfl
    exact fresh (List.mem_map_of_mem among)
  rw [replace, List.map_append, List.map_congr_left others]
  simp

/-- A header's path enters the table that came last. -/
theorem descend_last (fresh : key ∉ items.keys) (change : Origin → Items → Option Items)
    (path : List String) (start origin : Origin) (inner : Items) :
    descend false change (key :: path) start (items ++ [(key, .table origin inner)]) =
      (descend false change path origin inner).map
        fun inner => items ++ [(key, .table origin inner)] := by
  rw [descend, lookup_last fresh]
  simp only [Bool.false_eq_true, false_and, if_false]
  cases descend false change path origin inner with
  | none => rfl
  | some inner => simp [replace_last fresh]

/-- A path leads to a table whose items stand among others. -/
def LeadsTo (path : List String) (around : Items → Items) : Prop :=
  ∀ (change : Origin → Items → Option Items) (inner : Items),
    descend false change path .header (around inner) = (change .header inner).map around

theorem leadsTo_nil : LeadsTo [] id := by
  intro change inner
  rw [descend, Option.map_id]
  rfl

theorem leadsTo_last (fresh : key ∉ items.keys) :
    LeadsTo [key] fun inner => items ++ [(key, .table .header inner)] := by
  intro change inner
  exact descend_last fresh change [] .header .header inner

theorem leadsTo_child (fresh : key ∉ items.keys) (freshName : name ∉ outer.keys) :
    LeadsTo [key, name] fun inner =>
      items ++ [(key, .table .parent (outer ++ [(name, .table .header inner)]))] := by
  intro change inner
  rw [descend_last fresh, descend_last freshName, Option.map_map]
  rfl

/-! ## Headers -/

theorem openTable_singleton (fresh : key ∉ items.keys) :
    openTable items [key] = some (items ++ [(key, .table .header [])]) := by
  simp [openTable, descend, lookup_eq_none fresh]

/-- The items with a parent that has no header, once it has a table inside. -/
def withParent (items : Items) (key : String) (outer : Items) : Items :=
  if outer.isEmpty then items else items ++ [(key, .table .parent outer)]

/-- The header of a table inside a parent makes the parent if need be. -/
theorem openTable_pair (fresh : key ∉ items.keys) (freshName : name ∉ outer.keys) :
    openTable (items.withParent key outer) [key, name] =
      some (items ++ [(key, .table .parent (outer ++ [(name, .table .header [])]))]) := by
  unfold withParent openTable
  split
  · rename_i empty
    rw [List.isEmpty_iff] at empty
    subst empty
    simp [descend, lookup_eq_none fresh]
  · simp only [List.dropLast, descend_last fresh]
    simp [descend, lookup_eq_none freshName]

end Items

theorem not_mem_of_nodup_append {name : String} {names others : List String}
    (distinct : (others ++ name :: names).Nodup) : name ∉ others := by
  intro among
  exact (List.nodup_append.mp distinct).2.2 name among name List.mem_cons_self rfl

/-! ## Values -/

/-- The statements that give some keys their values. -/
def assignments (entries : List (String × Toml)) : List Statement :=
  entries.map fun (key, value) => .assign [key] value

/-- The items that hold some values. -/
def values (entries : List (String × Toml)) : Items :=
  entries.map fun (key, value) => (key, .value value)

theorem keys_values (entries : List (String × Toml)) :
    (values entries).keys = entries.map Prod.fst := by
  rw [Items.keys, values, List.map_map]
  rfl

section

variable {path : List String} {around : Items → Items} {entries others : List (String × Toml)}

/-- A value goes into the table that the path of the last header leads to. -/
theorem add_assign (leads : Items.LeadsTo path around) {key : String}
    (fresh : key ∉ entries.map Prod.fst) (value : Toml) :
    Document.add ⟨around (values entries), path⟩ (.assign [key] value) =
      some ⟨around (values (entries ++ [(key, value)])), path⟩ := by
  have absent : (values entries).lookup key = none :=
    Items.lookup_eq_none (keys_values entries ▸ fresh)
  have appended : values (entries ++ [(key, value)]) = values entries ++ [(key, .value value)] :=
    List.map_append
  rw [Document.add, leads, appended]
  simp [Items.insertDotted, Items.descend, Items.insertNew, absent]

theorem foldlM_assignments_append (leads : Items.LeadsTo path around)
    (distinct : (others.map Prod.fst ++ entries.map Prod.fst).Nodup) :
    (assignments entries).foldlM Document.add ⟨around (values others), path⟩ =
      some ⟨around (values (others ++ entries)), path⟩ := by
  induction entries generalizing others with
  | nil => simp [assignments]
  | cons entry entries ih =>
      rcases entry with ⟨key, value⟩
      have fresh := not_mem_of_nodup_append distinct
      have step := add_assign leads fresh value
      have rest := @ih (others ++ [(key, value)]) (by simpa using distinct)
      rw [List.append_cons, assignments, List.map_cons, List.foldlM_cons, step]
      exact rest

/-- Values fill the table that the path of the last header leads to. -/
theorem foldlM_assignments (leads : Items.LeadsTo path around)
    (distinct : (entries.map Prod.fst).Nodup) :
    (assignments entries).foldlM Document.add ⟨around [], path⟩ =
      some ⟨around (values entries), path⟩ := by
  have all : (([] : List (String × Toml)).map Prod.fst ++ entries.map Prod.fst).Nodup := distinct
  exact foldlM_assignments_append leads all

end

/-! ## Tables -/

/-- The statements of a table with its header. -/
def tableStatements (path : List String) (entries : List (String × Toml)) : List Statement :=
  .table path :: assignments entries

/-- The items that hold some tables. -/
def tables (sections : List (String × List (String × Toml))) : Items :=
  sections.map fun (name, entries) => (name, .table .header (values entries))

theorem keys_tables (sections : List (String × List (String × Toml))) :
    (tables sections).keys = sections.map Prod.fst := by
  rw [Items.keys, tables, List.map_map]
  rfl

/-- The statements of tables on the first level. -/
def sectionStatements (sections : List (String × List (String × Toml))) : List Statement :=
  sections.flatMap fun (name, entries) => tableStatements [name] entries

/-- The statements of tables inside a parent without a header. -/
def childStatements (key : String) (children : List (String × List (String × Toml))) :
    List Statement :=
  children.flatMap fun (name, entries) => tableStatements [key, name] entries

section

variable {items : Items} {key name : String} {entries : List (String × Toml)}
variable {others : List (String × List (String × Toml))}

/-- A table on the first level comes after the items that are there. -/
theorem foldlM_section (fresh : name ∉ items.keys) (distinct : (entries.map Prod.fst).Nodup)
    (current : List String) :
    (tableStatements [name] entries).foldlM Document.add ⟨items, current⟩ =
      some ⟨items ++ tables [(name, entries)], [name]⟩ := by
  rw [tableStatements, List.foldlM_cons, Document.add, Items.openTable_singleton fresh]
  exact foldlM_assignments (Items.leadsTo_last fresh) distinct

theorem foldlM_sectionStatements {sections : List (String × List (String × Toml))}
    (names : (items.keys ++ sections.map Prod.fst).Nodup)
    (distinct : ∀ table ∈ sections, (table.2.map Prod.fst).Nodup) (current : List String) :
    ∃ path, (sectionStatements sections).foldlM Document.add ⟨items, current⟩ =
      some ⟨items ++ tables sections, path⟩ := by
  induction sections generalizing items current with
  | nil => exact ⟨current, by simp [sectionStatements, tables]⟩
  | cons table sections ih =>
      rcases table with ⟨name, entries⟩
      rw [List.forall_mem_cons] at distinct
      have first := foldlM_section (not_mem_of_nodup_append names) distinct.1 current
      have others : ((items ++ tables [(name, entries)]).keys ++ sections.map Prod.fst).Nodup := by
        simpa [tables] using names
      rcases ih others distinct.2 [name] with ⟨path, rest⟩
      refine ⟨path, ?_⟩
      rw [sectionStatements, List.flatMap_cons, List.foldlM_append, first]
      rw [List.append_assoc] at rest
      exact rest

/-- A table inside a parent comes after those that are there, whether or not it is the one
that makes the parent. -/
theorem foldlM_child (fresh : key ∉ items.keys) (freshName : name ∉ others.map Prod.fst)
    (distinct : (entries.map Prod.fst).Nodup) (current : List String) :
    (tableStatements [key, name] entries).foldlM Document.add
        ⟨items.withParent key (tables others), current⟩ =
      some ⟨items.withParent key (tables (others ++ [(name, entries)])), [key, name]⟩ := by
  rw [← keys_tables] at freshName
  have appended : items.withParent key (tables (others ++ [(name, entries)])) =
      items ++ [(key, .table .parent
        (tables others ++ [(name, .table .header (values entries))]))] := by
    simp [Items.withParent, tables]
  rw [tableStatements, List.foldlM_cons, Document.add, Items.openTable_pair fresh freshName,
    appended]
  exact foldlM_assignments (Items.leadsTo_child fresh freshName) distinct

theorem foldlM_childStatements (fresh : key ∉ items.keys)
    {children : List (String × List (String × Toml))}
    (names : (others.map Prod.fst ++ children.map Prod.fst).Nodup)
    (distinct : ∀ child ∈ children, (child.2.map Prod.fst).Nodup) (current : List String) :
    ∃ path, (childStatements key children).foldlM Document.add
        ⟨items.withParent key (tables others), current⟩ =
      some ⟨items.withParent key (tables (others ++ children)), path⟩ := by
  induction children generalizing others current with
  | nil => exact ⟨current, by simp [childStatements]⟩
  | cons child children ih =>
      rcases child with ⟨name, entries⟩
      rw [List.forall_mem_cons] at distinct
      have first := foldlM_child fresh (not_mem_of_nodup_append names) distinct.1 current
      have later : ((others ++ [(name, entries)]).map Prod.fst ++ children.map Prod.fst).Nodup := by
        simpa using names
      rcases ih later distinct.2 [key, name] with ⟨path, rest⟩
      refine ⟨path, ?_⟩
      rw [List.append_cons, childStatements, List.flatMap_cons, List.foldlM_append, first]
      exact rest

end

/-! ## Finished documents -/

theorem finishEntries_append (items others : Items) :
    finishEntries (items ++ others) = finishEntries items ++ finishEntries others := by
  induction items with
  | nil => rfl
  | cons entry items ih =>
      rcases entry with ⟨key, item⟩
      rw [List.cons_append, finishEntries, finishEntries, ih, List.cons_append]

theorem finishEntries_map {α : Type} (item : α → Item) (entries : List (String × α)) :
    finishEntries (entries.map fun (key, content) => (key, item content)) =
      entries.map fun (key, content) => (key, (item content).finish) := by
  induction entries with
  | nil => rfl
  | cons entry entries ih =>
      rcases entry with ⟨key, content⟩
      rw [List.map_cons, finishEntries, ih]
      rfl

theorem finishEntries_values (entries : List (String × Toml)) :
    finishEntries (values entries) = entries := by
  rw [values, finishEntries_map]
  simp [Item.finish]

/-- Tables with their entries, as values. -/
def finishedTables (sections : List (String × List (String × Toml))) : List (String × Toml) :=
  sections.map fun (name, entries) => (name, .table entries)

theorem finishEntries_tables (sections : List (String × List (String × Toml))) :
    finishEntries (tables sections) = finishedTables sections := by
  rw [tables, finishEntries_map fun entries => Item.table .header (values entries)]
  simp [Item.finish, finishEntries_values, finishedTables]

theorem finishEntries_withParent (items : Items) (key : String)
    (children : List (String × List (String × Toml))) :
    finishEntries (items.withParent key (tables children)) = finishEntries items ++
      if children.isEmpty then [] else [(key, .table (finishedTables children))] := by
  cases children with
  | nil => exact (List.append_nil _).symm
  | cons child children =>
      have parent : items.withParent key (tables (child :: children)) =
          items ++ [(key, .table .parent (tables (child :: children)))] := rfl
      rw [parent, finishEntries_append, finishEntries, Item.finish, finishEntries_tables]
      rfl

/-- A document of values, of tables with headers and of tables inside a parent defines the
table that has all of these in this order. -/
theorem ofStatements?_append {root : List (String × Toml)}
    {sections children : List (String × List (String × Toml))} {key : String}
    (topLevel : (root.map Prod.fst ++ sections.map Prod.fst).Nodup)
    (fresh : children ≠ [] → key ∉ root.map Prod.fst ++ sections.map Prod.fst)
    (names : (children.map Prod.fst).Nodup)
    (distinct : ∀ table ∈ sections ++ children, (table.2.map Prod.fst).Nodup) :
    Document.ofStatements?
        (assignments root ++ (sectionStatements sections ++ childStatements key children)) =
      some (.table (root ++ (finishedTables sections ++
        if children.isEmpty then [] else [(key, .table (finishedTables children))]))) := by
  rw [List.forall_mem_append] at distinct
  have keys : (values root ++ tables sections).keys =
      root.map Prod.fst ++ sections.map Prod.fst := by
    rw [Items.keys, List.map_append, ← Items.keys, ← Items.keys, keys_values, keys_tables]
  have placed : ((values root).keys ++ sections.map Prod.fst).Nodup := by
    rw [keys_values]
    exact topLevel
  have alone : (([] : List (String × List (String × Toml))).map Prod.fst ++
      children.map Prod.fst).Nodup := names
  have filled : (assignments root).foldlM Document.add {} = some ⟨values root, []⟩ :=
    foldlM_assignments Items.leadsTo_nil (List.nodup_append.mp topLevel).1
  rcases foldlM_sectionStatements placed distinct.1 [] with ⟨path, opened⟩
  have assembled : ∃ last, (assignments root ++ (sectionStatements sections ++
      childStatements key children)).foldlM Document.add {} =
        some ⟨(values root ++ tables sections).withParent key (tables children), last⟩ := by
    rw [List.foldlM_append, filled, Option.bind_eq_bind, Option.bind_some, List.foldlM_append,
      opened, Option.bind_eq_bind, Option.bind_some]
    by_cases empty : children = []
    · subst empty
      exact ⟨path, rfl⟩
    · exact foldlM_childStatements (keys ▸ fresh empty) alone distinct.2 path
  rcases assembled with ⟨last, assembled⟩
  rw [Document.ofStatements?, assembled, Option.map_some, Document.finish, finishEntries_withParent,
    finishEntries_append, finishEntries_values, finishEntries_tables, List.append_assoc]

end Highlight.Toml
