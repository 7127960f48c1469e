/-!
# Ordered lists

Sets and maps are kept as lists in which a key strictly increases.  Such a list
is determined by its elements, so two sets with the same elements are equal,
and listing one needs no sorting.
-/

namespace Highlight.Ordered

variable {α : Type}

/-- The keys of a list strictly increase. -/
abbrev Increasing (key : α → String) (items : List α) : Prop :=
  items.Pairwise fun left right => key left < key right

/-- Puts an item in its place, instead of one with the same key. -/
def insert (key : α → String) (item : α) : List α → List α
  | [] => [item]
  | first :: rest =>
      if key item < key first then item :: first :: rest
      else if key first < key item then first :: insert key item rest
      else item :: rest

/-- Inserting adds the item and takes out what had its key. -/
theorem mem_insert_iff {key : α → String} {item other : α} {items : List α}
    (increasing : Increasing key items) :
    other ∈ insert key item items ↔ other = item ∨ (other ∈ items ∧ key other ≠ key item) := by
  induction items with
  | nil => simp [insert]
  | cons first rest ih =>
      have ⟨firstLt, restIncreasing⟩ := List.pairwise_cons.mp increasing
      have ne_of_mem_rest : ∀ {x : α}, x ∈ rest → ¬ key first < key item → key x ≠ key item := by
        intro x member notAfter same
        exact notAfter (same ▸ firstLt x member)
      by_cases before : key item < key first
      · have notAfter : ¬ key first < key item := String.lt_asymm before
        have firstNe : key first ≠ key item := by
          intro same
          exact String.lt_irrefl (key item) (same ▸ before)
        simp only [insert, before, if_true, List.mem_cons]
        constructor
        · rintro (equal | equal | member)
          · exact Or.inl equal
          · exact Or.inr ⟨Or.inl equal, equal ▸ firstNe⟩
          · exact Or.inr ⟨Or.inr member, ne_of_mem_rest member notAfter⟩
        · rintro (equal | ⟨member, _⟩)
          · exact Or.inl equal
          · exact Or.inr member
      · by_cases after : key first < key item
        · have firstNe : key first ≠ key item := by
            intro same
            exact String.lt_irrefl (key item) (same ▸ after)
          simp only [insert, before, after, if_false, if_true, List.mem_cons, ih restIncreasing]
          constructor
          · rintro (equal | equal | ⟨member, differs⟩)
            · exact Or.inr ⟨Or.inl equal, equal ▸ firstNe⟩
            · exact Or.inl equal
            · exact Or.inr ⟨Or.inr member, differs⟩
          · rintro (equal | ⟨equal | member, differs⟩)
            · exact Or.inr (Or.inl equal)
            · exact Or.inl equal
            · exact Or.inr (Or.inr ⟨member, differs⟩)
        · have same : key first = key item :=
            String.le_antisymm (String.not_lt.mp before) (String.not_lt.mp after)
          simp only [insert, before, after, if_false, List.mem_cons]
          constructor
          · rintro (equal | member)
            · exact Or.inl equal
            · exact Or.inr ⟨Or.inr member, ne_of_mem_rest member after⟩
          · rintro (equal | ⟨equal | member, differs⟩)
            · exact Or.inl equal
            · exact absurd (equal ▸ same) differs
            · exact Or.inr member

/-- Inserting keeps the order. -/
theorem increasing_insert {key : α → String} {item : α} {items : List α}
    (increasing : Increasing key items) : Increasing key (insert key item items) := by
  induction items with
  | nil => simp [insert, Increasing]
  | cons first rest ih =>
      have ⟨firstLt, restIncreasing⟩ := List.pairwise_cons.mp increasing
      by_cases before : key item < key first
      · simp only [insert, before, if_true, Increasing, List.pairwise_cons]
        refine ⟨?_, firstLt, restIncreasing⟩
        intro other member
        rcases List.mem_cons.mp member with rfl | member
        · exact before
        · exact String.lt_trans before (firstLt other member)
      · by_cases after : key first < key item
        · simp only [insert, before, after, if_false, if_true, Increasing, List.pairwise_cons]
          refine ⟨?_, ih restIncreasing⟩
          intro other member
          rcases (mem_insert_iff restIncreasing).mp member with rfl | ⟨member, _⟩
          · exact after
          · exact firstLt other member
        · have same : key first = key item :=
            String.le_antisymm (String.not_lt.mp before) (String.not_lt.mp after)
          simp only [insert, before, after, if_false, Increasing, List.pairwise_cons]
          exact ⟨fun other member => same ▸ firstLt other member, restIncreasing⟩

theorem nodup_keys {key : α → String} {items : List α} (increasing : Increasing key items) :
    (items.map key).Nodup := by
  rw [List.Nodup, List.pairwise_map]
  apply increasing.imp
  intro item other before same
  exact String.lt_irrefl (key other) (same ▸ before)

/-- An ordered list is determined by its elements. -/
theorem eq_of_mem_iff {key : α → String} {left right : List α}
    (leftIncreasing : Increasing key left) (rightIncreasing : Increasing key right)
    (same : ∀ item, item ∈ left ↔ item ∈ right) : left = right := by
  have nodup {items : List α} (increasing : Increasing key items) : items.Nodup :=
    List.Pairwise.of_map key (fun _ _ differ equal => differ (congrArg key equal))
      (nodup_keys increasing)
  have permuted : left.Perm right := by
    rw [List.perm_ext_iff_of_nodup (nodup leftIncreasing) (nodup rightIncreasing)]
    exact same
  apply permuted.eq_of_pairwise _ leftIncreasing rightIncreasing
  intro item other _ _ before after
  exact absurd after (String.lt_asymm before)

end Highlight.Ordered
