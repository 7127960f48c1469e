import Mathlib.Data.List.Basic
import Mathlib.Data.List.TakeWhile

/-!
# Lists

Facts about lists that know nothing of texts: what a run of a class takes from the front
of a list and what it leaves, and lists that are put together with separators.
-/

namespace List

variable {α : Type}

/-! ## Runs of a class -/

section

variable {p : α → Bool} {items front back : List α}

/-- What is taken and what is left are all items. -/
theorem length_takeWhile_add_dropWhile (p : α → Bool) (items : List α) :
    (items.takeWhile p).length + (items.dropWhile p).length = items.length := by
  rw [← length_append, takeWhile_append_dropWhile]

/-- A run of a class ends in front of the first item outside it. -/
theorem takeWhile_append_eq_left (holds : ∀ item ∈ front, p item = true)
    (ends : ∀ item ∈ back.head?, p item = false) : (front ++ back).takeWhile p = front := by
  rw [takeWhile_append_of_pos holds]
  cases back with
  | nil => rw [takeWhile_nil, append_nil]
  | cons item back => simp [ends item rfl]

theorem dropWhile_append_eq_right (holds : ∀ item ∈ front, p item = true)
    (ends : ∀ item ∈ back.head?, p item = false) : (front ++ back).dropWhile p = back := by
  rw [dropWhile_append_of_pos holds]
  cases back with
  | nil => rw [dropWhile_nil]
  | cons item back => simp [ends item rfl]

/-- Dropping a run of items is dropping as many items as the run has. -/
theorem dropWhile_eq_drop (p : α → Bool) (items : List α) :
    items.dropWhile p = items.drop (items.takeWhile p).length := by
  induction items with
  | nil => rfl
  | cons item items ih =>
      by_cases holds : p item = true
      · simp [holds, ih]
      · simp [holds]

/-- Of the first items, those at the front go whether they are counted among all items or
among the first. -/
theorem drop_take_eq_dropWhile (p : α → Bool) (items : List α) (count : Nat) :
    (items.take count).drop (items.takeWhile p).length = (items.take count).dropWhile p := by
  induction items generalizing count with
  | nil => rw [take_nil, drop_nil, dropWhile_nil]
  | cons item rest ih =>
      cases count with
      | zero => rw [take_zero, drop_nil, dropWhile_nil]
      | succ count =>
          rw [take_succ_cons]
          by_cases holds : p item = true
          · rw [takeWhile_cons_of_pos holds, dropWhile_cons_of_pos holds, length_cons,
              drop_succ_cons, ih]
          · rw [takeWhile_cons_of_neg holds, dropWhile_cons_of_neg holds, length_nil, drop_zero]

/-- A run at the end of a list with other items ends before them. -/
theorem length_takeWhile_reverse_lt (other : ¬ ∀ item ∈ items, p item = true) :
    (items.reverse.takeWhile p).length < items.length := by
  have runLe := (List.takeWhile_prefix p (l := items.reverse)).length_le
  rw [length_reverse] at runLe
  refine Nat.lt_of_le_of_ne runLe ?_
  intro lengthEq
  apply other
  intro item member
  have runEq : items.reverse.takeWhile p = items.reverse :=
    (List.takeWhile_prefix p).eq_of_length (by rw [lengthEq, length_reverse])
  exact takeWhile_eq_self_iff.mp runEq item (mem_reverse.mpr member)

/-- A search for an item of a class leads to what is left of the run in front of it. -/
theorem findIdx?_map_drop (p : α → Bool) (items : List α) :
    (items.findIdx? p).map items.drop =
      if (items.dropWhile (!p ·)).isEmpty then none else some (items.dropWhile (!p ·)) := by
  induction items with
  | nil => rfl
  | cons item items ih =>
      by_cases holds : p item = true
      · simp [findIdx?_cons, holds]
      · simp only [Bool.not_eq_true] at holds
        simp only [findIdx?_cons, holds, Bool.false_eq_true, if_false, Option.map_map,
          Function.comp_def, drop_succ_cons, Bool.not_false, dropWhile_cons_of_pos]
        exact ih

/-- Where the items of a class all come first, those outside it are behind them. -/
theorem dropWhile_eq_filter
    (first : items.Pairwise fun left right => p right = true → p left = true) :
    items.dropWhile p = items.filter (!p ·) := by
  induction items with
  | nil => rfl
  | cons item rest ih =>
      obtain ⟨before, restFirst⟩ := pairwise_cons.mp first
      by_cases holds : p item = true
      · rw [dropWhile_cons_of_pos holds, ih restFirst, filter_cons_of_neg]
        rw [holds]
        exact Bool.false_ne_true
      · rw [dropWhile_cons_of_neg holds]
        refine (filter_eq_self.mpr ?_).symm
        intro other member
        rw [Bool.not_eq_true', ← Bool.not_eq_true]
        rcases mem_cons.mp member with rfl | member
        · exact holds
        · exact fun later => holds (before other member later)

/-- Where the items of a class all come first, they are the run at the front. -/
theorem takeWhile_eq_filter
    (first : items.Pairwise fun left right => p right = true → p left = true) :
    items.takeWhile p = items.filter p := by
  have frontEq : (items.takeWhile p).filter p = items.takeWhile p :=
    filter_eq_self.mpr fun item member => mem_takeWhile_imp member
  have backEq : (items.dropWhile p).filter p = [] := by
    rw [dropWhile_eq_filter first, filter_eq_nil_iff]
    intro item member holds
    have fails := (mem_filter.mp member).2
    rw [holds] at fails
    cases fails
  calc
    items.takeWhile p = (items.takeWhile p).filter p ++ (items.dropWhile p).filter p := by
      rw [frontEq, backEq, append_nil]
    _ = items.filter p := by rw [← filter_append, takeWhile_append_dropWhile]

end

/-! ## Separators -/

theorem intercalate_append {separator : List α} {left right : List (List α)}
    (leftNonempty : left ≠ []) (rightNonempty : right ≠ []) :
    separator.intercalate (left ++ right) =
      separator.intercalate left ++ separator ++ separator.intercalate right := by
  induction left with
  | nil => exact absurd rfl leftNonempty
  | cons part left ih =>
      cases left with
      | nil =>
          rcases exists_cons_of_ne_nil rightNonempty with ⟨next, others, rfl⟩
          rw [singleton_append, intercalate_cons_cons, intercalate_singleton]
      | cons next left =>
          have rest := ih (cons_ne_nil _ _)
          rw [cons_append] at rest
          rw [cons_append, cons_append, intercalate_cons_cons, rest,
            intercalate_cons_cons]
          simp only [append_assoc]

/-- Putting groups together that are put together themselves. -/
theorem intercalate_map_intercalate (separator : List α)
    {groups : List (List (List α))} (nonempty : ∀ group ∈ groups, group ≠ []) :
    separator.intercalate (groups.map separator.intercalate) =
      separator.intercalate groups.flatten := by
  induction groups with
  | nil => rfl
  | cons group groups ih =>
      rcases forall_mem_cons.mp nonempty with ⟨groupNonempty, othersNonempty⟩
      cases groups with
      | nil => simp
      | cons next others =>
          have flattenNonempty : (next :: others).flatten ≠ [] := by
            simp [othersNonempty next mem_cons_self]
          have flattenEq : (group :: next :: others).flatten =
              group ++ (next :: others).flatten := flatten_cons
          rw [map_cons, map_cons, intercalate_cons_cons, ← map_cons,
            ih othersNonempty, flattenEq, intercalate_append groupNonempty flattenNonempty]

end List
