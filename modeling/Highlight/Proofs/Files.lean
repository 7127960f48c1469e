import Highlight.Files
import Highlight.Proofs.Text.Utf8

/-!
# Reading what was written

A text that has been saved is read back from the same path.  Writing puts one entry
where no directory stands.  A path is followed through directories only, so it leads to
the same place as before, and there the new entry stands.
-/

namespace Highlight.Files

variable {files saved : Files} {place : Place} {entry : Entry}

/-! ## Putting an entry -/

theorem at?_put_self (free : Place.isFixed place = false) :
    (files.put place entry).at? place = some entry := by
  simp [put, at?, free]

theorem lookup_filter_ne {other : Place} (ne : other ≠ place) (entries : List (Place × Entry)) :
    (entries.filter fun item => item.1 != place).lookup other = entries.lookup other := by
  induction entries with
  | nil => rfl
  | cons item rest ih =>
      rcases item with ⟨itemPlace, itemEntry⟩
      by_cases same : itemPlace = place
      · have differs : (other == itemPlace) = false := beq_false_of_ne (same ▸ ne)
        rw [List.filter_cons_of_neg (by simp [same]), ih, List.lookup_cons, differs]
      · rw [List.filter_cons_of_pos (by simp [same]), List.lookup_cons, List.lookup_cons, ih]

/-- Nothing changes but the one place. -/
theorem at?_put_of_ne {other : Place} (ne : other ≠ place) :
    (files.put place entry).at? other = files.at? other := by
  unfold put
  split
  · rfl
  · have differs : (other == place) = false := beq_false_of_ne ne
    simp only [at?, List.lookup_cons, differs, lookup_filter_ne ne]

/-! ## Following a path -/

theorem follow_append (files : Files) (place : Place) (front back : List String) :
    files.follow place (front ++ back) =
      (files.follow place front).bind fun reached => files.follow reached back := by
  induction front generalizing place with
  | nil => rfl
  | cons component front ih =>
      rw [List.cons_append, follow, follow]
      cases files.at? place with
      | none => rfl
      | some found =>
          cases found with
          | file content => rfl
          | directory =>
              simp only [ih]
              split
              · rfl
              split
              · rfl
              · cases checkName component <;> rfl

/-- A path leads where it led before if the entry that is put stands in the place of no
directory. -/
theorem follow_put (free : files.at? place ≠ some .directory) {start reached : Place}
    {components : List String} (followed : files.follow start components = .ok reached) :
    (files.put place entry).follow start components = .ok reached := by
  induction components generalizing start with
  | nil => exact followed
  | cons component components ih =>
      rw [follow] at followed ⊢
      cases found : files.at? start with
      | none =>
          rw [found] at followed
          cases followed
      | some standing =>
          cases standing with
          | file content =>
              rw [found] at followed
              cases followed
          | directory =>
              have ne : start ≠ place := by
                rintro rfl
                exact free found
              rw [at?_put_of_ne ne]
              rw [found] at followed ⊢
              simp only at followed ⊢
              split at followed
              · rw [if_pos (by assumption)]
                exact ih followed
              rw [if_neg (by assumption)]
              split at followed
              · rw [if_pos (by assumption)]
                exact ih followed
              rw [if_neg (by assumption)]
              cases named : checkName component with
              | error problem =>
                  rw [named] at followed
                  cases followed
              | ok _ =>
                  rw [named] at followed
                  exact ih followed

/-! ## Writing -/

variable {path : String} {content : Bytes}

/-- A path ends in a name if no empty part stands at its end. -/
theorem exists_parts_eq_append {parts : List String} (nonempty : parts ≠ [])
    (complete : (parts.reverse.dropWhile (·.isEmpty)).reverse = parts) :
    ∃ front name, parts = front ++ [name] ∧ name ≠ "" := by
  rcases List.exists_cons_of_ne_nil (List.reverse_ne_nil_iff.mpr nonempty) with
    ⟨name, front, reverseEq⟩
  refine ⟨front.reverse, name, List.reverse_eq_cons_iff.mp reverseEq, ?_⟩
  rintro rfl
  have lengthEq := congrArg List.length complete
  have shorter := (List.dropWhile_sublist (l := front) (·.isEmpty)).length_le
  rw [List.length_reverse, ← parts.length_reverse, reverseEq, List.dropWhile_cons_of_pos rfl,
    List.length_cons] at lengthEq
  omega

theorem reverse_dropWhile_reverse_eq {parts : List String}
    (complete : ¬ ((parts.reverse.dropWhile (·.isEmpty)).reverse).length < parts.length) :
    (parts.reverse.dropWhile (·.isEmpty)).reverse = parts := by
  have suffix := List.dropWhile_suffix (l := parts.reverse) (·.isEmpty)
  have sameLength : parts.reverse.length ≤ (parts.reverse.dropWhile (·.isEmpty)).length := by
    simpa using complete
  rw [suffix.eq_of_length_le sameLength, List.reverse_reverse]

/-- What is written stands at the end of its path, where no directory was. -/
theorem write_eq_ok (written : files.write path content = .ok saved) :
    checkPath path = .ok () ∧ path.isEmpty = false ∧
      ∃ front name parent, Path.parts path = front ++ [name] ∧
        files.follow (.start path) front = .ok parent ∧
        files.at? parent = some .directory ∧
        (name ≠ "" ∧ name ≠ "." ∧ name ≠ "..") ∧
        checkName name = .ok () ∧
        files.at? (parent ++ [name]) ≠ some .directory ∧
        saved = files.put (parent ++ [name]) (.file content) := by
  unfold write at written
  cases checked : checkPath path with
  | error problem =>
      rw [checked] at written
      cases written
  | ok _ =>
      rw [checked] at written
      simp only [bind, Except.bind] at written
      split at written
      · cases written
      · rename_i notEmpty
        refine ⟨rfl, Bool.eq_false_iff.mpr notEmpty, ?_⟩
        split at written
        · cases written
        · rename_i parent followed
          split at written
          · cases written
          · cases written
          · rename_i standing
            split at written
            · cases written
            · rename_i named
              simp only [not_or] at named
              rcases named with ⟨notDot, notParent, complete⟩
              have partsEq := reverse_dropWhile_reverse_eq complete
              have nonempty : Path.parts path ≠ [] := by
                intro empty
                rw [empty] at notDot
                exact notDot rfl
              rcases exists_parts_eq_append nonempty partsEq with ⟨front, name, appendEq, notBlank⟩
              rw [partsEq, appendEq] at followed notDot notParent written
              rw [List.getLast?_concat, Option.getD_some] at notDot notParent written
              rw [List.dropLast_concat] at followed
              split at written
              · cases written
              · rename_i checkedName
                split at written
                · cases written
                · rename_i free
                  refine ⟨front, name, parent, appendEq, followed, standing,
                    ⟨notBlank, notDot, notParent⟩, checkedName, free, ?_⟩
                  exact (Except.ok.inj written).symm

/-- The path of what was written leads to it. -/
theorem read_write (written : files.write path content = .ok saved) :
    saved.read path = .ok content := by
  rcases write_eq_ok written with ⟨checked, notEmpty, front, name, parent, partsEq, followed,
    standing, ⟨notBlank, notDot, notParent⟩, checkedName, free, rfl⟩
  have ne : parent ≠ parent ++ [name] := by
    simp
  have resolved : (files.put (parent ++ [name]) (.file content)).resolve path =
      .ok (parent ++ [name]) := by
    rw [resolve, checked, notEmpty, partsEq, follow_append, follow_put free followed]
    simp only [bind, Except.bind, Bool.false_eq_true, if_false]
    rw [follow, at?_put_of_ne ne, standing]
    simp [notBlank, notDot, notParent, checkedName, bind, Except.bind, follow]
  have notFixed : Place.isFixed (parent ++ [name]) = false := by
    rw [at?] at free
    by_contra fixed
    rw [Bool.not_eq_false] at fixed
    rw [if_pos fixed] at free
    exact free rfl
  rw [read, find, resolved]
  simp [at?_put_self notFixed, bind, Except.bind]

/-- A text that is saved under a path is read from it. -/
theorem readText_save {text : String} (written : files.save path text = .ok saved) :
    saved.readText path = .ok text := by
  unfold save at written
  cases made : files.makeParents path with
  | error problem =>
      rw [made] at written
      cases written
  | ok ready =>
      rw [made] at written
      rw [readText, read_write written]
      simp [bind, Except.bind, Utf8.decode?_bytes]

/-- It does not matter how the error is reported that did not occur. -/
theorem readText_of_mapError_save {ε : Type} {report : FileError → ε} {text : String}
    (written : (files.save path text).mapError report = .ok saved) :
    saved.readText path = .ok text := by
  cases stored : files.save path text with
  | error problem =>
      rw [stored] at written
      cases written
  | ok ready =>
      rw [stored] at written
      cases written
      exact readText_save stored

end Highlight.Files
