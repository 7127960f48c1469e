import Highlight.Proofs.Grammar.Override
import Highlight.Proofs.Registry.Lookup
import Mathlib.Data.List.Forall2

/-!
# Overrides of registered grammars

An override extends the grammar that its name finds and touches no other.  A series
of overrides stops at the first name that finds none; what came before it has been
applied by then and stays.  So a series that fails has left everything as it was
exactly if each override before that name has added nothing.

`Registry.override_eq_ok` and `Registry.override_eq_error` say what one override
does.  `Registry.AllGrow` is what a series of them can do: every grammar keeps its
place and loses nothing.  Since growth is an order, a registry that is the same at the
end was the same all along.
-/

namespace Highlight.Registry

/-! ## One override -/

/-- The item that is changed is the last that passes the test. -/
theorem changeLast_eq_append {α : Type} {test : α → Bool} (change : α → α) {items : List α}
    {item : α} (found : items.reverse.find? test = some item) :
    ∃ left right, items = left ++ item :: right ∧
      changeLast test change items = left ++ change item :: right := by
  induction items with
  | nil => cases found
  | cons first rest ih =>
      have anyEq : rest.any test = (rest.reverse.find? test).isSome := by
        rw [List.isSome_find?, List.any_reverse]
      rw [List.reverse_cons, List.find?_append] at found
      rw [changeLast, anyEq]
      cases later : rest.reverse.find? test with
      | some last =>
          rw [later, Option.some_or] at found
          rcases ih (later.trans found) with ⟨left, right, restEq, changedEq⟩
          refine ⟨first :: left, right, congrArg (first :: ·) restEq, ?_⟩
          rw [changedEq]
          rfl
      | none =>
          rw [later, Option.none_or, List.find?_singleton, Option.ite_none_right_eq_some] at found
          rcases found with ⟨passes, firstEq⟩
          cases firstEq
          refine ⟨[], rest, rfl, ?_⟩
          rw [if_pos passes]
          rfl

theorem isSome_byName? (registry : Registry) (name : String) :
    (registry.byName? name).isSome = registry.grammars.any (answersTo name) := by
  rw [byName?, List.isSome_find?, List.any_reverse]

/-- An override fails if its name finds no grammar. -/
theorem override_eq_error {registry : Registry} {name : String}
    (unknown : registry.byName? name = none) (extra : Override) :
    registry.override name extra = .error (.unknown name) := by
  rw [override, ← isSome_byName?, unknown]
  rfl

/-- Otherwise it extends the grammar that its name finds, in its place. -/
theorem override_eq_ok {registry : Registry} {name : String} {grammar : Grammar}
    (found : registry.byName? name = some grammar) (extra : Override) :
    ∃ left right, registry.grammars = left ++ grammar :: right ∧
      registry.override name extra = .ok ⟨left ++ grammar.extend extra :: right⟩ := by
  rcases changeLast_eq_append (·.extend extra) found with ⟨left, right, splitEq, changedEq⟩
  refine ⟨left, right, splitEq, ?_⟩
  rw [override, ← isSome_byName?, found, changedEq]
  rfl

/-! ## Growth -/

/-- Every grammar keeps its place and loses nothing. -/
abbrev AllGrow : (before after : List Grammar) → Prop :=
  List.Forall₂ Grammar.Grows

namespace AllGrow

variable {before middle after : List Grammar}

theorem refl (grammars : List Grammar) : AllGrow grammars grammars := by
  apply List.forall₂_same.mpr
  intro grammar _
  exact .refl grammar

theorem trans (first : AllGrow before middle) (second : AllGrow middle after) :
    AllGrow before after := by
  induction first generalizing after with
  | nil => exact second
  | cons grows _ ih =>
      cases second with
      | cons growsOn rest => exact .cons (grows.trans growsOn) (ih rest)

theorem antisymm (first : AllGrow before after) (second : AllGrow after before) :
    before = after := by
  induction first with
  | nil => rfl
  | cons grows _ ih =>
      cases second with
      | cons growsBack rest => rw [grows.antisymm growsBack, ih rest]

theorem map_name (grows : AllGrow before after) :
    after.map Grammar.name = before.map Grammar.name := by
  induction grows with
  | nil => rfl
  | cons grows _ ih => rw [List.map_cons, List.map_cons, grows.name, ih]

/-- Each grammar comes from one that it has grown out of. -/
theorem exists_grows_of_mem (grows : AllGrow before after) {grammar : Grammar}
    (member : grammar ∈ after) : ∃ earlier ∈ before, earlier.Grows grammar := by
  induction grows with
  | nil => cases member
  | cons grows _ ih =>
      rcases List.mem_cons.mp member with rfl | member
      · exact ⟨_, List.mem_cons_self, grows⟩
      · rcases ih member with ⟨earlier, earlierMember, earlierGrows⟩
        exact ⟨earlier, List.mem_cons_of_mem _ earlierMember, earlierGrows⟩

end AllGrow

theorem allGrow_extend (left right : List Grammar) (grammar : Grammar) (extra : Override) :
    AllGrow (left ++ grammar :: right) (left ++ grammar.extend extra :: right) := by
  apply List.rel_append
  · exact AllGrow.refl left
  · exact .cons (grammar.grows_extend extra) (AllGrow.refl right)

/-- A series of overrides takes nothing away, whether or not it fails. -/
theorem allGrow_applyOverrides (registry : Registry) (overrides : List (String × Override)) :
    AllGrow registry.grammars (registry.applyOverrides overrides).1.grammars := by
  induction overrides generalizing registry with
  | nil => exact .refl registry.grammars
  | cons entry rest ih =>
      rcases entry with ⟨name, extra⟩
      rw [applyOverrides]
      cases found : registry.byName? name with
      | none =>
          rw [override_eq_error found]
          exact .refl registry.grammars
      | some grammar =>
          rcases override_eq_ok found extra with ⟨left, right, splitEq, overridden⟩
          rw [overridden, splitEq]
          exact (allGrow_extend left right grammar extra).trans (ih _)

/-- Whether a grammar answers to a name depends on the names of the grammars only. -/
theorem any_answersTo_congr {left right : List Grammar}
    (names : left.map Grammar.name = right.map Grammar.name) (name : String) :
    left.any (answersTo name) = right.any (answersTo name) := by
  have anyEq (grammars : List Grammar) : grammars.any (answersTo name) =
      (grammars.map Grammar.name).any (Ascii.sameLetters · (canonicalName name)) := by
    rw [List.any_map]
    rfl
  rw [anyEq, anyEq, names]

/-- Growth changes no name, so a name finds a grammar as before. -/
theorem isSome_byName?_of_allGrow {before after : Registry}
    (grow : AllGrow before.grammars after.grammars) (name : String) :
    (after.byName? name).isSome = (before.byName? name).isSome := by
  rw [isSome_byName?, isSome_byName?, any_answersTo_congr grow.map_name]

/-! ## Series that fail -/

/-- The overrides in front of the first name that finds no grammar. -/
def knownFront (registry : Registry) (overrides : List (String × Override)) :
    List (String × Override) :=
  overrides.takeWhile fun entry => (registry.byName? entry.1).isSome

theorem knownFront_cons_of_unknown {registry : Registry} {name : String}
    (unknown : registry.byName? name = none) (extra : Override)
    (rest : List (String × Override)) : registry.knownFront ((name, extra) :: rest) = [] := by
  apply List.takeWhile_cons_of_neg
  simp [unknown]

theorem knownFront_cons {registry : Registry} {name : String} {grammar : Grammar}
    (found : registry.byName? name = some grammar) (extra : Override)
    (rest : List (String × Override)) :
    registry.knownFront ((name, extra) :: rest) = (name, extra) :: registry.knownFront rest := by
  apply List.takeWhile_cons_of_pos
  simp [found]

theorem knownFront_of_allGrow {before after : Registry}
    (grow : AllGrow before.grammars after.grammars) (overrides : List (String × Override)) :
    after.knownFront overrides = before.knownFront overrides := by
  simp only [knownFront, isSome_byName?_of_allGrow grow]

/-- A series that fails has applied the overrides in front of the first unknown
name. -/
theorem applyOverrides_knownFront {registry after : Registry}
    {overrides : List (String × Override)} {problem : GrammarError}
    (failed : registry.applyOverrides overrides = (after, some problem)) :
    registry.applyOverrides (registry.knownFront overrides) = (after, none) := by
  induction overrides generalizing registry with
  | nil => cases failed
  | cons entry rest ih =>
      rcases entry with ⟨name, extra⟩
      rw [applyOverrides] at failed
      cases found : registry.byName? name with
      | none =>
          rw [override_eq_error found] at failed
          cases failed
          rw [knownFront_cons_of_unknown found, applyOverrides]
      | some grammar =>
          rcases override_eq_ok found extra with ⟨left, right, splitEq, overridden⟩
          rw [overridden] at failed
          have grow : AllGrow registry.grammars (left ++ grammar.extend extra :: right) := by
            rw [splitEq]
            exact allGrow_extend left right grammar extra
          have frontEq : knownFront ⟨left ++ grammar.extend extra :: right⟩ rest =
              registry.knownFront rest := knownFront_of_allGrow grow rest
          rw [knownFront_cons found, applyOverrides, overridden, ← frontEq]
          exact ih failed

/-- A series changes nothing exactly if each override in front of the first unknown
name adds nothing to the grammar it finds. -/
theorem applyOverrides_eq_self_iff (registry : Registry) (overrides : List (String × Override)) :
    (registry.applyOverrides overrides).1 = registry ↔
      ∀ entry ∈ registry.knownFront overrides,
        ∀ grammar ∈ registry.byName? entry.1, grammar.extend entry.2 = grammar := by
  induction overrides generalizing registry with
  | nil => simp [applyOverrides, knownFront]
  | cons entry rest ih =>
      rcases entry with ⟨name, extra⟩
      rw [applyOverrides]
      cases found : registry.byName? name with
      | none =>
          rw [override_eq_error found, knownFront_cons_of_unknown found]
          simp
      | some grammar =>
          rcases registry with ⟨grammars⟩
          rcases override_eq_ok found extra with ⟨left, right, rfl, overridden⟩
          rw [overridden, knownFront_cons found, List.forall_mem_cons]
          simp only [found, Option.mem_some_iff, forall_eq']
          constructor
          · -- What has grown back into the start has not changed on the way.
            intro unchanged
            have grow := allGrow_extend left right grammar extra
            have growBack := allGrow_applyOverrides ⟨left ++ grammar.extend extra :: right⟩ rest
            rw [unchanged] at growBack
            have same := grow.antisymm growBack
            rw [← same] at unchanged
            exact ⟨(List.cons.inj (List.append_cancel_left same)).1.symm, (ih _).mp unchanged⟩
          · rintro ⟨same, restUnchanged⟩
            rw [same]
            exact (ih _).mpr restUnchanged

/-- A series of overrides that fails leaves the registry with the overrides in front of
the first unknown name applied.  That is the registry as it was exactly if each of them
adds nothing to the grammar it finds. -/
theorem applyOverrides_of_unknown {registry after : Registry}
    {overrides : List (String × Override)} {name : String}
    (failed : registry.applyOverrides overrides = (after, some (.unknown name))) :
    registry.applyOverrides (registry.knownFront overrides) = (after, none) ∧
      (after = registry ↔
        ∀ entry ∈ registry.knownFront overrides,
          ∀ grammar ∈ registry.byName? entry.1, grammar.extend entry.2 = grammar) := by
  have unchanged := registry.applyOverrides_eq_self_iff overrides
  rw [failed] at unchanged
  exact ⟨applyOverrides_knownFront failed, unchanged⟩

/-- A type that the grammar lists already is added before an unknown name comes. -/
theorem applyOverrides_of_unknown_listed :
    let registry : Registry := ⟨[{ Grammar.base with name := "c", types := .ofList ["size_t"] }]⟩
    let outcome := registry.applyOverrides
      [("C", { types := ["size_t"] }), ("cobol", {}), ("c", { types := ["word"] })]
    outcome.2 = some (.unknown "cobol") ∧ outcome.1 = registry := by
  intro registry outcome
  have problem : outcome.2 = some (.unknown "cobol") := by decide
  have failed : outcome = (outcome.1, some (.unknown "cobol")) := Prod.ext rfl problem
  exact ⟨problem, (applyOverrides_of_unknown failed).2.mpr (by decide)⟩

/-- An extension is added before an unknown name comes, and is still handled when the
series has failed. -/
theorem applyOverrides_half_applied :
    let outcome := builtin.applyOverrides [("c", { extensions := ["ino"] }), ("cobol", {})]
    outcome.2 = some (.unknown "cobol") ∧ outcome.1 ≠ builtin := by
  intro outcome
  refine ⟨by decide, ?_⟩
  intro unchanged
  have handled : (outcome.1.forExtension? "ino").map Grammar.name = some "c" := by decide
  rw [unchanged] at handled
  have unhandled : (builtin.forExtension? "ino").map Grammar.name = none := by decide
  cases handled.symm.trans unhandled

end Highlight.Registry
