import Highlight.Proofs.Grammar.Builtin
import Highlight.Proofs.Registry.Override
import Mathlib.Data.List.Nodup

/-!
# What every registry keeps

Whatever is asked of a registry, its grammars have different names and are valid.
Registering checks the new grammar and takes out the one with its name.  Loading a
directory registers what its files hold, one file after the other, and skips the ones
that cannot be used.  Overrides change no name and nothing that validity looks at, so
it does not matter how many of them have been applied when they stop.
-/

namespace Highlight.Registry

/-- The grammars have different names, and all are valid. -/
structure WellFormed (registry : Registry) : Prop where
  nodup : registry.names.Nodup
  valid : ∀ grammar ∈ registry.grammars, grammar.IsValid

theorem wellFormed_empty : empty.WellFormed where
  nodup := List.nodup_nil
  valid := List.forall_mem_nil _

theorem wellFormed_builtin : builtin.WellFormed where
  nodup := by decide
  valid := by
    intro grammar member
    rcases List.mem_filterMap.mp member with ⟨language, _, built⟩
    exact (Grammar.cFamily_of_builtin? built).valid

/-- The first of some files is registered, or skipped if that cannot be done. -/
theorem loadNames_cons (registry : Registry) (files : Files) (directory name : String)
    (rest : List String) :
    registry.loadNames files directory (name :: rest) =
      match (Grammar.load files (Path.join directory name)).bind registry.register with
      | .ok extended =>
          let (final, count) := extended.loadNames files directory rest
          (final, count + 1)
      | .error _ => registry.loadNames files directory rest := by
  rfl

/-! ## One call -/

namespace WellFormed

variable {registry after : Registry}

theorem register (wellFormed : registry.WellFormed) {grammar : Grammar}
    (registered : registry.register grammar = .ok after) : after.WellFormed where
  nodup := by
    rw [names_of_register registered, List.nodup_append]
    refine ⟨wellFormed.nodup.filter _, List.nodup_singleton _, ?_⟩
    intro name kept other last
    rw [List.mem_singleton.mp last]
    exact bne_iff_ne.mp (List.mem_filter.mp kept).2
  valid := by
    rcases register_eq_ok_iff.mp registered with ⟨valid, rfl⟩
    intro other member
    rcases List.mem_append.mp member with kept | last
    · exact wellFormed.valid other (List.mem_filter.mp kept).1
    · rw [List.mem_singleton.mp last]
      exact valid

/-- Growth changes no name, and nothing that validity looks at. -/
theorem grow (wellFormed : registry.WellFormed)
    (grown : AllGrow registry.grammars after.grammars) : after.WellFormed where
  nodup := by
    rw [names, grown.map_name]
    exact wellFormed.nodup
  valid := by
    intro grammar member
    rcases grown.exists_grows_of_mem member with ⟨earlier, earlierMember, growth⟩
    exact growth.fault?_eq.trans (wellFormed.valid earlier earlierMember)

/-- Loading files registers a grammar or skips a file, one after the other. -/
theorem loadNames (wellFormed : registry.WellFormed) (files : Files) (directory : String)
    (names : List String) : (registry.loadNames files directory names).1.WellFormed := by
  induction names generalizing registry with
  | nil => exact wellFormed
  | cons name names ih =>
      rw [loadNames_cons]
      cases loaded : Grammar.load files (Path.join directory name) with
      | error problem => exact ih wellFormed
      | ok grammar =>
          rw [Except.bind]
          cases registered : registry.register grammar with
          | error problem => exact ih wellFormed
          | ok extended => exact ih (wellFormed.register registered)

theorem loadDirectory (wellFormed : registry.WellFormed) {files : Files} {directory : String}
    {count : Nat} (loaded : registry.loadDirectory files directory = .ok (after, count)) :
    after.WellFormed := by
  unfold Registry.loadDirectory at loaded
  split at loaded
  · cases loaded
  · rename_i found _
    have loadedFiles := wellFormed.loadNames files directory
      (found.filter fun name => Path.extensionOf? name == some "toml")
    rwa [Except.ok.inj loaded] at loadedFiles

end WellFormed

/-! ## Runs -/

/-- What is asked of a registry. -/
inductive Call where
  | register (grammar : Grammar)
  | loadDirectory (files : Files) (directory : String)
  | applyOverrides (overrides : List (String × Override))

/-- The registry after a call.  A grammar that is refused and a directory that cannot
be read leave it as it is; of overrides that fail, some may have been applied. -/
def perform (registry : Registry) : Call → Registry
  | .register grammar => (registry.register grammar).toOption.getD registry
  | .loadDirectory files directory =>
      ((registry.loadDirectory files directory).toOption.map Prod.fst).getD registry
  | .applyOverrides overrides => (registry.applyOverrides overrides).1

/-- The registry after some calls. -/
def performAll (registry : Registry) (calls : List Call) : Registry :=
  calls.foldl perform registry

theorem WellFormed.perform {registry : Registry} (wellFormed : registry.WellFormed)
    (call : Call) : (registry.perform call).WellFormed := by
  cases call with
  | register grammar =>
      rw [Registry.perform]
      cases registered : registry.register grammar with
      | error problem => exact wellFormed
      | ok after => exact wellFormed.register registered
  | loadDirectory files directory =>
      rw [Registry.perform]
      cases loaded : registry.loadDirectory files directory with
      | error problem => exact wellFormed
      | ok outcome =>
          rcases outcome with ⟨after, count⟩
          exact wellFormed.loadDirectory loaded
  | applyOverrides overrides => exact wellFormed.grow (registry.allGrow_applyOverrides overrides)

theorem WellFormed.performAll {registry : Registry} (wellFormed : registry.WellFormed)
    (calls : List Call) : (registry.performAll calls).WellFormed := by
  induction calls generalizing registry with
  | nil => exact wellFormed
  | cons call calls ih => exact ih (wellFormed.perform call)

/-- After any calls to the registry without grammars or to the built-in one, be they
refused or not, the names are different and every grammar is valid.  Registering a
further grammar puts its name at the end and keeps the others in order. -/
theorem performAll_wellFormed {start : Registry} (origin : start = empty ∨ start = builtin)
    (calls : List Call) :
    (start.performAll calls).names.Nodup ∧
      (∀ grammar ∈ (start.performAll calls).grammars, grammar.validate = .ok grammar) ∧
      ∀ grammar after, (start.performAll calls).register grammar = .ok after →
        after.names =
          (start.performAll calls).names.filter (· != grammar.name) ++ [grammar.name] := by
  have startWellFormed : start.WellFormed := by
    rcases origin with rfl | rfl
    · exact wellFormed_empty
    · exact wellFormed_builtin
  have wellFormed := startWellFormed.performAll calls
  refine ⟨wellFormed.nodup, ?_, ?_⟩
  · intro grammar member
    exact Grammar.validate_eq_ok_iff.mpr ⟨rfl, wellFormed.valid grammar member⟩
  · intro grammar after registered
    exact names_of_register registered

/-- A grammar without a name is refused, one is registered, overrides stop on their way,
and the empty path leads to no directory.  Then a grammar takes the name of a built-in
one. -/
theorem performAll_wellFormed_replaced :
    let calls : List Call :=
      [.register .base, .register { Grammar.base with name := "demo" },
        .applyOverrides [("Demo", { keywords := ["let"] }), ("cobol", {})],
        .loadDirectory .empty ""]
    let grammar := { Grammar.base with name := "c" }
    (builtin.performAll calls).names.Nodup ∧
      ∃ after, (builtin.performAll calls).register grammar = .ok after ∧
        after.names = ["cpp", "demo", "c"] := by
  intro calls grammar
  have wellFormed := performAll_wellFormed (Or.inr rfl) calls
  have valid : grammar.fault? = none := by decide
  have registered : (builtin.performAll calls).register grammar = .ok _ :=
    register_eq_ok_iff.mpr ⟨valid, rfl⟩
  refine ⟨wellFormed.1, _, registered, (wellFormed.2.2 _ _ registered).trans ?_⟩
  decide

end Highlight.Registry
