import Highlight.Proofs.Grammar.Validity
import Highlight.Registry

/-!
# Finding a grammar by its name

A grammar that is registered comes last, so a lookup meets it first.  It is found
under its own name if it answers to it.  That is so for every name but the aliases
of the built-in languages: a lookup turns an alias into a short name, and a grammar
that bears the alias itself does not answer to that.
-/

namespace Highlight

namespace Language

/-- The names of languages other than their short names. -/
def aliases : List String :=
  all.flatMap fun language => language.names.filter (· != language.id)

theorem aliases_eq : aliases = ["plain", "plaintext", "c++", "cxx"] := by
  decide

/-- Among the names of a language, all but the short name are aliases. -/
theorem eq_id_iff_notMem_aliases (language : Language) :
    ∀ name ∈ language.names, name = language.id ↔ name ∉ aliases := by
  cases language <;> decide

theorem lower_id (language : Language) : Ascii.lower language.id = language.id := by
  cases language <;> decide

end Language

namespace Registry

/-! ## Registering -/

variable {registry after : Registry} {grammar : Grammar}

/-- What is registered is valid, and takes the last place; another grammar with the
same name goes. -/
theorem register_eq_ok_iff :
    registry.register grammar = .ok after ↔
      grammar.IsValid ∧
        after = ⟨registry.grammars.filter (·.name != grammar.name) ++ [grammar]⟩ := by
  unfold register
  cases validated : grammar.validate with
  | error problem =>
      have faulty : ¬ grammar.IsValid := by
        intro valid
        rw [Grammar.validate_eq_ok_iff.mpr ⟨rfl, valid⟩] at validated
        cases validated
      simp [faulty, bind, Except.bind]
  | ok checked =>
      rcases Grammar.validate_eq_ok_iff.mp validated with ⟨rfl, valid⟩
      simp [valid, bind, Except.bind, pure, Except.pure, eq_comm]

/-- The name of what is registered moves to the end, and the other names stay in
order. -/
theorem names_of_register (registered : registry.register grammar = .ok after) :
    after.names = registry.names.filter (· != grammar.name) ++ [grammar.name] := by
  rcases register_eq_ok_iff.mp registered with ⟨_, rfl⟩
  rw [names, names, List.map_append, List.filter_map]
  rfl

/-! ## Lookups -/

/-- A grammar answers to its own name unless that is an alias. -/
theorem answersTo_name_iff :
    answersTo grammar.name grammar = true ↔ Ascii.lower grammar.name ∉ Language.aliases := by
  rw [answersTo, canonicalName, Ascii.sameLetters, beq_iff_eq]
  cases found : Language.ofName? grammar.name with
  | none =>
      rw [Language.ofName?, List.find?_eq_none] at found
      simp only [Option.map_none, Option.getD_none, true_iff]
      intro listed
      rcases List.mem_flatMap.mp listed with ⟨language, member, named⟩
      apply found language member
      exact List.contains_iff_mem.mpr (List.mem_filter.mp named).1
  | some language =>
      rw [Language.ofName?] at found
      have claimed := List.find?_some found
      have named : Ascii.lower grammar.name ∈ language.names := List.contains_iff_mem.mp claimed
      rw [Option.map_some, Option.getD_some, language.lower_id]
      exact language.eq_id_iff_notMem_aliases _ named

/-- The lookup finds what was registered last, provided it answers to the name. -/
theorem byName?_eq_some_iff_of_register (registered : registry.register grammar = .ok after)
    (name : String) : after.byName? name = some grammar ↔ answersTo name grammar = true := by
  rcases register_eq_ok_iff.mp registered with ⟨_, rfl⟩
  constructor
  · intro found
    exact List.find?_some found
  · intro answers
    rw [byName?, List.reverse_append, List.reverse_singleton, List.singleton_append]
    exact List.find?_cons_of_pos answers

/-- Every valid grammar can be registered, and is then found under its name unless
the name is an alias of a built-in language. -/
theorem byName?_register_iff (registry : Registry) (accepted : grammar.validate = .ok grammar) :
    ∃ after, registry.register grammar = .ok after ∧
      (after.byName? grammar.name = some grammar ↔
        Ascii.lower grammar.name ∉ ["plain", "plaintext", "c++", "cxx"]) := by
  have valid := (Grammar.validate_eq_ok_iff.mp accepted).2
  have registered : registry.register grammar = .ok _ := register_eq_ok_iff.mpr ⟨valid, rfl⟩
  refine ⟨_, registered, ?_⟩
  rw [byName?_eq_some_iff_of_register registered, answersTo_name_iff, Language.aliases_eq]

/-- A grammar that takes the name of a built-in one, in capitals, is found instead of
it. -/
theorem byName?_register_iff_capital :
    let grammar := { Grammar.base with name := "CPP" }
    grammar.validate = .ok grammar ∧
      ∃ after, builtin.register grammar = .ok after ∧ after.byName? "CPP" = some grammar := by
  intro grammar
  have accepted : grammar.validate = .ok grammar :=
    Grammar.validate_eq_ok_iff.mpr ⟨rfl, (by decide : grammar.fault? = none)⟩
  refine ⟨accepted, ?_⟩
  obtain ⟨after, registered, found⟩ := byName?_register_iff builtin accepted
  exact ⟨after, registered, found.mpr (by decide)⟩

/-- A grammar with the name `cxx` can be registered, but under that name the built-in
grammar of C++ is found. -/
theorem byName?_register_alias :
    let grammar := { Grammar.base with name := "cxx" }
    grammar.validate = .ok grammar ∧
      ∃ after, builtin.register grammar = .ok after ∧
        after.byName? grammar.name ≠ some grammar ∧
        (after.byName? grammar.name).map Grammar.name = some "cpp" := by
  intro grammar
  have valid : grammar.IsValid := (by decide : grammar.fault? = none)
  have registered : builtin.register grammar = .ok _ := register_eq_ok_iff.mpr ⟨valid, rfl⟩
  refine ⟨Grammar.validate_eq_ok_iff.mpr ⟨rfl, valid⟩, _, registered, ?_, ?_⟩
  · rw [Ne, byName?_eq_some_iff_of_register registered]
    decide
  · decide

end Registry

end Highlight
