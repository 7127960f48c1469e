import Highlight.Proofs.Registry.Order

/-!
# Detecting the language of a file

The language of a file is told by its extension in two ways: from the tables of the
languages, and from the extensions of the grammars at hand.  The first one looks at C
before C++ and compares small letters; the second one looks at the latest grammar first
and compares in either case.

Both ways agree as long as the grammars are those that come with the library, whatever
words are added to them.  `Grammar.claim` is all of a grammar that detection depends on,
and `map_claim_applyOverrides` says when overrides leave it alone.  Nothing is said of
grammars that are registered later: these may take an extension over.
-/

namespace Highlight

namespace Language

theorem lower_extension (language : Language) :
    ∀ extension ∈ language.extensions, Ascii.lower extension = extension := by
  cases language <;> decide

/-- Comparing an extension with those of a language in either case is looking it up in
small letters. -/
theorem any_sameLetters_extensions (language : Language) (extension : String) :
    language.extensions.any (Ascii.sameLetters · extension) =
      language.extensions.contains (Ascii.lower extension) := by
  rw [Bool.eq_iff_iff, List.any_eq_true, List.contains_iff_mem]
  constructor
  · rintro ⟨claimed, member, same⟩
    rw [Ascii.sameLetters, beq_iff_eq, language.lower_extension claimed member] at same
    rwa [← same]
  · intro member
    refine ⟨_, member, ?_⟩
    rw [Ascii.sameLetters, beq_iff_eq, language.lower_extension _ member]

/-- No extension is claimed by both languages. -/
theorem notMem_cpp_of_mem_c : ∀ extension ∈ c.extensions, extension ∉ cpp.extensions := by
  decide

theorem ofExtension_eq_c {extension : String}
    (claimed : Ascii.lower extension ∈ c.extensions) : ofExtension extension = c := by
  simp [ofExtension, claimed]

theorem ofExtension_eq_cpp {extension : String}
    (unclaimed : Ascii.lower extension ∉ c.extensions)
    (claimed : Ascii.lower extension ∈ cpp.extensions) : ofExtension extension = cpp := by
  simp [ofExtension, unclaimed, claimed]

theorem ofExtension_eq_plainText {extension : String}
    (noC : Ascii.lower extension ∉ c.extensions)
    (noCpp : Ascii.lower extension ∉ cpp.extensions) : ofExtension extension = plainText := by
  simp [ofExtension, noC, noCpp]

end Language

namespace Grammar

/-- The name of a grammar and the extensions it claims. -/
def claim (grammar : Grammar) : String × List String :=
  (grammar.name, grammar.extensions)

theorem handles_of_claim {left right : Grammar} (same : left.claim = right.claim)
    (extension : String) : left.handles extension = right.handles extension := by
  rw [handles, handles, (Prod.mk.inj same).2]

/-- An override with no extension but those that are handled leaves the claim alone. -/
theorem claim_extend {grammar : Grammar} {extra : Override}
    (handled : ∀ extension ∈ extra.extensions, grammar.handles extension = true) :
    (grammar.extend extra).claim = grammar.claim := by
  have extensionsEq : (grammar.extend extra).extensions = grammar.extensions := by
    rw [extend, foldl_addExtension_eq_self handled]
  rw [claim, claim, extensionsEq, (grammar.grows_extend extra).name]

end Grammar

namespace Registry

/-! ## Overrides without extensions -/

/-- The grammar that an entry names handles all extensions of the entry already.  That is
so if the entry has none. -/
def AddsNoExtension (registry : Registry) (entry : String × Override) : Prop :=
  ∀ grammar ∈ registry.byName? entry.1,
    ∀ extension ∈ entry.2.extensions, grammar.handles extension = true

instance (registry : Registry) (entry : String × Override) :
    Decidable (registry.AddsNoExtension entry) :=
  inferInstanceAs (Decidable (∀ grammar ∈ registry.byName? entry.1, _))

variable {before after : Registry}

/-- What a name finds depends on the claims of the grammars only. -/
theorem map_claim_byName? (same : before.grammars.map Grammar.claim =
    after.grammars.map Grammar.claim) (name : String) :
    (before.byName? name).map Grammar.claim = (after.byName? name).map Grammar.claim := by
  have lookup (registry : Registry) : (registry.byName? name).map Grammar.claim =
      (registry.grammars.map Grammar.claim).reverse.find? fun claim =>
        Ascii.sameLetters claim.1 (canonicalName name) := by
    rw [← List.map_reverse, List.find?_map]
    rfl
  rw [lookup, lookup, same]

theorem AddsNoExtension.of_map_claim {entry : String × Override}
    (bare : before.AddsNoExtension entry)
    (same : before.grammars.map Grammar.claim = after.grammars.map Grammar.claim) :
    after.AddsNoExtension entry := by
  intro grammar found extension member
  have claimEq := map_claim_byName? same entry.1
  rw [Option.mem_def.mp found, Option.map_some] at claimEq
  rcases Option.map_eq_some_iff.mp claimEq with ⟨earlier, earlierFound, earlierClaim⟩
  rw [← Grammar.handles_of_claim earlierClaim]
  exact bare earlier earlierFound extension member

theorem map_claim_extendNamed {grammars : List Grammar} {entry : String × Override}
    (bare : AddsNoExtension ⟨grammars⟩ entry) :
    (extendNamed grammars entry).map Grammar.claim = grammars.map Grammar.claim := by
  cases found : byName? ⟨grammars⟩ entry.1 with
  | none =>
      have absent : grammars.any (answersTo entry.1) = false := by
        rw [← isSome_byName? ⟨grammars⟩, found]
        rfl
      rw [extendNamed, changeLast_eq_self _ absent]
  | some grammar =>
      rcases changeLast_eq_append (·.extend entry.2) found with
        ⟨left, right, splitEq, changedEq⟩
      have claimEq := Grammar.claim_extend (bare grammar found)
      rw [extendNamed, changedEq, List.map_append, List.map_cons, claimEq, ← List.map_cons,
        ← List.map_append]
      exact congrArg (List.map Grammar.claim) splitEq.symm

theorem map_claim_foldl_extendNamed {grammars : List Grammar}
    {overrides : List (String × Override)}
    (bare : ∀ entry ∈ overrides, AddsNoExtension ⟨grammars⟩ entry) :
    (overrides.foldl extendNamed grammars).map Grammar.claim = grammars.map Grammar.claim := by
  induction overrides generalizing grammars with
  | nil => rfl
  | cons entry rest ih =>
      rcases List.forall_mem_cons.mp bare with ⟨entryBare, restBare⟩
      have entryEq := map_claim_extendNamed entryBare
      rw [List.foldl_cons, ih, entryEq]
      intro other member
      exact (restBare other member).of_map_claim entryEq.symm

/-- A series of overrides that succeeds and adds no extension leaves all claims alone. -/
theorem map_claim_applyOverrides {registry : Registry} {overrides : List (String × Override)}
    (succeeds : (registry.applyOverrides overrides).2 = none)
    (bare : ∀ entry ∈ overrides, registry.AddsNoExtension entry) :
    (registry.applyOverrides overrides).1.grammars.map Grammar.claim =
      registry.grammars.map Grammar.claim := by
  rw [grammars_applyOverrides_of_known (applyOverrides_eq_none_iff.mp succeeds)]
  exact map_claim_foldl_extendNamed bare

/-! ## Detection -/

/-- What has been found is the grammar of the language: none for plain text, and for any
other language the grammar that is found under its short name, which it bears. -/
structure Serves (registry : Registry) (language : Language) (found : Option Grammar) : Prop where
  eq_none_iff : found = none ↔ language = .plainText
  named : language ≠ .plainText →
    ∃ grammar ∈ registry.grammars, found = some grammar ∧ grammar.name = language.id ∧
      registry.byName? language.id = some grammar

/-- Both ways of detecting a language agree for every extension and every path. -/
structure Detects (registry : Registry) : Prop where
  extension : ∀ extension,
    registry.Serves (.ofExtension extension) (registry.forExtension? extension)
  path : ∀ path, registry.Serves (.ofPath path) (registry.forPath? path)

theorem serves_plainText (registry : Registry) : registry.Serves .plainText none where
  eq_none_iff := Iff.intro (fun _ => rfl) (fun _ => rfl)
  named := fun other => absurd rfl other

theorem serves_of_mem {registry : Registry} {grammar : Grammar} {language : Language}
    (notPlain : language ≠ .plainText) (member : grammar ∈ registry.grammars)
    (name : grammar.name = language.id) (found : registry.byName? language.id = some grammar) :
    registry.Serves language (some grammar) where
  eq_none_iff := by simp [notPlain]
  named := fun _ => ⟨grammar, member, rfl, name, found⟩

/-- A path is detected by its extension, or as plain text if it has none. -/
theorem Detects.of_extension {registry : Registry} (extension : ∀ extension,
    registry.Serves (.ofExtension extension) (registry.forExtension? extension)) :
    registry.Detects where
  extension := extension
  path := by
    intro path
    rw [Language.ofPath, forPath?]
    cases Path.extension? path with
    | none => exact registry.serves_plainText
    | some ending => exact extension ending

/-- A grammar that claims the extensions of a language handles them in either case. -/
theorem handles_of_extensions {grammar : Grammar} (language : Language)
    (extensions : grammar.extensions = language.extensions) (extension : String) :
    grammar.handles extension = language.extensions.contains (Ascii.lower extension) := by
  rw [Grammar.handles, extensions, language.any_sameLetters_extensions]

/-- Grammars with the claims of the built-in ones are detected as these are. -/
theorem detects_of_map_claim {registry : Registry}
    (claims : registry.grammars.map Grammar.claim = builtin.grammars.map Grammar.claim) :
    registry.Detects := by
  rcases registry with ⟨grammars⟩
  have claimsEq : grammars.map Grammar.claim =
      [Grammar.c.claim, Grammar.cpp.claim] := claims
  rcases List.map_eq_cons_iff.mp claimsEq with ⟨c, others, rfl, cClaim, othersClaim⟩
  rcases List.map_eq_singleton_iff.mp othersClaim with ⟨cpp, rfl, cppClaim⟩
  rcases Prod.mk.inj cClaim with ⟨cName, cExtensions⟩
  rcases Prod.mk.inj cppClaim with ⟨cppName, cppExtensions⟩
  have answersEq (grammar : Grammar) (name : String) :
      answersTo name grammar = Ascii.sameLetters grammar.name (canonicalName name) := rfl
  have byC : byName? ⟨[c, cpp]⟩ Language.c.id = some c := by
    have cppSilent : answersTo Language.c.id cpp = false := by
      rw [answersEq, cppName]
      decide
    have cAnswers : answersTo Language.c.id c = true := by
      rw [answersEq, cName]
      decide
    simp [byName?, cppSilent, cAnswers]
  have byCpp : byName? ⟨[c, cpp]⟩ Language.cpp.id = some cpp := by
    have cppAnswers : answersTo Language.cpp.id cpp = true := by
      rw [answersEq, cppName]
      decide
    simp [byName?, cppAnswers]
  apply Detects.of_extension
  intro extension
  have cHandles := handles_of_extensions .c cExtensions extension
  have cppHandles := handles_of_extensions .cpp cppExtensions extension
  by_cases inC : Ascii.lower extension ∈ Language.c.extensions
  · have notInCpp := Language.notMem_cpp_of_mem_c _ inC
    have found : forExtension? ⟨[c, cpp]⟩ extension = some c := by
      simp [forExtension?, cHandles, cppHandles, inC, notInCpp]
    rw [Language.ofExtension_eq_c inC, found]
    apply serves_of_mem _ _ cName byC
    · simp
    · simp
  · by_cases inCpp : Ascii.lower extension ∈ Language.cpp.extensions
    · have found : forExtension? ⟨[c, cpp]⟩ extension = some cpp := by
        simp [forExtension?, cppHandles, inCpp]
      rw [Language.ofExtension_eq_cpp inC inCpp, found]
      apply serves_of_mem _ _ cppName byCpp
      · simp
      · simp
    · have found : forExtension? ⟨[c, cpp]⟩ extension = none := by
        simp [forExtension?, cHandles, cppHandles, inC, inCpp]
      rw [Language.ofExtension_eq_plainText inC inCpp, found]
      exact serves_plainText _

/-- The built-in grammars are detected as their languages, for every extension and every
path.  They still are after any series of overrides that succeeds and adds no
extension. -/
theorem detects_applyOverrides :
    builtin.Detects ∧
      ∀ overrides, (builtin.applyOverrides overrides).2 = none →
        (∀ entry ∈ overrides, builtin.AddsNoExtension entry) →
          (builtin.applyOverrides overrides).1.Detects := by
  constructor
  · exact detects_of_map_claim rfl
  · intro overrides succeeds bare
    exact detects_of_map_claim (map_claim_applyOverrides succeeds bare)

/-- Words for both languages under aliases, and an extension that is there already. -/
theorem detects_applyOverrides_words :
    let overrides : List (String × Override) :=
      [("C++", { types := ["QString"], extensions := ["HPP"] }), ("C", { keywords := ["asm"] })]
    let after := (builtin.applyOverrides overrides).1
    (builtin.applyOverrides overrides).2 = none ∧
      (∀ entry ∈ overrides, builtin.AddsNoExtension entry) ∧
      after.Detects ∧
      (after.forExtension? "Hxx").map Grammar.name = some "cpp" ∧
      after.forPath? "notes/Überblick.HÄ" = none := by
  intro overrides after
  have succeeds : (builtin.applyOverrides overrides).2 = none := by decide
  have bare : ∀ entry ∈ overrides, builtin.AddsNoExtension entry := by decide
  have detects := detects_applyOverrides.2 overrides succeeds bare
  refine ⟨succeeds, bare, detects, ?_, ?_⟩
  · rcases (detects.extension "Hxx").named (by decide) with ⟨grammar, _, found, name, _⟩
    rw [found, Option.map_some, name]
    decide
  · exact (detects.path "notes/Überblick.HÄ").eq_none_iff.mpr (by decide)

end Registry

end Highlight
