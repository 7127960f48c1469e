import Highlight.Proofs.Registry.Override
import Mathlib.Data.List.TakeWhile

/-!
# The order of overrides

Overrides come from a map, and nothing is said about the order in which its entries
are taken.  The order does not matter: it decides neither whether a series succeeds
nor what the grammars are afterwards, except for how their extensions are spelled.  Of
two extensions that differ in the case of their letters only, the one that comes first
stays.

`Registry.applyOverrides_eq` says what a series does: its entries up to the first
unknown name are applied by `Registry.extendNamed`, one after the other.  Names are
never changed, so every entry finds its grammar in the place where it would have found
it at the start.  Two entries therefore commute up to `Grammar.Agrees`, and an entry
that has been applied adds nothing when it comes again.
-/

namespace Highlight

namespace WordSet

variable {left right : WordSet}

theorem eq_of_contains (same : ∀ word, left.contains word = right.contains word) :
    left = right := by
  apply Within.antisymm
  · intro word listed
    rwa [← same word]
  · intro word listed
    rwa [same word]

theorem insertMany_comm (set : WordSet) (first second : List String) :
    (set.insertMany first).insertMany second = (set.insertMany second).insertMany first := by
  apply eq_of_contains
  intro word
  simp only [contains_insertMany]
  exact Bool.or_left_comm _ _ _

theorem insertMany_eq_self_iff {set : WordSet} {words : List String} :
    set.insertMany words = set ↔ ∀ word ∈ words, set.contains word = true := by
  constructor
  · intro same word member
    rw [← same, contains_insertMany, List.contains_iff_mem.mpr member, Bool.true_or]
  · intro listed
    apply eq_of_contains
    intro word
    rw [contains_insertMany, Bool.or_eq_right_iff_imp]
    intro member
    exact listed word (List.contains_iff_mem.mp member)

end WordSet

namespace Grammar

/-! ## Extensions in either case -/

theorem handles_congr (grammar : Grammar) {left right : String}
    (same : Ascii.sameLetters left right = true) :
    grammar.handles left = grammar.handles right := by
  simp only [Ascii.sameLetters, beq_iff_eq] at same
  simp only [handles, Ascii.sameLetters, same]

theorem handles_addExtension (grammar : Grammar) (extension other : String) :
    (grammar.addExtension extension).handles other =
      (grammar.handles other || Ascii.sameLetters extension other) := by
  unfold addExtension
  split
  · rename_i handled
    symm
    rw [Bool.or_eq_left_iff_imp]
    intro same
    rwa [← grammar.handles_congr same]
  · simp [handles]

theorem handles_foldl_addExtension (grammar : Grammar) (extensions : List String)
    (other : String) :
    (extensions.foldl addExtension grammar).handles other =
      (grammar.handles other || extensions.any (Ascii.sameLetters · other)) := by
  induction extensions generalizing grammar with
  | nil => simp
  | cons extension extensions ih =>
      rw [List.foldl_cons, ih, handles_addExtension, List.any_cons, Bool.or_assoc]

/-- An extended grammar handles the extensions of both, in either case. -/
theorem handles_extend (grammar : Grammar) (extra : Override) (other : String) :
    (grammar.extend extra).handles other =
      (grammar.handles other || extra.extensions.any (Ascii.sameLetters · other)) :=
  grammar.handles_foldl_addExtension extra.extensions other

/-- An override gives a grammar new extensions and new words, and nothing else. -/
theorem exists_extend_eq (grammar : Grammar) (extra : Override) :
    ∃ extensions, grammar.extend extra =
      { grammar with
        extensions
        keywords := grammar.keywords.insertMany extra.keywords
        control := grammar.control.insertMany extra.control
        types := grammar.types.insertMany extra.types
        constants := grammar.constants.insertMany extra.constants
        nullLiterals := grammar.nullLiterals.insertMany extra.nullLiterals } := by
  rcases grammar.grows_extend extra with
    ⟨⟨name, lineComment, blockComment, operators, stringPrefixes, preprocessor, rawStrings,
      digitSeparators⟩, _⟩
  refine ⟨(grammar.extend extra).extensions, ?_⟩
  rw [← name, ← lineComment, ← blockComment, ← operators, ← stringPrefixes, ← preprocessor,
    ← rawStrings, ← digitSeparators]
  rfl

theorem foldl_addExtension_eq_self {grammar : Grammar} {extensions : List String}
    (handled : ∀ extension ∈ extensions, grammar.handles extension = true) :
    extensions.foldl addExtension grammar = grammar := by
  induction extensions with
  | nil => rfl
  | cons extension extensions ih =>
      rcases List.forall_mem_cons.mp handled with ⟨first, rest⟩
      rw [List.foldl_cons, addExtension, if_pos first, ih rest]

/-- An override adds nothing to a grammar that has all its extensions and words. -/
theorem extend_eq_self_iff {grammar : Grammar} {extra : Override} :
    grammar.extend extra = grammar ↔
      (∀ extension ∈ extra.extensions, grammar.handles extension = true) ∧
        (∀ word ∈ extra.keywords, grammar.keywords.contains word = true) ∧
        (∀ word ∈ extra.control, grammar.control.contains word = true) ∧
        (∀ word ∈ extra.types, grammar.types.contains word = true) ∧
        (∀ word ∈ extra.constants, grammar.constants.contains word = true) ∧
        ∀ word ∈ extra.nullLiterals, grammar.nullLiterals.contains word = true := by
  simp only [← WordSet.insertMany_eq_self_iff]
  constructor
  · intro same
    refine ⟨?_, congrArg keywords same, congrArg control same, congrArg types same,
      congrArg constants same, congrArg nullLiterals same⟩
    intro extension member
    rw [← same, handles_extend, Bool.or_eq_true, List.any_eq_true]
    exact Or.inr ⟨extension, member, beq_self_eq_true _⟩
  · rintro ⟨handled, keywords, control, types, constants, nullLiterals⟩
    rw [extend, foldl_addExtension_eq_self handled, keywords, control, types, constants,
      nullLiterals]

/-! ## Grammars up to the spelling of extensions -/

/-- Two grammars that differ in nothing but how and in which order they spell the same
extensions. -/
structure Agrees (left right : Grammar) : Prop where
  others : { left with extensions := right.extensions } = right
  handles : ∀ extension, left.handles extension = right.handles extension

namespace Agrees

variable {left middle right : Grammar}

theorem refl (grammar : Grammar) : grammar.Agrees grammar where
  others := rfl
  handles _ := rfl

theorem trans (first : left.Agrees middle) (second : middle.Agrees right) :
    left.Agrees right where
  others := by
    rw [← second.others, ← first.others]
  handles extension := (first.handles extension).trans (second.handles extension)

theorem name (agrees : left.Agrees right) : left.name = right.name := by
  rw [← agrees.others]

protected theorem extend (agrees : left.Agrees right) (extra : Override) :
    (left.extend extra).Agrees (right.extend extra) where
  others := by
    rcases left.exists_extend_eq extra with ⟨_, leftEq⟩
    rcases right.exists_extend_eq extra with ⟨_, rightEq⟩
    rw [leftEq, rightEq, ← agrees.others]
  handles extension := by
    rw [handles_extend, handles_extend, agrees.handles]

end Agrees

/-- Two overrides can be applied in either order. -/
theorem agrees_extend_comm (grammar : Grammar) (first second : Override) :
    ((grammar.extend first).extend second).Agrees ((grammar.extend second).extend first) where
  others := by
    rcases grammar.exists_extend_eq first with ⟨_, firstEq⟩
    rcases grammar.exists_extend_eq second with ⟨_, secondEq⟩
    rcases (grammar.extend first).exists_extend_eq second with ⟨_, firstSecondEq⟩
    rcases (grammar.extend second).exists_extend_eq first with ⟨_, secondFirstEq⟩
    rw [firstSecondEq, secondFirstEq, firstEq, secondEq]
    simp only [WordSet.insertMany_comm _ first.keywords, WordSet.insertMany_comm _ first.control,
      WordSet.insertMany_comm _ first.types, WordSet.insertMany_comm _ first.constants,
      WordSet.insertMany_comm _ first.nullLiterals]
  handles extension := by
    simp only [handles_extend]
    exact Bool.or_right_comm _ _ _

/-- An override that adds nothing adds nothing to what the grammar grows into. -/
theorem Grows.extend_eq_self {left right : Grammar} (grows : left.Grows right)
    {extra : Override} (unchanged : left.extend extra = left) : right.extend extra = right := by
  rw [extend_eq_self_iff] at unchanged ⊢
  rcases unchanged with ⟨handled, keywords, control, types, constants, nullLiterals⟩
  refine ⟨?_, fun word member => grows.keywords word (keywords word member),
    fun word member => grows.control word (control word member),
    fun word member => grows.types word (types word member),
    fun word member => grows.constants word (constants word member),
    fun word member => grows.nullLiterals word (nullLiterals word member)⟩
  intro extension member
  rcases List.any_eq_true.mp (handled extension member) with ⟨listed, listedMember, same⟩
  exact List.any_eq_true.mpr ⟨listed, grows.extensions.subset listedMember, same⟩

/-- An override adds nothing when it comes again. -/
theorem extend_extend_self (grammar : Grammar) (extra : Override) :
    (grammar.extend extra).extend extra = grammar.extend extra := by
  rw [extend_eq_self_iff]
  have listed (set : WordSet) (words : List String) :
      ∀ word ∈ words, (set.insertMany words).contains word = true := by
    intro word member
    rw [WordSet.contains_insertMany, List.contains_iff_mem.mpr member, Bool.true_or]
  refine ⟨?_, listed _ _, listed _ _, listed _ _, listed _ _, listed _ _⟩
  intro extension member
  rw [handles_extend, Bool.or_eq_true, List.any_eq_true]
  exact Or.inr ⟨extension, member, beq_self_eq_true _⟩

end Grammar

namespace Registry

/-! ## One entry -/

/-- Extends the grammar that answers to the name of an entry, if there is one. -/
def extendNamed (grammars : List Grammar) (entry : String × Override) : List Grammar :=
  changeLast (answersTo entry.1) (·.extend entry.2) grammars

theorem extendNamed_nil (entry : String × Override) : extendNamed [] entry = [] :=
  rfl

/-- Whether a name finds a grammar that others follow. -/
def finds (later : List Grammar) (name : String) (grammar : Grammar) : Bool :=
  answersTo name grammar && !later.any (answersTo name)

/-- What an entry makes of a grammar that others follow. -/
def extendBefore (later : List Grammar) (entry : String × Override) (grammar : Grammar) :
    Grammar :=
  if finds later entry.1 grammar then grammar.extend entry.2 else grammar

theorem changeLast_eq_self {α : Type} {test : α → Bool} (change : α → α) {items : List α}
    (absent : items.any test = false) : changeLast test change items = items := by
  cases items with
  | nil => rfl
  | cons first rest =>
      rw [List.any_cons, Bool.or_eq_false_iff] at absent
      simp [changeLast, absent.1, absent.2]

/-- An entry treats each grammar by itself, looking only at the names that follow. -/
theorem extendNamed_cons (grammar : Grammar) (later : List Grammar) (entry : String × Override) :
    extendNamed (grammar :: later) entry =
      extendBefore later entry grammar :: extendNamed later entry := by
  unfold extendNamed extendBefore finds
  rw [changeLast]
  cases found : later.any (answersTo entry.1) with
  | true => simp
  | false =>
      rw [changeLast_eq_self _ found]
      cases answersTo entry.1 grammar <;> rfl

theorem grows_extendBefore (later : List Grammar) (entry : String × Override)
    (grammar : Grammar) : grammar.Grows (extendBefore later entry grammar) := by
  unfold extendBefore
  split
  · exact grammar.grows_extend entry.2
  · exact .refl grammar

theorem allGrow_extendNamed (grammars : List Grammar) (entry : String × Override) :
    AllGrow grammars (extendNamed grammars entry) := by
  induction grammars with
  | nil => exact .nil
  | cons grammar later ih =>
      rw [extendNamed_cons]
      exact .cons (grows_extendBefore later entry grammar) ih

/-- What a name finds depends on the names of the grammars only. -/
theorem finds_congr {left right : List Grammar} {leftFirst rightFirst : Grammar}
    (names : left.map Grammar.name = right.map Grammar.name)
    (firstName : leftFirst.name = rightFirst.name) (name : String) :
    finds left name leftFirst = finds right name rightFirst := by
  rw [finds, finds, any_answersTo_congr names, answersTo, answersTo, firstName]

theorem extendBefore_extendNamed (later : List Grammar) (first second : String × Override)
    (grammar : Grammar) :
    extendBefore (extendNamed later first) second grammar = extendBefore later second grammar := by
  rw [extendBefore, extendBefore, finds_congr (allGrow_extendNamed later first).map_name rfl]

theorem finds_extend (later : List Grammar) (name : String) (grammar : Grammar)
    (extra : Override) : finds later name (grammar.extend extra) = finds later name grammar :=
  finds_congr rfl (grammar.grows_extend extra).name name

/-! ## Two entries -/

/-- The grammars in the same places agree. -/
abbrev AllAgree : (left right : List Grammar) → Prop :=
  List.Forall₂ Grammar.Agrees

namespace AllAgree

variable {left middle right : List Grammar}

theorem refl (grammars : List Grammar) : AllAgree grammars grammars := by
  apply List.forall₂_same.mpr
  intro grammar _
  exact .refl grammar

theorem trans (first : AllAgree left middle) (second : AllAgree middle right) :
    AllAgree left right := by
  induction first generalizing right with
  | nil => exact second
  | cons agrees _ ih =>
      cases second with
      | cons agreesOn rest => exact .cons (agrees.trans agreesOn) (ih rest)

theorem map_name (agree : AllAgree left right) :
    left.map Grammar.name = right.map Grammar.name := by
  induction agree with
  | nil => rfl
  | cons agrees _ ih => rw [List.map_cons, List.map_cons, agrees.name, ih]

theorem extendNamed (agree : AllAgree left right) (entry : String × Override) :
    AllAgree (extendNamed left entry) (Registry.extendNamed right entry) := by
  induction agree with
  | nil => exact .nil
  | cons agrees rest ih =>
      rw [extendNamed_cons, extendNamed_cons]
      apply List.Forall₂.cons _ ih
      unfold extendBefore
      rw [finds_congr (map_name rest) agrees.name]
      split
      · exact agrees.extend entry.2
      · exact agrees

end AllAgree

/-- Two entries can be applied to a grammar in either order. -/
theorem agrees_extendBefore_comm (later : List Grammar) (first second : String × Override)
    (grammar : Grammar) :
    (extendBefore later second (extendBefore later first grammar)).Agrees
      (extendBefore later first (extendBefore later second grammar)) := by
  unfold extendBefore
  cases firstFinds : finds later first.1 grammar with
  | true =>
      cases secondFinds : finds later second.1 grammar with
      | true =>
          simp only [if_true, finds_extend, firstFinds, secondFinds]
          exact grammar.agrees_extend_comm first.2 second.2
      | false =>
          simp only [if_true, Bool.false_eq_true, if_false, finds_extend, firstFinds, secondFinds]
          exact .refl _
  | false =>
      cases secondFinds : finds later second.1 grammar with
      | true =>
          simp only [if_true, Bool.false_eq_true, if_false, finds_extend, firstFinds, secondFinds]
          exact .refl _
      | false =>
          simp only [Bool.false_eq_true, if_false, firstFinds, secondFinds]
          exact .refl _

/-- Two entries can be applied in either order. -/
theorem allAgree_extendNamed_comm (grammars : List Grammar) (first second : String × Override) :
    AllAgree (extendNamed (extendNamed grammars first) second)
      (extendNamed (extendNamed grammars second) first) := by
  induction grammars with
  | nil => exact .nil
  | cons grammar later ih =>
      simp only [extendNamed_cons, extendBefore_extendNamed]
      exact .cons (agrees_extendBefore_comm later first second grammar) ih

/-! ## The same entry again -/

/-- An entry that has been applied adds nothing. -/
theorem extendNamed_extendNamed_self (grammars : List Grammar) (entry : String × Override) :
    extendNamed (extendNamed grammars entry) entry = extendNamed grammars entry := by
  induction grammars with
  | nil => rfl
  | cons grammar later ih =>
      have again : extendBefore later entry (extendBefore later entry grammar) =
          extendBefore later entry grammar := by
        unfold extendBefore
        split
        · rw [finds_extend, if_pos (by assumption), Grammar.extend_extend_self]
        · rfl
      rw [extendNamed_cons, extendNamed_cons, extendBefore_extendNamed, again, ih]

/-- An entry that adds nothing adds nothing after another one either. -/
theorem extendNamed_eq_self_of_extendNamed {grammars : List Grammar}
    {entry : String × Override} (unchanged : extendNamed grammars entry = grammars)
    (other : String × Override) :
    extendNamed (extendNamed grammars other) entry = extendNamed grammars other := by
  induction grammars with
  | nil => rw [extendNamed_nil, extendNamed_nil]
  | cons grammar later ih =>
      rw [extendNamed_cons] at unchanged
      rcases List.cons.inj unchanged with ⟨firstUnchanged, laterUnchanged⟩
      have grows := grows_extendBefore later other grammar
      rw [extendNamed_cons, extendNamed_cons, extendBefore_extendNamed, ih laterUnchanged,
        extendBefore, finds_congr rfl grows.name]
      split
      · rename_i found
        rw [extendBefore, if_pos found] at firstUnchanged
        rw [grows.extend_eq_self firstUnchanged]
      · rfl

theorem extendNamed_foldl_eq_self {grammars : List Grammar} {entry : String × Override}
    (unchanged : extendNamed grammars entry = grammars) (overrides : List (String × Override)) :
    extendNamed (overrides.foldl extendNamed grammars) entry =
      overrides.foldl extendNamed grammars := by
  induction overrides generalizing grammars with
  | nil => exact unchanged
  | cons other rest ih => exact ih (extendNamed_eq_self_of_extendNamed unchanged other)

/-- After some entries none of them adds anything. -/
theorem extendNamed_foldl_of_mem (grammars : List Grammar) {overrides : List (String × Override)}
    {entry : String × Override} (member : entry ∈ overrides) :
    extendNamed (overrides.foldl extendNamed grammars) entry =
      overrides.foldl extendNamed grammars := by
  induction overrides generalizing grammars with
  | nil => cases member
  | cons first rest ih =>
      rw [List.foldl_cons]
      rcases List.mem_cons.mp member with rfl | member
      · exact extendNamed_foldl_eq_self (extendNamed_extendNamed_self grammars entry) rest
      · exact ih _ member

theorem foldl_extendNamed_eq_self {grammars : List Grammar} {overrides : List (String × Override)}
    (unchanged : ∀ entry ∈ overrides, extendNamed grammars entry = grammars) :
    overrides.foldl extendNamed grammars = grammars := by
  induction overrides with
  | nil => rfl
  | cons first rest ih =>
      rcases List.forall_mem_cons.mp unchanged with ⟨firstUnchanged, restUnchanged⟩
      rw [List.foldl_cons, firstUnchanged, ih restUnchanged]

/-! ## Series -/

theorem AllAgree.foldl {left right : List Grammar} (agree : AllAgree left right)
    (overrides : List (String × Override)) :
    AllAgree (overrides.foldl Registry.extendNamed left)
      (overrides.foldl Registry.extendNamed right) := by
  induction overrides generalizing left right with
  | nil => exact agree
  | cons entry rest ih => exact ih (agree.extendNamed entry)

/-- Entries in any order give grammars that agree. -/
theorem allAgree_foldl_of_perm {first second : List (String × Override)}
    (order : first.Perm second) (grammars : List Grammar) :
    AllAgree (first.foldl extendNamed grammars) (second.foldl extendNamed grammars) := by
  induction order generalizing grammars with
  | nil => exact .refl grammars
  | cons entry _ ih => exact ih (extendNamed grammars entry)
  | swap one other rest =>
      simp only [List.foldl_cons]
      exact AllAgree.foldl (allAgree_extendNamed_comm grammars other one) rest
  | trans _ _ firstIh secondIh => exact (firstIh grammars).trans (secondIh grammars)

theorem override_eq (registry : Registry) (name : String) (extra : Override) :
    registry.override name extra =
      if (registry.byName? name).isSome then
        .ok ⟨extendNamed registry.grammars (name, extra)⟩
      else .error (.unknown name) := by
  rw [override, isSome_byName?]
  rfl

/-- The error of a series, which names the first entry without a grammar. -/
def firstProblem? (registry : Registry) (overrides : List (String × Override)) :
    Option GrammarError :=
  (overrides.find? fun entry => (registry.byName? entry.1).isNone).map (.unknown ·.1)

theorem firstProblem?_of_allGrow {before after : Registry}
    (grow : AllGrow before.grammars after.grammars) (overrides : List (String × Override)) :
    after.firstProblem? overrides = before.firstProblem? overrides := by
  simp only [firstProblem?, ← Option.not_isSome, isSome_byName?_of_allGrow grow]

/-- A series applies the entries up to the first unknown name, one after the other. -/
theorem applyOverrides_eq (registry : Registry) (overrides : List (String × Override)) :
    registry.applyOverrides overrides =
      (⟨(registry.knownFront overrides).foldl extendNamed registry.grammars⟩,
        registry.firstProblem? overrides) := by
  induction overrides generalizing registry with
  | nil => rfl
  | cons entry rest ih =>
      rcases entry with ⟨name, extra⟩
      rw [applyOverrides, override_eq]
      cases found : registry.byName? name with
      | none =>
          rw [knownFront_cons_of_unknown found]
          simp [firstProblem?, found]
      | some grammar =>
          have grow := allGrow_extendNamed registry.grammars (name, extra)
          have frontEq : knownFront ⟨extendNamed registry.grammars (name, extra)⟩ rest =
              registry.knownFront rest := knownFront_of_allGrow grow rest
          have problemEq : firstProblem? ⟨extendNamed registry.grammars (name, extra)⟩ rest =
              registry.firstProblem? rest := firstProblem?_of_allGrow grow rest
          have laterProblem : registry.firstProblem? ((name, extra) :: rest) =
              registry.firstProblem? rest := by
            simp [firstProblem?, found]
          rw [knownFront_cons found, List.foldl_cons, laterProblem, ← frontEq, ← problemEq]
          exact ih _

/-- A series succeeds exactly if every entry names a grammar. -/
theorem applyOverrides_eq_none_iff {registry : Registry} {overrides : List (String × Override)} :
    (registry.applyOverrides overrides).2 = none ↔
      ∀ entry ∈ overrides, (registry.byName? entry.1).isSome = true := by
  rw [applyOverrides_eq, firstProblem?, Option.map_eq_none_iff, List.find?_eq_none]
  simp only [Option.isNone_iff_eq_none, Option.isSome_iff_ne_none, ne_eq]

theorem grammars_applyOverrides_of_known {registry : Registry}
    {overrides : List (String × Override)}
    (known : ∀ entry ∈ overrides, (registry.byName? entry.1).isSome = true) :
    (registry.applyOverrides overrides).1.grammars =
      overrides.foldl extendNamed registry.grammars := by
  rw [applyOverrides_eq, knownFront, List.takeWhile_eq_self_iff.mpr known]

/-- A series that comes again does nothing, and fails again if it has failed. -/
theorem applyOverrides_applyOverrides (registry : Registry)
    (overrides : List (String × Override)) :
    (registry.applyOverrides overrides).1.applyOverrides overrides =
      registry.applyOverrides overrides := by
  have grow := registry.allGrow_applyOverrides overrides
  rw [applyOverrides_eq _ overrides, knownFront_of_allGrow grow, firstProblem?_of_allGrow grow,
    applyOverrides_eq registry]
  apply congrArg (Prod.mk · _)
  apply congrArg Registry.mk
  apply foldl_extendNamed_eq_self
  intro entry member
  exact extendNamed_foldl_of_mem registry.grammars member

/-- The order of a series of overrides does not matter.  It succeeds in any order
exactly if every entry names a grammar.  Then the grammars have the same names in the
same places, and differ in nothing but the spelling of their extensions.  The same
series a second time changes nothing. -/
theorem applyOverrides_perm (registry : Registry) {first second : List (String × Override)}
    (order : first.Perm second) :
    ((registry.applyOverrides first).2 = none ↔
        ∀ entry ∈ first, (registry.byName? entry.1).isSome = true) ∧
      ((registry.applyOverrides first).2 = none ↔ (registry.applyOverrides second).2 = none) ∧
      ((registry.applyOverrides first).2 = none →
        (registry.applyOverrides first).1.names = (registry.applyOverrides second).1.names ∧
        AllAgree (registry.applyOverrides first).1.grammars
          (registry.applyOverrides second).1.grammars) ∧
      (registry.applyOverrides first).1.applyOverrides first = registry.applyOverrides first := by
  refine ⟨applyOverrides_eq_none_iff, ?_, ?_, registry.applyOverrides_applyOverrides first⟩
  · rw [applyOverrides_eq_none_iff, applyOverrides_eq_none_iff]
    simp only [order.mem_iff]
  · intro succeeds
    have known := applyOverrides_eq_none_iff.mp succeeds
    have agree : AllAgree (registry.applyOverrides first).1.grammars
        (registry.applyOverrides second).1.grammars := by
      rw [grammars_applyOverrides_of_known known, grammars_applyOverrides_of_known]
      · exact allAgree_foldl_of_perm order registry.grammars
      · intro entry member
        exact known entry (order.mem_iff.mpr member)
    exact ⟨agree.map_name, agree⟩

/-- Two aliases of one grammar add an extension in different letters.  The one that comes
first is kept, and both spellings are handled. -/
theorem applyOverrides_perm_aliases :
    let registry : Registry :=
      ⟨[{ Grammar.base with name := "cpp" }, { Grammar.base with name := "c" }]⟩
    let first : List (String × Override) :=
      [("C++", { extensions := ["ino"] }), ("cxx", { extensions := ["INO"], types := ["word"] })]
    let second := first.reverse
    (registry.applyOverrides first).2 = none ∧
      (registry.applyOverrides second).2 = none ∧
      (registry.applyOverrides first).1.grammars.map Grammar.extensions = [["ino"], []] ∧
      (registry.applyOverrides second).1.grammars.map Grammar.extensions = [["INO"], []] ∧
      AllAgree (registry.applyOverrides first).1.grammars
        (registry.applyOverrides second).1.grammars ∧
      (registry.applyOverrides first).1.applyOverrides first = registry.applyOverrides first := by
  intro registry first second
  have succeeds : (registry.applyOverrides first).2 = none := by decide
  rcases registry.applyOverrides_perm (first.reverse_perm.symm : first.Perm second) with
    ⟨_, both, agree, again⟩
  refine ⟨succeeds, both.mp succeeds, by decide, by decide, (agree succeeds).2, again⟩

end Registry

end Highlight
