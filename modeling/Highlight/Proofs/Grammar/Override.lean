import Highlight.Grammar.Override
import Highlight.Grammar.Validity

/-!
# What an override changes

An override adds words and extensions and leaves everything else of a grammar
alone.  `Grammar.Alike` says so of two grammars: their name, markers, operators,
prefixes and features are the same.  An extended grammar is therefore as valid as
the one before, and it classifies every word alike that the override does not
list.

`Grammar.Grows` adds that no word and no extension is lost.  It is an order: a
grammar that has grown back into itself has not changed on the way.
-/

namespace Highlight

namespace WordSet

/-- Every word of one set is in the other. -/
def Within (left right : WordSet) : Prop :=
  ∀ word, left.contains word = true → right.contains word = true

namespace Within

variable {left middle right : WordSet}

theorem refl (set : WordSet) : set.Within set :=
  fun _ listed => listed

theorem trans (first : left.Within middle) (second : middle.Within right) : left.Within right :=
  fun word listed => second word (first word listed)

/-- A set is determined by its words, since these are kept in order. -/
theorem antisymm (first : left.Within right) (second : right.Within left) : left = right := by
  rcases left with ⟨leftWords, leftIncreasing⟩
  rcases right with ⟨rightWords, rightIncreasing⟩
  have wordsEq : leftWords = rightWords := by
    apply Ordered.eq_of_mem_iff leftIncreasing rightIncreasing
    intro word
    simp only [Within, contains, List.contains_iff_mem] at first second
    exact ⟨first word, second word⟩
  subst wordsEq
  rfl

theorem insertMany (set : WordSet) (words : List String) : set.Within (set.insertMany words) := by
  intro word listed
  rw [contains_insertMany, listed, Bool.or_true]

end Within

end WordSet

namespace Override

/-- The words that an override adds, of whatever class. -/
def words (extra : Override) : List String :=
  extra.keywords ++ extra.control ++ extra.types ++ extra.constants ++ extra.nullLiterals

end Override

namespace Grammar

/-! ## What stays -/

/-- Two grammars that differ in nothing but their extensions and their words. -/
structure Alike (left right : Grammar) : Prop where
  name : right.name = left.name
  lineComment : right.lineComment = left.lineComment
  blockComment : right.blockComment = left.blockComment
  operators : right.operators = left.operators
  stringPrefixes : right.stringPrefixes = left.stringPrefixes
  preprocessor : right.preprocessor = left.preprocessor
  rawStrings : right.rawStrings = left.rawStrings
  digitSeparators : right.digitSeparators = left.digitSeparators

/-- Faults lie neither in words nor in extensions. -/
theorem Alike.fault?_eq {left right : Grammar} (alike : left.Alike right) :
    right.fault? = left.fault? := by
  unfold fault?
  rw [alike.name, alike.lineComment, alike.blockComment, alike.operators, alike.stringPrefixes]

/-- A word that an override does not list keeps its class. -/
theorem classify?_extend (grammar : Grammar) {extra : Override} {word : String}
    (unlisted : word ∉ extra.words) :
    (grammar.extend extra).classify? word = grammar.classify? word := by
  simp only [Override.words, List.mem_append, not_or] at unlisted
  rcases unlisted with ⟨⟨⟨⟨keywords, control⟩, types⟩, constants⟩, nullLiterals⟩
  simp [classify?, extend, keywords, control, types, constants, nullLiterals]

/-! ## What is added -/

/-- The second grammar has everything that the first one has, and apart from words
and extensions nothing else. -/
structure Grows (left right : Grammar) : Prop extends Alike left right where
  extensions : left.extensions <+: right.extensions
  keywords : left.keywords.Within right.keywords
  control : left.control.Within right.control
  types : left.types.Within right.types
  constants : left.constants.Within right.constants
  nullLiterals : left.nullLiterals.Within right.nullLiterals

namespace Grows

variable {left middle right : Grammar}

theorem refl (grammar : Grammar) : grammar.Grows grammar where
  name := rfl
  lineComment := rfl
  blockComment := rfl
  operators := rfl
  stringPrefixes := rfl
  preprocessor := rfl
  rawStrings := rfl
  digitSeparators := rfl
  extensions := List.prefix_refl _
  keywords := .refl _
  control := .refl _
  types := .refl _
  constants := .refl _
  nullLiterals := .refl _

theorem trans (first : left.Grows middle) (second : middle.Grows right) : left.Grows right where
  name := second.name.trans first.name
  lineComment := second.lineComment.trans first.lineComment
  blockComment := second.blockComment.trans first.blockComment
  operators := second.operators.trans first.operators
  stringPrefixes := second.stringPrefixes.trans first.stringPrefixes
  preprocessor := second.preprocessor.trans first.preprocessor
  rawStrings := second.rawStrings.trans first.rawStrings
  digitSeparators := second.digitSeparators.trans first.digitSeparators
  extensions := first.extensions.trans second.extensions
  keywords := first.keywords.trans second.keywords
  control := first.control.trans second.control
  types := first.types.trans second.types
  constants := first.constants.trans second.constants
  nullLiterals := first.nullLiterals.trans second.nullLiterals

theorem antisymm (first : left.Grows right) (second : right.Grows left) : left = right := by
  have extensions := first.extensions.eq_of_length_le second.extensions.length_le
  have keywords := first.keywords.antisymm second.keywords
  have control := first.control.antisymm second.control
  have types := first.types.antisymm second.types
  have constants := first.constants.antisymm second.constants
  have nullLiterals := first.nullLiterals.antisymm second.nullLiterals
  rcases first.toAlike with ⟨name, lineComment, blockComment, operators, stringPrefixes,
    preprocessor, rawStrings, digitSeparators⟩
  cases left
  cases right
  simp_all

end Grows

theorem grows_addExtension (grammar : Grammar) (extension : String) :
    grammar.Grows (grammar.addExtension extension) := by
  unfold addExtension
  split
  · exact .refl grammar
  · exact { Grows.refl grammar with extensions := List.prefix_append _ _ }

theorem grows_foldl_addExtension (grammar : Grammar) (extensions : List String) :
    grammar.Grows (extensions.foldl addExtension grammar) := by
  induction extensions generalizing grammar with
  | nil => exact .refl grammar
  | cons extension extensions ih =>
      exact (grammar.grows_addExtension extension).trans (ih (grammar.addExtension extension))

/-- An override takes nothing away. -/
theorem grows_extend (grammar : Grammar) (extra : Override) :
    grammar.Grows (grammar.extend extra) :=
  { grammar.grows_foldl_addExtension extra.extensions with
    keywords := .insertMany _ _
    control := .insertMany _ _
    types := .insertMany _ _
    constants := .insertMany _ _
    nullLiterals := .insertMany _ _ }

theorem grows_foldl_extend (grammar : Grammar) (extras : List Override) :
    grammar.Grows (extras.foldl extend grammar) := by
  induction extras generalizing grammar with
  | nil => exact .refl grammar
  | cons extra extras ih => exact (grammar.grows_extend extra).trans (ih (grammar.extend extra))

end Grammar

end Highlight
