import Highlight.Ordered

/-!
# Sets of words

A grammar lists the words of each class.  Only membership matters, so a set
keeps its words in increasing order and is determined by them.
-/

namespace Highlight

/-- A finite set of words, kept in strictly increasing order. -/
structure WordSet where
  words : List String
  increasing : Ordered.Increasing id words
  deriving DecidableEq

namespace WordSet

/-- The set without words. -/
def empty : WordSet :=
  ⟨[], List.Pairwise.nil⟩

/-- Adds a word. -/
def insert (set : WordSet) (word : String) : WordSet :=
  ⟨Ordered.insert id word set.words, Ordered.increasing_insert set.increasing⟩

/-- Takes a word out. -/
def erase (set : WordSet) (word : String) : WordSet :=
  ⟨set.words.filter (· != word), set.increasing.filter _⟩

/-- Adds every word of a list. -/
def insertMany (set : WordSet) (words : List String) : WordSet :=
  words.foldl insert set

/-- The set of the words of a list. -/
def ofList (words : List String) : WordSet :=
  empty.insertMany words

/-- Whether a word is in the set. -/
def contains (set : WordSet) (word : String) : Bool :=
  set.words.contains word

/-- The number of words. -/
def size (set : WordSet) : Nat :=
  set.words.length

/-- Whether there is no word. -/
def isEmpty (set : WordSet) : Bool :=
  set.words.isEmpty

@[simp]
theorem contains_empty (word : String) : empty.contains word = false := by
  simp [contains, empty]

@[simp]
theorem contains_insert (set : WordSet) (word other : String) :
    (set.insert word).contains other = (other == word || set.contains other) := by
  rw [Bool.eq_iff_iff]
  simp only [contains, insert, List.contains_iff_mem, Ordered.mem_insert_iff set.increasing,
    Bool.or_eq_true, beq_iff_eq]
  by_cases same : other = word <;> simp [same]

@[simp]
theorem contains_erase (set : WordSet) (word other : String) :
    (set.erase word).contains other = (other != word && set.contains other) := by
  rw [Bool.eq_iff_iff]
  simp [contains, erase, and_comm]

@[simp]
theorem contains_insertMany (set : WordSet) (words : List String) (other : String) :
    (set.insertMany words).contains other = (words.contains other || set.contains other) := by
  induction words generalizing set with
  | nil => simp [insertMany]
  | cons word words ih =>
      rw [insertMany, List.foldl_cons, ← insertMany, ih]
      rw [Bool.eq_iff_iff]
      simp [or_left_comm, or_assoc]

end WordSet

end Highlight
