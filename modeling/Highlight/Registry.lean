import Highlight.Grammar.Builtin
import Highlight.Grammar.File

/-!
# The registry of grammars

Grammars are kept in the order of their registration, and looked up from the
latest on, so a later one shadows an earlier one with the same extension.  A
name is looked up in either case, and the aliases of the built-in languages
stand for their short names.
-/

namespace Highlight

/-- The grammars at hand, in the order of their registration. -/
structure Registry where
  grammars : List Grammar

namespace Registry

/-- The registry without grammars. -/
def empty : Registry :=
  ⟨[]⟩

/-- The registry of the built-in grammars. -/
def builtin : Registry :=
  ⟨Language.all.filterMap Grammar.builtin?⟩

/-- The names of the grammars, in the order of their registration. -/
def names (registry : Registry) : List String :=
  registry.grammars.map Grammar.name

/-- The name under which an alias of a built-in language is registered; any
other name stands for itself. -/
def canonicalName (name : String) : String :=
  ((Language.ofName? name).map Language.id).getD name

/-- Whether a grammar answers to a name. -/
def answersTo (name : String) (grammar : Grammar) : Bool :=
  Ascii.sameLetters grammar.name (canonicalName name)

/-- The latest grammar that answers to a name. -/
def byName? (registry : Registry) (name : String) : Option Grammar :=
  registry.grammars.reverse.find? (answersTo name)

/-- The latest grammar that handles an extension. -/
def forExtension? (registry : Registry) (extension : String) : Option Grammar :=
  registry.grammars.reverse.find? (·.handles extension)

/-- The grammar for a path, by its extension. -/
def forPath? (registry : Registry) (path : String) : Option Grammar :=
  (Path.extension? path).bind registry.forExtension?

/-- Adds a valid grammar at the end, in place of one with the same name. -/
def register (registry : Registry) (grammar : Grammar) : Except GrammarError Registry := do
  let valid ← grammar.validate
  return ⟨registry.grammars.filter (·.name != valid.name) ++ [valid]⟩

/-! ## Overrides -/

/-- Changes the last element of a list that passes a test. -/
def changeLast {α : Type} (test : α → Bool) (change : α → α) : List α → List α
  | [] => []
  | first :: rest =>
      if rest.any test then first :: changeLast test change rest
      else if test first then change first :: rest
      else first :: rest

/-- Extends the grammar that answers to a name. -/
def override (registry : Registry) (name : String) (extra : Override) :
    Except GrammarError Registry :=
  if registry.grammars.any (answersTo name) then
    .ok ⟨changeLast (answersTo name) (·.extend extra) registry.grammars⟩
  else .error (.unknown name)

/-- Applies overrides one after the other, up to the first that names no
grammar.  What was applied before it stays. -/
def applyOverrides (registry : Registry) :
    List (String × Override) → Registry × Option GrammarError
  | [] => (registry, none)
  | (name, extra) :: rest =>
      match registry.override name extra with
      | .ok changed => changed.applyOverrides rest
      | .error problem => (registry, some problem)

/-! ## Directories -/

/-- Loads the grammar files among some names of a directory.  A file that cannot
be used is skipped.  Also gives the number of grammars loaded. -/
def loadNames (registry : Registry) (files : Files) (directory : String) :
    List String → Registry × Nat
  | [] => (registry, 0)
  | name :: rest =>
      match (Grammar.load files (Path.join directory name)).bind registry.register with
      | .ok extended =>
          let (final, count) := loadNames extended files directory rest
          (final, count + 1)
      | .error _ => loadNames registry files directory rest

/-- Loads every grammar file of a directory, in the order of their names. -/
def loadDirectory (registry : Registry) (files : Files) (directory : String) :
    Except GrammarError (Registry × Nat) :=
  match files.list directory with
  | .error cause => .error (.unreadable directory cause)
  | .ok found =>
      .ok (registry.loadNames files directory
        (found.filter fun name => Path.extensionOf? name == some "toml"))

end Registry

end Highlight
