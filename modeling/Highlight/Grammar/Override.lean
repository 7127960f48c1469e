import Highlight.Grammar.Basic

/-!
# Overrides

Additions to a grammar: further extensions and words.  Words that are there
already stay, and an extension the grammar handles already is not added again.
-/

namespace Highlight

/-- Additions to a grammar. -/
structure Override where
  extensions : List String := []
  keywords : List String := []
  control : List String := []
  types : List String := []
  constants : List String := []
  nullLiterals : List String := []
  deriving DecidableEq

namespace Override

/-- Whether nothing is added. -/
def isEmpty (extra : Override) : Bool :=
  extra.extensions.isEmpty && extra.keywords.isEmpty && extra.control.isEmpty
    && extra.types.isEmpty && extra.constants.isEmpty && extra.nullLiterals.isEmpty

end Override

namespace Grammar

/-- Adds an extension unless it is handled already. -/
def addExtension (grammar : Grammar) (extension : String) : Grammar :=
  if grammar.handles extension then grammar
  else { grammar with extensions := grammar.extensions ++ [extension] }

/-- The grammar with the additions of an override. -/
def extend (grammar : Grammar) (extra : Override) : Grammar :=
  { extra.extensions.foldl addExtension grammar with
    keywords := grammar.keywords.insertMany extra.keywords
    control := grammar.control.insertMany extra.control
    types := grammar.types.insertMany extra.types
    constants := grammar.constants.insertMany extra.constants
    nullLiterals := grammar.nullLiterals.insertMany extra.nullLiterals }

end Grammar

end Highlight
