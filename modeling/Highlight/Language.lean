import Highlight.Path
import Highlight.Text.Ascii

/-!
# Languages

The languages with a built-in treatment.  Each has a short name, which its
grammar bears, a display name and the file extensions it claims.
-/

namespace Highlight

/-- A language with a built-in treatment; plain text has no grammar. -/
inductive Language where
  | plainText
  | c
  | cpp
  deriving DecidableEq

namespace Language

/-- Every language, in declaration order. -/
def all : List Language :=
  [plainText, c, cpp]

/-- The short name, which is also the name of the grammar. -/
def id : Language → String
  | plainText => "text"
  | c => "c"
  | cpp => "cpp"

/-- The name to show. -/
def displayName : Language → String
  | plainText => "Plain Text"
  | c => "C"
  | cpp => "C++"

/-- The extensions claimed, in small letters and without the dot. -/
def extensions : Language → List String
  | plainText => []
  | c => ["c", "h"]
  | cpp => ["cpp", "cc", "cxx", "c++", "hpp", "hh", "hxx", "h++", "ipp", "tpp"]

/-- The language that claims an extension, in either case; plain text if none
does. -/
def ofExtension (extension : String) : Language :=
  ([c, cpp].find? (·.extensions.contains (Ascii.lower extension))).getD plainText

/-- The language of a path, by its extension. -/
def ofPath (path : String) : Language :=
  ((Path.extension? path).map ofExtension).getD plainText

/-- The names, in small letters, under which a language can be asked for. -/
def names : Language → List String
  | plainText => ["text", "plain", "plaintext"]
  | c => ["c"]
  | cpp => ["cpp", "c++", "cxx"]

/-- The language with a given name, in either case. -/
def ofName? (name : String) : Option Language :=
  all.find? (·.names.contains (Ascii.lower name))

end Language

end Highlight
