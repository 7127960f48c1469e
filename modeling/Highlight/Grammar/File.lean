import Highlight.Files
import Highlight.Grammar.Toml
import Highlight.Grammar.Validity
import Highlight.Toml.Parser

/-!
# Grammar files

Loading grammars, and all that can go wrong with grammars.
-/

namespace Highlight

/-- What can go wrong with grammars. -/
inductive GrammarError where
  | unknown (name : String)
  | invalid (name : String) (fault : GrammarFault)
  | unreadable (path : String) (cause : FileError)
  | malformed
  deriving DecidableEq

namespace GrammarError

/-- The wording of the error.  A malformed file is reported without detail. -/
def message : GrammarError → String
  | unknown name => "Unknown grammar: " ++ name
  | invalid name fault => "Invalid grammar '" ++ name ++ "': " ++ fault.message
  | unreadable path cause => "Failed to read grammar file " ++ path ++ ": " ++ cause.message
  | malformed => "Parse error"

end GrammarError

namespace Grammar

/-- Lets a valid grammar through. -/
def validate (grammar : Grammar) : Except GrammarError Grammar :=
  match grammar.fault? with
  | none => .ok grammar
  | some fault => .error (.invalid grammar.name fault)

/-- Reads the text of a grammar file. -/
def parse (text : String) : Except GrammarError Grammar :=
  match (Toml.parse? text).bind ofToml? with
  | some grammar => grammar.validate
  | none => .error .malformed

/-- Loads a grammar file. -/
def load (files : Files) (path : String) : Except GrammarError Grammar :=
  match files.readText path with
  | .ok text => parse text
  | .error cause => .error (.unreadable path cause)

end Grammar

end Highlight
