import Highlight.Files
import Highlight.Format
import Highlight.Theme.Json

/-!
# Theme files

Loading and saving themes, and all that can go wrong with themes.
-/

namespace Highlight

/-- What can go wrong with themes and colours. -/
inductive ThemeError where
  | invalidColor (text : String)
  | unknownTheme (name : String)
  | inaccessible (path : String) (cause : FileError)
  | malformed
  deriving DecidableEq

namespace ThemeError

/-- The wording of the error.  A malformed file is reported without detail. -/
def message : ThemeError → String
  | invalidColor text => "Invalid color '" ++ text ++ "': expected #rrggbb or #rgb"
  | unknownTheme name => "Unknown theme: " ++ name
  | inaccessible path cause =>
      "Failed to access theme file " ++ path ++ ": " ++ cause.message
  | malformed => "Theme parse error"

end ThemeError

namespace Color

/-- Reads a colour, or says which text is none. -/
def ofText (text : String) : Except ThemeError Color :=
  match ofText? text with
  | some color => .ok color
  | none => .error (.invalidColor text)

end Color

namespace Theme

/-- The built-in theme with a given name. -/
def ofName (name : String) : Except ThemeError Theme :=
  match ofName? name with
  | some theme => .ok theme
  | none => .error (.unknownTheme name)

section

variable (format : Format Json Json)

/-- The text of a theme file in a format. -/
def printAs (theme : Theme) : String :=
  format.print theme.toJson

/-- Reads the text of a theme file in a format. -/
def parseAs (text : String) : Except ThemeError Theme :=
  match (format.parse? text).bind ofJson? with
  | some theme => .ok theme
  | none => .error .malformed

/-- Loads a theme file in a format. -/
def loadAs (files : Files) (path : String) : Except ThemeError Theme :=
  match files.readText path with
  | .ok text => parseAs format text
  | .error cause => .error (.inaccessible path cause)

/-- Saves a theme file in a format and makes the directories above it. -/
def saveAs (theme : Theme) (files : Files) (path : String) : Except ThemeError Files :=
  (files.save path (theme.printAs format)).mapError (.inaccessible path)

end

/-- The text of a theme file. -/
def toText (theme : Theme) : String :=
  theme.printAs Json.format

/-- Reads the text of a theme file. -/
def parse (text : String) : Except ThemeError Theme :=
  parseAs Json.format text

/-- Loads a theme file. -/
def load (files : Files) (path : String) : Except ThemeError Theme :=
  loadAs Json.format files path

/-- Saves a theme file and makes the directories above it. -/
def save (theme : Theme) (files : Files) (path : String) : Except ThemeError Files :=
  theme.saveAs Json.format files path

end Theme

end Highlight
