import Highlight.Config.Toml
import Highlight.Files
import Highlight.Format

/-!
# Settings files

Loading and saving settings.  In the default location a missing file means the
default settings.
-/

namespace Highlight

/-- What can go wrong with settings. -/
inductive ConfigError where
  | inaccessible (cause : FileError)
  | malformed
  deriving DecidableEq

namespace ConfigError

/-- The wording of the error.  A malformed file is reported without detail. -/
def message : ConfigError → String
  | inaccessible cause => "IO error: " ++ cause.message
  | malformed => "Parse error"

end ConfigError

namespace Config

section

variable (format : Format Toml.Layout Toml)

/-- The text of a settings file in a format, with the overrides in a given order. -/
def printAs (config : Config) (order : List (String × Override)) : String :=
  format.print (config.layout order)

/-- Reads the text of a settings file in a format. -/
def parseAs (text : String) : Except ConfigError Config :=
  match (format.parse? text).bind ofToml? with
  | some config => .ok config
  | none => .error .malformed

/-- Loads a settings file in a format. -/
def loadAs (files : Files) (path : String) : Except ConfigError Config :=
  match files.readText path with
  | .ok text => parseAs format text
  | .error cause => .error (.inaccessible cause)

/-- Saves a settings file in a format, with the overrides in a given order, and makes the
directories above it. -/
def saveAs (config : Config) (order : List (String × Override)) (files : Files) (path : String) :
    Except ConfigError Files :=
  (files.save path (config.printAs format order)).mapError .inaccessible

end

/-- The text of a settings file with the overrides in a given order. -/
def textIn (config : Config) (order : List (String × Override)) : String :=
  config.printAs Toml.format order

/-- Reads the text of a settings file. -/
def parse (text : String) : Except ConfigError Config :=
  parseAs Toml.format text

/-- Loads a settings file. -/
def load (files : Files) (path : String) : Except ConfigError Config :=
  loadAs Toml.format files path

/-- Where settings are looked for by default, below the user's directory for
settings. -/
def defaultPath (userDirectory : String) : String :=
  Path.join (Path.join userDirectory "tinge") "config.toml"

/-- Loads the settings file of the default location; without one the settings
are the default ones. -/
def loadDefault (files : Files) (userDirectory : String) : Except ConfigError Config :=
  let path := defaultPath userDirectory
  if files.exists? path then load files path else .ok {}

/-- Saves a settings file with the overrides in a given order, and makes the directories
above it. -/
def saveIn (config : Config) (order : List (String × Override)) (files : Files) (path : String) :
    Except ConfigError Files :=
  config.saveAs Toml.format order files path

/-- Saves a settings file with the overrides in the order of their names. -/
def save (config : Config) (files : Files) (path : String) : Except ConfigError Files :=
  config.saveIn config.languages.entries files path

end Config

end Highlight
