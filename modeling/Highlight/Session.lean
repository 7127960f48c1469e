import Highlight.Cache.Basic
import Highlight.Config.File
import Highlight.Registry
import Highlight.Theme.File

/-!
# Sessions

A session bundles the grammars, the theme and the rendering settings that are
in use, and renders texts and files with them.
-/

namespace Highlight

/-- What can go wrong in a session. -/
inductive SessionError where
  | config (cause : ConfigError)
  | grammar (cause : GrammarError)
  | theme (cause : ThemeError)
  | render (cause : SpanError)
  deriving DecidableEq

namespace SessionError

/-- The wording of the error. -/
def message : SessionError → String
  | config cause => "Config error: " ++ cause.message
  | grammar cause => "Grammar error: " ++ cause.message
  | theme cause => "Theme error: " ++ cause.message
  | render cause => "Render error: " ++ cause.message

end SessionError

/-- What can go wrong with rendering a file. -/
inductive RenderFileError where
  | unreadable (path : String) (cause : FileError)
  | unrenderable (path : String) (cause : SessionError)
  deriving DecidableEq

namespace RenderFileError

/-- The wording of the error. -/
def message : RenderFileError → String
  | unreadable path cause => "Failed to read " ++ path ++ ": " ++ cause.message
  | unrenderable path cause => "Failed to render " ++ path ++ ": " ++ cause.message

end RenderFileError

/-- The grammars, the theme and the rendering settings in use. -/
structure Session where
  grammars : Registry
  theme : Theme
  render : RenderConfig

namespace Session

/-- Built-in grammars, the dark theme and the default settings. -/
def initial : Session where
  grammars := .builtin
  theme := .dark
  render := {}

/-- Loads the grammar files of some directories, one after the other. -/
def loadDirectories (files : Files) (registry : Registry) :
    List String → Except GrammarError Registry
  | [] => .ok registry
  | directory :: rest => do
      let (extended, _) ← registry.loadDirectory files directory
      loadDirectories files extended rest

/-- The grammars that settings ask for.  Directories are loaded before the
overrides are applied, so overrides may extend what was loaded. -/
def grammarsOf (files : Files) (config : Config) : Except GrammarError Registry := do
  let loaded ← loadDirectories files .builtin config.grammarDirectories
  match loaded.applyOverrides config.languages.entries with
  | (extended, none) => .ok extended
  | (_, some problem) => .error problem

/-- The theme that settings ask for. -/
def themeOf (files : Files) (choice : ThemeConfig) : Except ThemeError Theme :=
  match choice.path with
  | some path => Theme.load files path
  | none => Theme.ofName choice.name

/-- The session that settings ask for. -/
def ofConfig (files : Files) (config : Config) : Except SessionError Session := do
  let grammars ← (grammarsOf files config).mapError .grammar
  let theme ← (themeOf files config.theme).mapError .theme
  return { grammars, theme, render := config.render }

/-- The session that the settings file at a path asks for. -/
def ofFile (files : Files) (path : String) : Except SessionError Session := do
  ofConfig files (← (Config.load files path).mapError .config)

/-- The session that the settings of the default location ask for. -/
def ofDefaultFile (files : Files) (userDirectory : String) : Except SessionError Session := do
  ofConfig files (← (Config.loadDefault files userDirectory).mapError .config)

/-- The lexer for a name.  The names of plain text come before any grammar. -/
def lexer (session : Session) (name : String) : Except SessionError Lexer :=
  if Language.ofName? name = some .plainText then .ok .plain
  else
    match session.grammars.byName? name with
    | some grammar => .ok (.table grammar)
    | none => .error (.grammar (.unknown name))

/-- The cache for a document that is edited. -/
def cache (session : Session) (name : String) : Except SessionError TokenCache := do
  return .new (← session.lexer name)

/-- The tokens of a text. -/
def tokenize (session : Session) (source name : String) : Except SessionError (List Token) := do
  return (← session.lexer name).tokenize (Utf8.bytes source)

/-- Renders the text under some tokens in the format of the settings. -/
def renderTokens (session : Session) (source : String) (tokens : List Token) :
    Except SessionError String :=
  (match session.render.format with
    | .html => session.render.html.render source tokens session.theme
    | .ansi => session.render.ansi.render source tokens session.theme).mapError .render

/-- Renders a text. -/
def renderText (session : Session) (source name : String) : Except SessionError String := do
  session.renderTokens source (← session.tokenize source name)

/-- The style sheet for HTML output with classes. -/
def stylesheet (session : Session) : String :=
  session.render.html.stylesheet session.theme

/-- The grammar for a path; without one the file is plain text. -/
def grammarForPath? (session : Session) (path : String) : Option Grammar :=
  session.grammars.forPath? path

/-- Renders a file.  Broken characters are replaced. -/
def renderFile (session : Session) (files : Files) (path : String) :
    Except RenderFileError String := do
  let bytes ← (files.read path).mapError (.unreadable path)
  let source := Utf8.decodeLossy bytes
  let lexer := ((session.grammarForPath? path).map Lexer.table).getD .plain
  (session.renderTokens source (lexer.tokenize (Utf8.bytes source))).mapError (.unrenderable path)

end Session

end Highlight
