import Highlight.Path
import Highlight.Text.Utf8

/-!
# A tree of files

Themes, grammars and settings live in files.  This file models the part of a
file system they need as a value: a directory tree that is read, listed and
written to, with the errors that a real one gives.  Paths are followed from the
base of the tree.  The directories above the base, and the one that a slash at
the start of a path leads to, hold nothing unless something is written there.
-/

namespace Highlight

/-- Why a file cannot be used. -/
inductive FileError where
  | notFound
  | alreadyExists
  | notDirectory
  | isDirectory
  | nameTooLong
  | nulInName
  | notText
  deriving DecidableEq

namespace FileError

/-- The wording of the error. -/
def message : FileError → String
  | notFound => "No such file or directory (os error 2)"
  | alreadyExists => "File exists (os error 17)"
  | notDirectory => "Not a directory (os error 20)"
  | isDirectory => "Is a directory (os error 21)"
  | nameTooLong => "File name too long (os error 36)"
  | nulInName => "file name contained an unexpected NUL byte"
  | notText => "stream did not contain valid UTF-8"

end FileError

/-- What a name in a directory stands for. -/
inductive Entry where
  | file (content : Bytes)
  | directory
  deriving DecidableEq

/-- The components that lead to an entry from the base.  Only the first ones can
be `..`, which lead above the base; a slash in the first place leads to the root
of everything instead. -/
abbrev Place := List String

namespace Place

/-- The directory from which files are looked for. -/
def base : Place := []

/-- The root of everything. -/
def root : Place := ["/"]

/-- Where a path starts. -/
def start (path : String) : Place :=
  if path.startsWith "/" then root else base

/-- Whether a place is the base or above it. -/
def isAbove (place : Place) : Bool :=
  place.all (· == "..")

/-- Whether a directory stands at a place whatever the tree holds. -/
def isFixed (place : Place) : Bool :=
  place == root || isAbove place

/-- The directory that a place lies in. -/
def parent (place : Place) : Place :=
  if place = root then root
  else if isAbove place then place ++ [".."]
  else place.dropLast

end Place

/-- A directory tree, as the entries around its base. -/
structure Files where
  entries : List (Place × Entry)

namespace Files

/-- The tree with nothing in it. -/
def empty : Files :=
  ⟨[]⟩

/-- What stands at a place. -/
def at? (files : Files) (place : Place) : Option Entry :=
  if Place.isFixed place then some .directory else files.entries.lookup place

/-- Puts an entry at a place. -/
def put (files : Files) (place : Place) (entry : Entry) : Files :=
  if Place.isFixed place then files
  else ⟨(place, entry) :: files.entries.filter fun other => other.1 != place⟩

/-- The names in a directory, in increasing order. -/
def names (files : Files) (place : Place) : List String :=
  (files.entries.filterMap fun (other, _) =>
    if other.dropLast = place then other.getLast? else none).mergeSort (· ≤ ·)

/-- The greatest number of bytes in a name. -/
def nameLimit : Nat := 255

/-- The number of bytes that a path stays below. -/
def pathLimit : Nat := 4096

/-- Refuses a path that is not looked up at all. -/
def checkPath (path : String) : Except FileError Unit :=
  if path.toList.contains '\x00' then .error .nulInName
  else if pathLimit ≤ path.utf8ByteSize then .error .nameTooLong
  else .ok ()

/-- Refuses a name that no entry can have. -/
def checkName (name : String) : Except FileError Unit :=
  if nameLimit < name.utf8ByteSize then .error .nameTooLong else .ok ()

/-- Goes on from a place.  Each component needs a directory to start from. -/
def follow (files : Files) : Place → List String → Except FileError Place
  | place, [] => .ok place
  | place, component :: rest =>
      match files.at? place with
      | none => .error .notFound
      | some (.file _) => .error .notDirectory
      | some .directory =>
          if component = "" ∨ component = "." then follow files place rest
          else if component = ".." then follow files (Place.parent place) rest
          else do
            checkName component
            follow files (place ++ [component]) rest

/-- The place that a path leads to, whether or not anything stands there. -/
def resolve (files : Files) (path : String) : Except FileError Place := do
  checkPath path
  if path.isEmpty then .error .notFound
  else files.follow (.start path) (Path.parts path)

/-- What stands where a path leads. -/
def find (files : Files) (path : String) : Except FileError Entry := do
  match files.at? (← files.resolve path) with
  | some entry => .ok entry
  | none => .error .notFound

/-- Whether a path leads to something. -/
def exists? (files : Files) (path : String) : Bool :=
  (files.find path).isOk

/-- The bytes of a file. -/
def read (files : Files) (path : String) : Except FileError Bytes := do
  match ← files.find path with
  | .file content => .ok content
  | .directory => .error .isDirectory

/-- The text of a file. -/
def readText (files : Files) (path : String) : Except FileError String := do
  match Utf8.decode? (← files.read path) with
  | some text => .ok text
  | none => .error .notText

/-- The names in the directory that a path leads to, in increasing order. -/
def list (files : Files) (path : String) : Except FileError (List String) := do
  let place ← files.resolve path
  match files.at? place with
  | none => .error .notFound
  | some (.file _) => .error .notDirectory
  | some .directory => .ok (files.names place)

/-- Makes the directories that some components name one after the other.  The
last one is tried first, so as long as nothing had to be made (`made` is false)
a file in the way of a later one is no directory.  Once a directory had to be
made, each is tried in turn, and a file in its way exists already. -/
def makeDirectories (files : Files) :
    (made : Bool) → Place → List String → Except FileError Files
  | _, _, [] => .ok files
  | made, place, component :: rest =>
      if component = ".." then makeDirectories files made (Place.parent place) rest
      else do
        checkName component
        let next := place ++ [component]
        match files.at? next with
        | some .directory => makeDirectories files made next rest
        | some (.file _) => .error (if made ∨ rest.isEmpty then .alreadyExists else .notDirectory)
        | none => makeDirectories (files.put next .directory) true next rest

/-- Makes the directories above a path. -/
def makeParents (files : Files) (path : String) : Except FileError Files := do
  checkPath (Path.parent path)
  files.makeDirectories false (.start path) (Path.components path).dropLast

/-- Writes a file into a directory that exists. -/
def write (files : Files) (path : String) (content : Bytes) : Except FileError Files := do
  checkPath path
  if path.isEmpty then .error .notFound
  else
    let parts := Path.parts path
    let named := (parts.reverse.dropWhile (·.isEmpty)).reverse
    let name := named.getLast?.getD "."
    let parent ← files.follow (.start path) named.dropLast
    match files.at? parent with
    | none => .error .notFound
    | some (.file _) => .error .notDirectory
    | some .directory =>
        if name = "." ∨ name = ".." ∨ named.length < parts.length then .error .isDirectory
        else
          checkName name
          match files.at? (parent ++ [name]) with
          | some .directory => .error .isDirectory
          | _ => .ok (files.put (parent ++ [name]) (.file content))

/-- Writes a text file and makes the directories above it. -/
def save (files : Files) (path : String) (text : String) : Except FileError Files := do
  (← files.makeParents path).write path (Utf8.bytes text)

/-- Adds an entry and the directories above it.  Nothing is added where
something else is in the way. -/
def add (files : Files) (path : String) (entry : Entry) : Files :=
  (match entry with
    | .file content => do (← files.makeParents path).write path content
    | .directory =>
        files.makeDirectories false (.start path) (Path.components path)).toOption.getD files

end Files

end Highlight
