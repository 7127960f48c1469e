/-!
# Paths

A path is a text whose components are divided by slashes.  Empty components
and `.` name nothing and are skipped.  The file name is the last component
unless that is `..`; its extension is what follows its last dot, provided the
dot is not its first character.
-/

namespace Highlight.Path

/-- Cuts a list of characters at every slash. -/
def splitSlashes : List Char → List (List Char)
  | [] => [[]]
  | char :: rest =>
      if char = '/' then [] :: splitSlashes rest
      else
        match splitSlashes rest with
        | [] => [[char]]
        | first :: others => (char :: first) :: others

/-- The parts of a path between its slashes, as they are written. -/
def parts (path : String) : List String :=
  (splitSlashes path.toList).map String.ofList

/-- Whether a part of a path leads anywhere. -/
def isComponent (part : String) : Bool :=
  part != "" && part != "."

/-- The components of a path: the parts that lead somewhere. -/
def components (path : String) : List String :=
  (parts path).filter isComponent

/-- The text of a path through its last component but one. -/
def parent (path : String) : String :=
  let skipIdle (reversed : List String) := reversed.dropWhile (!isComponent ·)
  String.intercalate "/" (skipIdle ((skipIdle (parts path).reverse).drop 1)).reverse

/-- The last component, if it is a name. -/
def fileName? (path : String) : Option String :=
  (components path).getLast?.filter (· != "..")

/-- What follows the last dot of a file name, if something precedes the dot. -/
def extensionOf? (name : String) : Option String :=
  let ending := name.toList.reverse.takeWhile (· != '.')
  let stem := (name.toList.reverse.dropWhile (· != '.')).drop 1
  if stem.isEmpty then none else some (String.ofList ending.reverse)

/-- The extension of a path, without its dot. -/
def extension? (path : String) : Option String :=
  (fileName? path).bind extensionOf?

/-- The path of an entry in a directory. -/
def join (directory name : String) : String :=
  if directory.isEmpty || directory.endsWith "/" then directory ++ name
  else directory ++ "/" ++ name

end Highlight.Path
