/-!
# Paths

A path is a text. Read as a walk it is a list of steps from the root or from the
current directory; read by its names alone it tells its parent and its file name.
-/

namespace HeaderBinding
namespace Files

/-- Splits a text at every separator. -/
def splitAtEach (separator : Char) : List Char → List (List Char)
  | [] => [[]]
  | c :: rest =>
      if c = separator then [] :: splitAtEach separator rest
      else (splitAtEach separator rest).modifyHead (c :: ·)

def isRooted (path : String) : Bool :=
  path.toList.head? == some '/'

def endsInSlash (path : String) : Bool :=
  path.toList.getLast? == some '/'

/-- What stands between the slashes of a path, where anything does. -/
def pieces (path : String) : List String :=
  ((splitAtEach '/' path.toList).filter (· ≠ [])).map String.ofList

/-- The steps of a walk. A slash at the end wants a directory there, as a dot does. -/
def steps (path : String) : List String :=
  pieces path ++ if endsInSlash path then ["."] else []

/-- The names of a path. A dot stays where it is and is no name. -/
def names (path : String) : List String :=
  (pieces path).filter (· ≠ ".")

/-- The name of the file that a path ends in. -/
def fileName? (path : String) : Option String :=
  (names path).getLast?.filter (· ≠ "..")

/-- A file name without what follows its last dot. A dot in front starts no
extension. -/
def stem (fileName : String) : String :=
  match fileName.toList.reverse.dropWhile (· ≠ '.') with
  | '.' :: c :: front => String.ofList (c :: front).reverse
  | _ => fileName

/-!
# Paths above a path
-/

def pathOf (rooted : Bool) (names : List String) : String :=
  (if rooted then "/" else "") ++ "/".intercalate names

/-- The path of the directory that holds what a path names. -/
def parent (path : String) : String :=
  pathOf (isRooted path) (names path).dropLast

/-- The paths of the directories that given names lead to, innermost first. -/
def directoriesTo (rooted : Bool) (names : List String) : List String :=
  ((List.range names.length).map fun n => pathOf rooted (names.take (n + 1))).reverse

/-- A path with those above it, innermost first. A path without names has none. -/
def upward (path : String) : List String :=
  if names path = [] then []
  else path :: directoriesTo (isRooted path) (names path).dropLast

/-- A path continued by a file name. -/
def join (directory fileName : String) : String :=
  if directory = "" ∨ endsInSlash directory then directory ++ fileName
  else directory ++ "/" ++ fileName

end Files
end HeaderBinding
