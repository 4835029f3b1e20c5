/-!
# Paths

A path is a text that leads to a file name by name, with slashes between the names.

* `Path.names`: all names of a path, one after the other.
* `Path.components`: the names that count when paths are compared.
* `Path.ancestors`: the paths above a path.
* `Path.join`: the path of a file in a directory.
-/

namespace BatchMachine

/-- The names that lead from the working directory to a file. The name of the root directory
starts a location outside of the working directory. -/
abbrev Location := List String

namespace Path

/-- The name of the root directory. No other name has a slash in it. -/
def rootName : String := "/"

/-- The names of `path`. An empty name stands for the place itself. -/
def names (path : String) : List String :=
  (path.toList.splitOn '/').map String.ofList

/-- `path` starts at the root directory. -/
def isRooted (path : String) : Bool :=
  path.toList.head? == some '/'

/-- `path` ends in a slash, so that it can only be the path of a directory. -/
def endsInSlash (path : String) : Bool :=
  path.toList.getLast? == some '/'

/-- Where the names of `path` start. -/
def origin (path : String) : Location :=
  if isRooted path then [rootName] else []

/-- `name` leads to another place than the one where it is looked up. -/
def isStep (name : String) : Bool :=
  name ≠ "" && name ≠ "."

/-- The names that count in `path`. Repeated slashes, a slash at the end and dots do not, but a dot
counts where a path starts with it. -/
def components (path : String) : List String :=
  match isRooted path, names path with
  | true, all => rootName :: all.filter isStep
  | false, "." :: rest => "." :: rest.filter isStep
  | false, all => all.filter isStep

/-- The path of `components`. -/
def ofComponents (components : List String) : String :=
  match components with
  | "/" :: rest => rootName ++ "/".intercalate rest
  | all => "/".intercalate all

/-- The paths `first` and `second` have the same components. -/
def same (first second : String) : Bool :=
  components first == components second

/-- `path` has the same components as itself. -/
theorem same_self (path : String) : same path path = true := by
  simp [same]

/-- The prefixes of a list but for the list itself and the empty one, the longest first. -/
def properPrefixes {α : Type} : List α → List (List α)
  | [] | [_] => []
  | a :: rest => (properPrefixes rest).map (a :: ·) ++ [[a]]

/-- The paths above `path`, the nearest first. The working directory, where a path starts that is
not rooted, is not among them. -/
def ancestors (path : String) : List String :=
  (properPrefixes (components path)).map ofComponents

/-- The names of `path` before its last name, and its last name. Slashes at the end do not count. -/
def lastName? (path : String) : Option (List String × String) :=
  match (names path).reverse.dropWhile (· == "") with
  | [] => none
  | last :: before => some (before.reverse, last)

/-- The path of the file `name` in `directory`. -/
def join (directory name : String) : String :=
  match directory.toList.getLast? with
  | none => name
  | some '/' => directory ++ name
  | some _ => directory ++ "/" ++ name

end Path

end BatchMachine
