import BatchMachine.Path

/-!
# Files

A small file tree. Every file and directory has a location, the list of names that lead to it
from the working directory, and paths are texts that lead to locations name by name. What is
printed belongs to the tree, since a program may also reach the standard output by a path.

* `Files.resolve`: the location that a path leads to.
* `Files.read`, `Files.create`, `Files.write`, `Files.makeDirectory`, `Files.createDirectories`:
  what programs do with paths; each refuses with the reason that an operating system gives.
* `Files.append`, `Files.print`: more text for an open file and for the standard output.
-/

namespace BatchMachine

/-- The reasons why an operation on files fails. -/
inductive FileError where
  /-- Nothing stands at the path, or a directory on the way is missing. -/
  | notFound
  /-- Something stands where a directory is to be made. -/
  | alreadyExists
  /-- A file stands where a directory is needed. -/
  | notDirectory
  /-- A directory stands where a file is needed. -/
  | isDirectory
  /-- A name or a path has too many bytes. -/
  | nameTooLong
  /-- A path has a null character, which ends a path for the system. -/
  | nullInPath
  /-- There is no space for more data. -/
  | noSpace
  /-- The data are no text. -/
  | notText
  /-- The receiver takes no more data. -/
  | writeRefused
  /-- The receiver does not pass data on. -/
  | flushRefused
  deriving DecidableEq

/-- The text of a file error. -/
def FileError.message : FileError → String
  | notFound => "No such file or directory (os error 2)"
  | alreadyExists => "File exists (os error 17)"
  | notDirectory => "Not a directory (os error 20)"
  | isDirectory => "Is a directory (os error 21)"
  | nameTooLong => "File name too long (os error 36)"
  | nullInPath => "file name contained an unexpected NUL byte"
  | noSpace => "No space left on device (os error 28)"
  | notText => "stream did not contain valid UTF-8"
  | writeRefused => "write refused"
  | flushRefused => "flush refused"

/-- What stands at a `Location`. -/
inductive Entry where
  /-- A directory. -/
  | directory
  /-- A file that holds the text `content`. -/
  | text (content : String)
  /-- A file that holds something other than text. -/
  | bytes
  /-- A device that has no space for data. -/
  | full
  /-- A device that drops its data and gives none. -/
  | void
  /-- The standard output. -/
  | output
  deriving DecidableEq

/-- A file tree: what stands at which location, and what has been printed. -/
structure Files where
  /-- The entries by location, with at most one that counts for each. -/
  entries : List (Location × Entry)
  /-- What has gone to the standard output. -/
  printed : String
  deriving DecidableEq

namespace Files

/-- The working directory with nothing in it, on a system that has nothing else. -/
def empty : Files := ⟨[], ""⟩

/-- The directories in the root directory of a system. -/
def systemDirectories : List String :=
  ["bin", "dev", "etc", "home", "lib", "opt", "proc", "root", "sys", "tmp", "usr", "var"]

/-- The devices of a system. Nothing comes from the standard input, and what is written to the
standard error is not kept. -/
def systemDevices : List (String × Entry) :=
  [("full", .full), ("null", .void), ("stderr", .void), ("stdin", .void), ("stdout", .output)]

/-- The location of the standard input. -/
def standardInput : Location := [Path.rootName, "dev", "stdin"]

/-- An empty working directory on a system with its usual directories and devices. -/
def system : Files :=
  ⟨(systemDirectories.map fun name => ([Path.rootName, name], .directory)) ++
    systemDevices.map fun (name, entry) => ([Path.rootName, "dev", name], entry), ""⟩

/-- `loc` is a directory that is always there: the root, the working directory or one above. -/
def isFixed (loc : Location) : Bool :=
  loc == [Path.rootName] || loc.all (· == "..")

/-- What stands at `loc`, if something does. -/
def entry? (files : Files) (loc : Location) : Option Entry :=
  if isFixed loc then some .directory else files.entries.lookup loc

/-- Put `entry` at `loc`, in place of the one that stands there. -/
def put (files : Files) (loc : Location) (entry : Entry) : Files :=
  let entries :=
    if (files.entries.lookup loc).isSome then
      files.entries.map fun (l, e) => if l = loc then (l, entry) else (l, e)
    else files.entries ++ [(loc, entry)]
  { files with entries }

/-! ## Looking up -/

/-- The bytes that a name may have. -/
def nameLimit : Nat := 255

/-- The bytes that a path may have. -/
def pathLimit : Nat := 4095

/-- `path` is a path that the system takes, or the reason why it is none. -/
def checkPath (path : String) : Except FileError Unit :=
  if path.toList.contains '\x00' then .error .nullInPath
  else if path = "" then .error .notFound
  else if path.utf8ByteSize > pathLimit then .error .nameTooLong
  else .ok ()

/-- `name` is a name that a directory may hold, or the reason why it is none. -/
def checkName (name : String) : Except FileError Unit :=
  if name.utf8ByteSize > nameLimit then .error .nameTooLong else .ok ()

/-- The location that `name` leads to from `loc`. -/
def descend (loc : Location) (name : String) : Location :=
  if name = "" ∨ name = "." then loc
  else if name = ".." then
    if loc = [Path.rootName] then loc
    else if isFixed loc then loc ++ [".."]
    else loc.dropLast
  else loc ++ [name]

/-- `loc` is a directory, or the reason why it is none. -/
def directoryAt (files : Files) (loc : Location) : Except FileError Unit :=
  match files.entry? loc with
  | some .directory => .ok ()
  | some _ => .error .notDirectory
  | none => .error .notFound

/-- Follow names from `loc`. Every name must be looked up in a directory. -/
def walk (files : Files) (loc : Location) : List String → Except FileError Location
  | [] => .ok loc
  | name :: names => do
    files.directoryAt loc
    checkName name
    files.walk (descend loc name) names

/-- The location that `path` leads to. Something need not stand there yet. -/
def resolve (files : Files) (path : String) : Except FileError Location := do
  checkPath path
  files.walk (Path.origin path) (Path.names path)

/-- The directory of the last name of `path`, and that name. Slashes at the end do not count, and
the root directory has no name. -/
def resolveLast (files : Files) (path : String) :
    Except FileError (Option (Location × String)) := do
  checkPath path
  match Path.lastName? path with
  | none => return none
  | some (before, last) =>
    let loc ← files.walk (Path.origin path) before
    files.directoryAt loc
    return some (loc, last)

/-- `path` leads to a directory. -/
def isDirectory (files : Files) (path : String) : Bool :=
  match files.resolve path with
  | .ok loc => files.entry? loc = some .directory
  | .error _ => false

/-! ## Reading and writing -/

/-- The text of the file at `path`. -/
def read (files : Files) (path : String) : Except FileError String := do
  let loc ← files.resolve path
  match files.entry? loc with
  | none => .error .notFound
  | some .directory => .error .isDirectory
  | some (.text content) => .ok content
  | some .void | some .output => .ok ""
  | some .bytes | some .full => .error .notText

/-- Make an empty file at `path`, or empty the file that stands there. The answer names its
location. A path that ends in a slash can only be a directory. -/
def create (files : Files) (path : String) : Except FileError (Files × Location) := do
  match ← files.resolveLast path with
  | none => .error .isDirectory
  | some (loc, last) =>
    if Path.endsInSlash path then throw .isDirectory
    checkName last
    let target := descend loc last
    match files.entry? target with
    | some .directory => .error .isDirectory
    | some .full | some .void | some .output => .ok (files, target)
    | some (.text _) | some .bytes | none => .ok (files.put target (.text ""), target)

/-- Print the text `more` to the standard output. -/
def print (files : Files) (more : String) : Files :=
  { files with printed := files.printed ++ more }

/-- Add the text `more` at the end of the file at `loc`. What holds no text and is not the standard
output stays as it is. -/
def append (files : Files) (loc : Location) (more : String) : Files :=
  match files.entry? loc with
  | some (.text content) => files.put loc (.text (content ++ more))
  | some .output => files.print more
  | _ => files

/-- Replace the file at `path` by one that holds `content`. -/
def write (files : Files) (path content : String) : Except FileError Files := do
  let (files, loc) ← files.create path
  if files.entry? loc = some .full ∧ content ≠ "" then throw .noSpace
  return files.append loc content

/-! ## Directories -/

/-- Make a directory at `path`. -/
def makeDirectory (files : Files) (path : String) : Except FileError Files := do
  match ← files.resolveLast path with
  | none => .error .alreadyExists
  | some (loc, last) =>
    if !Path.isStep last || last = ".." then throw .alreadyExists
    checkName last
    let target := descend loc last
    match files.entry? target with
    | some _ => .error .alreadyExists
    | none => .ok (files.put target .directory)

/-- Make a directory at `path`, or find one there. -/
def ensureDirectory (files : Files) (path : String) : Except FileError Files :=
  match files.makeDirectory path with
  | .ok files => .ok files
  | .error e => if files.isDirectory path then .ok files else .error e

/-- Make the directory at the first path. If there is nothing to make it in, make the others
before, each in the next. What has been made stays, whatever happens then. -/
def ensureAll (files : Files) : List String → Except FileError Unit × Files
  | [] => (.ok (), files)
  | path :: above =>
    match files.ensureDirectory path with
    | .ok files => (.ok (), files)
    | .error .notFound =>
      match files.ensureAll above with
      | (.error e, files) => (.error e, files)
      | (.ok (), files) =>
        match files.ensureDirectory path with
        | .ok files => (.ok (), files)
        | .error e => (.error e, files)
    | .error e => (.error e, files)

/-- Make the directory at `path` and those above it, as far as they are missing. The empty path asks
for nothing. -/
def createDirectories (files : Files) (path : String) : Except FileError Unit × Files :=
  if path = "" then (.ok (), files) else files.ensureAll (path :: Path.ancestors path)

/-! ## Contents -/

/-- `loc` lies outside of the working directory. -/
def isOutside (loc : Location) : Bool :=
  loc.head? == some Path.rootName || loc.head? == some ".."

/-- The text files below `loc` in the working directory, by their path from there. -/
def textsBelow (files : Files) (loc : Location) : List (String × String) :=
  files.entries.filterMap fun (l, e) =>
    match e with
    | .text content =>
      if loc.isPrefixOf l && !isOutside l then
        some ("/".intercalate (l.drop loc.length), content)
      else none
    | _ => none

end Files

end BatchMachine
