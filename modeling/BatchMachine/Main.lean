import BatchMachine.Session

/-!
# The program

The files that a command line names are taken into a file tree, the session is carried out on the
tree, and what has changed in the tree is written back.
-/

namespace BatchMachine.Main

/-- What stands at `path` in the file system. -/
def look (path : String) : IO (Option Entry) := do
  let file := System.mkFilePath [path]
  if ← file.isDir then return some .directory
  unless ← file.pathExists do return none
  try
    match String.fromUTF8? (← IO.FS.readBinFile path) with
    | some content => return some (.text content)
    | none => return some .bytes
  catch _ => return some .bytes

/-- What stands at `loc` is in `files` from the start, or, for the standard input, since it has been
read. -/
def isTaken (files : Files) (loc : Location) : Bool :=
  if loc = Files.standardInput then files.entry? loc ≠ some .void
  else (Files.system.entry? loc).isSome

/-- Take what stands on the way from `loc` along names into `files`. -/
def takeAlong (files : Files) (loc : Location) : List String → IO Files
  | [] => return files
  | name :: names => do
    let next := Files.descend loc name
    if isTaken files next then takeAlong files next names
    else
      match ← look (Path.ofComponents next) with
      | none => takeAlong files next names
      | some entry => takeAlong (files.put next entry) next names

/-- Take what stands on the way along `path` into `files`. -/
def take (files : Files) (path : String) : IO Files :=
  takeAlong files (Path.origin path) (Path.names path)

/-- Take the names in the directory at `path` into `files`, without what the files hold. -/
def takeNames (files : Files) (path : String) : IO Files := do
  let directory := System.mkFilePath [if path.isEmpty then "." else path]
  unless ← directory.isDir do return files
  let loc := (files.resolve path).toOption.getD []
  let children ← directory.readDir
  children.foldlM (fun files child => do
    let entry := if ← child.path.isDir then Entry.directory else .bytes
    return files.put (loc ++ [child.fileName]) entry) files

/-- The file tree that the command `c` works on. -/
def gather (c : CommandLine.Command) : IO Files := do
  let files ← c.paths.foldlM take .system
  match c with
  | .run o =>
    match Session.configOf files o with
    | .error _ => return files
    | .ok config =>
      let files ← takeNames files config.outputDir
      (config.outputDir :: config.logPath :: c.paths).foldlM take files
  | _ => return files

/-- Write back what has changed from `before` to `after`. -/
def writeBack (before after : Files) : IO Unit :=
  after.entries.forM fun (loc, entry) => do
    unless before.entries.lookup loc = some entry do
      match entry with
      | .directory => IO.FS.createDirAll (Path.ofComponents loc)
      | .text content => IO.FS.writeFile (Path.ofComponents loc) content
      | .bytes | .full | .void | .output => return

end BatchMachine.Main

open BatchMachine in
/-- Carry out the command line `args`. -/
def main (args : List String) : IO UInt32 := do
  match CommandLine.parse args with
  | .command c =>
    let before ← Main.gather c
    let session := Session.carryOut before c
    Main.writeBack before session.files
    (← IO.getStdout).putStr session.output
    session.message?.forM IO.eprintln
    return .ofNat session.systemCode
  | .help =>
    (← IO.getStdout).putStr CommandLine.usage
    return 0
  | request =>
    let session := Session.ofRequest request .empty
    (← IO.getStdout).putStr session.output
    unless session.code = 0 do IO.eprint CommandLine.usage
    return .ofNat session.systemCode
