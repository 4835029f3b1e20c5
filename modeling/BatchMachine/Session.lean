import BatchMachine.CommandLine
import BatchMachine.Exchange
import BatchMachine.JobText.Assembly
import BatchMachine.JobText.Listing

/-!
# Sessions

A session carries out one command line on a file tree. It ends with an exit code, its messages,
and the files it leaves behind, what it has printed among them.

* `Session.run`: run jobs and report.
* `Session.assembleInto`, `Session.listFile`: job texts to object code and back.
* `Session.ofArguments`: the session of a command line.
-/

namespace BatchMachine

open JobText

/-- The end of a session: what the program leaves behind. -/
structure Session where
  /-- The exit code, before the system cuts it to eight bits. -/
  code : Int
  /-- What was said about an error, if there was one. -/
  message? : Option String
  /-- The files. -/
  files : Files

namespace Session

/-- The exit code of a command line that makes no sense. -/
def misuseCode : Int := -1

/-- The exit code of a command that cannot be carried out. -/
def setupCode : Int := -4

/-- The session of a command that cannot be carried out, for the reason `message`. -/
def fail (files : Files) (message : String) : Session :=
  ⟨setupCode, some ("rmmix: " ++ message), files⟩

/-- The session of a command that was carried out and leaves `files`. -/
def succeed (files : Files) : Session :=
  ⟨0, none, files⟩

/-- What was printed in the session `s`. -/
def output (s : Session) : String :=
  s.files.printed

/-- The exit code of `s` as the system sees it: its last eight bits. -/
def systemCode (s : Session) : Nat :=
  (s.code % 256).toNat

/-- The line of the job `s` in a printed report. -/
def jobLine (s : JobReport) : String :=
  let outcome := (s.outcome?.map Outcome.shown).getD "unfinished"
  s!"Job {s.index} ({s.name}): {s.segments} segment(s), {outcome}"

/-- The report `r` as it is printed. -/
def reportText (r : Report) : String :=
  let head :=
    ["━━━ Result ━━━", s!"Ticks:            {r.ticks}", s!"Instructions:     {r.instructions}",
      s!"Idle ticks:       {r.idleTicks}", s!"Context switches: {r.switches}"]
  let budget :=
    if r.budgetExhausted then ["", "Reached tick budget. Use --max-ticks to increase."] else []
  unlines <|
    head ++ r.jobs.map jobLine ++ budget ++ [s!"Exit status: {Numeral.decimal r.status}"]

/-- The line of the entry `e` in a log file. -/
def logLine (e : JournalEntry) : String :=
  let tick := (e.tick?.map toString).getD "-"
  s!"{tick} {e.event.level.name} device {e.device}: {e.event.message}"

/-- The text of the log file of `j`. -/
def logText (j : Journal) : String :=
  unlines (j.entries.toList.map logLine)

/-- The configuration of a run: that of the file, or the standard one, with what `o` says
instead. -/
def configOf (files : Files) (o : CommandLine.RunOptions) : Except ConfigError Config := do
  let c ← match o.config? with
    | some path => Config.load files path
    | none => .ok .standard
  let c : Config :=
    { deviceDelay := o.delay?.getD c.deviceDelay
      maxTicks := o.maxTicks?.getD c.maxTicks
      outputDir := o.outputDir?.getD c.outputDir
      logPath := o.log?.getD c.logPath }
  match c.flaw? with
  | some flaw => .error (.flawed flaw)
  | none => .ok c

/-- The machine for the object files at the paths `objects`, with the configuration `c`. -/
def machineOf (objects : List String) (c : Config) (files : Files) : Machine :=
  let jobs := objects.zipIdx.map fun (path, index) => (Job.new index path (some path), none)
  .new jobs c files (.new (some .info))

/-- The files that `m` leaves behind, its journal in the log file at `log`. -/
def filesAfter (m : Machine) (log : Location) : Files :=
  m.hardware.files.append log (logText m.journal)

/-- Print the report `r`, and write it to the file at `path?` if one is named. -/
def report (files : Files) (r : Report) (path? : Option String) : Session :=
  let files := files.print (reportText r)
  let done (files : Files) : Session := ⟨r.status.toInt, none, files⟩
  match path? with
  | none => done files
  | some path =>
    match files.write path (Json.pretty r.written) with
    | .ok files => done files
    | .error e => fail files s!"cannot write report {path}: {e.message}"

/-- Run jobs as `o` says: create the log file and the output directory, start, run and report. -/
def run (files : Files) (o : CommandLine.RunOptions) : Session :=
  match configOf files o with
  | .error e => fail files e.message
  | .ok c =>
    match files.create c.logPath with
    | .error e => fail files s!"cannot create log {c.logPath}: {e.message}"
    | .ok (files, log) =>
      match files.createDirectories c.outputDir with
      | (.error e, files) => fail files s!"cannot create {c.outputDir}: {e.message}"
      | (.ok (), files) =>
        match (machineOf o.objects c files).start with
        | (.error _, m) => ⟨setupCode, none, filesAfter m log⟩
        | (.ok (), m) =>
          let (r, m) := m.run
          report (filesAfter m log) r o.report?

/-- The object code of assembly files, one after the other. -/
def assembleAll (files : Files) : List String → Except String String
  | [] => .ok ""
  | path :: paths =>
    match files.read path with
    | .error e => .error s!"cannot read {path}: {e.message}"
    | .ok source =>
      match assembleText source with
      | .error e => .error s!"{path}: {e.message}"
      | .ok object =>
        match assembleAll files paths with
        | .ok objects => .ok (object ++ objects)
        | .error e => .error e

/-- Assemble the files at `sources`, to the file `output?` or to the standard output. -/
def assembleInto (files : Files) (sources : List String) (output? : Option String) : Session :=
  match assembleAll files sources with
  | .error e => fail files e
  | .ok object =>
    match output? with
    | none => succeed (files.print object)
    | some path =>
      match files.write path object with
      | .ok files => succeed files
      | .error e => fail files s!"cannot write {path}: {e.message}"

/-- List the object code in the file at `path`. -/
def listFile (files : Files) (path : String) : Session :=
  match files.read path with
  | .error e => fail files s!"cannot read {path}: {e.message}"
  | .ok object =>
    match disassemble object with
    | .ok listing => succeed (files.print listing)
    | .error e => fail files e.message

/-- Carry out a command on `files`. -/
def carryOut (files : Files) : CommandLine.Command → Session
  | .run options => run files options
  | .assemble sources output? => assembleInto files sources output?
  | .disassemble object => listFile files object

/-- The session of `request` on `files`. -/
def ofRequest (request : CommandLine.Request) (files : Files) : Session :=
  match request with
  | .command c => carryOut files c
  | .help => succeed files
  | .version => succeed (files.print "rmmix 0.1.0\n")
  | .misuse => ⟨misuseCode, none, files⟩

/-- The session of the command line `args` on `files`. -/
def ofArguments (args : List String) (files : Files) : Session :=
  ofRequest (CommandLine.parse args) files

end Session

end BatchMachine
