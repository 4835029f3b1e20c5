import BatchMachine.Machine.Basic

/-!
# Booting jobs and loading segments

A job is booted when it is to run for the first time: its text is opened if need be, and its
first segment is loaded. To load a segment, its code is read to the end, its output file is
created, and its devices are bound; only then does the job change.

* `Machine.loadNext`: load the next segment of a job.
* `Machine.boot`: boot a job.
-/

namespace BatchMachine

open JobText

/-- The reasons why a job cannot be booted or go on with its next segment: what `boot` and
`loadNext` answer if they fail. -/
inductive LoadError where
  /-- The text cannot be read, for the reason `cause`. -/
  | text (cause : ReadError)
  /-- The text from `origin` cannot be opened. -/
  | unreadable (origin : String)
  /-- The text from `origin` is empty. -/
  | empty (origin : String)
  /-- The text from `origin` holds no segment. -/
  | noSegment (origin : String)
  /-- The segment has more than `imageLimit` instructions. -/
  | imageTooLarge
  /-- The output file at `path` cannot be created, for the reason `cause`. -/
  | output (path : String) (cause : FileError)
  /-- A device cannot be bound, for the reason `cause`. -/
  | binding (cause : BindingError)
  deriving DecidableEq

/-- The text of a load error. -/
def LoadError.message : LoadError → String
  | text cause => cause.message
  | unreadable origin => s!"could not open object file {origin}"
  | empty origin => s!"object file {origin} appears to be empty"
  | noSegment origin => s!"could not find $JOB control line in {origin}"
  | imageTooLarge => s!"image exceeds {imageLimit} instructions"
  | output path cause => s!"cannot create output file {path}: {cause.message}"
  | binding cause => cause.message

/-- `job` at the start of the segment `name` with the code `image`. All registers but the program
counter keep their words. -/
def Job.enter (job : Job) (name : String) (image : Array Instruction) : Job :=
  { job with
    name
    image
    segments := job.segments + 1
    registers := job.registers.setPc 0
    trap := .clear
    target? := none
    pending? := none
    life := .runnable }

namespace JobText.Reader

/-- The code at hand, if it has at most `room` instructions. -/
def image (room : Nat) (r : Reader) : Except LoadError (List Instruction) × Reader :=
  match r.fetchInstruction with
  | (.error e, r) => (.error (.text e), r)
  | (.ok none, r) => (.ok [], r)
  | (.ok (some i), r) =>
    match room with
    | 0 => (.error .imageTooLarge, r)
    | room + 1 =>
      match image room r with
      | (.ok is, r) => (.ok (i :: is), r)
      | (.error e, r) => (.error e, r)

/-- The code of the next segment of the text, `none` if there is no further segment. -/
def nextImage (r : Reader) : Except LoadError (Option (List Instruction)) × Reader :=
  match r.seekCode with
  | (.error e, r) => (.error (.text e), r)
  | (.ok false, r) => (.ok none, r)
  | (.ok true, r) =>
    match r.image imageLimit with
    | (.ok is, r) => (.ok (some is), r)
    | (.error e, r) => (.error e, r)

end JobText.Reader

namespace Machine

/-- Create the output file at `path`, and give a sink for it. -/
def createOutput (m : Machine) (path : String) : Except LoadError (Sink × Machine) :=
  match m.hardware.files.create path with
  | .ok (files, target) =>
    .ok (.ofFile files target, { m with hardware := { m.hardware with files } })
  | .error e => .error (.output path e)

/-- Create an output file for job `j` at `path` and bind its devices: first the output to the file,
then the input to the job's text. -/
def attach (m : Machine) (j : Nat) (path : String) : Except LoadError Unit × Machine :=
  match m.createOutput path with
  | .error e => (.error e, m)
  | .ok (sink, m) =>
    match m.bind (outputNumber j) (.sink sink) with
    | .error e => (.error (.binding e), m)
    | .ok m =>
      match m.bind (inputNumber j) (.source j) with
      | .error e => (.error (.binding e), m)
      | .ok m => (.ok (), m)

/-- Let job `j` enter the segment `name`, whose code `image` has been read. If the job runs, the
processor goes on with `image` too. -/
def enterSegment (m : Machine) (j : Nat) (name : String) (image : Array Instruction)
    (output : String) : Machine :=
  let m := m.modifyJob j fun job => job.enter name image
  let m := m.note (.loaded j (m.job j).segments name image.size output)
  if m.runs j then
    m.modifyCpu fun cpu =>
      { cpu with program := image, regs := cpu.regs.setPc 0, trap := .clear }
  else m

/-- Load the next segment of job `j`. The answer is `false` if there is none. -/
def loadNext (m : Machine) (j : Nat) : Except LoadError Bool × Machine :=
  match m.hardware.source? j with
  | none => (.ok false, m)
  | some reader =>
    let (code, reader) := reader.nextImage
    -- what has been read stays read, also when the segment cannot be loaded
    let m := m.setSource j (some reader)
    match code with
    | .error e => (.error e, m)
    | .ok none => (.ok false, m)
    | .ok (some image) =>
      let path := m.outputFile j ((m.job j).segments + 1)
      match m.attach j path with
      | (.error e, m) => (.error e, m)
      | (.ok (), m) => (.ok true, m.enterSegment j reader.name image.toArray path)

/-- Open the text of job `j` at its `path?`, unless it is open already. -/
def openSource (m : Machine) (j : Nat) : Except LoadError (Reader × Machine) :=
  let origin := (m.job j).origin
  match m.hardware.source? j, (m.job j).path? with
  | some reader, _ => .ok (reader, m)
  | none, none => .error (.unreadable origin)
  | none, some path =>
    match m.hardware.files.read path with
    | .error _ => .error (.unreadable origin)
    | .ok text =>
      let reader := Reader.ofText path text
      .ok (reader, m.setSource j (some reader))

/-- Boot job `j`: open its text and load its first segment. -/
def boot (m : Machine) (j : Nat) : Except LoadError Unit × Machine :=
  let origin := (m.job j).origin
  match m.openSource j with
  | .error e => (.error e, m)
  | .ok (reader, m) =>
    if !reader.healthy then (.error (.unreadable origin), m)
    else if reader.atEnd then (.error (.empty origin), m)
    else
      match m.loadNext j with
      | (.error e, m) => (.error e, m)
      | (.ok false, m) => (.error (.noSegment origin), m)
      | (.ok true, m) =>
        (.ok (), (m.modifyJob j fun job => { job with boot := .booted }).note (.booted j origin))

end Machine

end BatchMachine
