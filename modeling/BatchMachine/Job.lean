import BatchMachine.Instruction.Basic
import BatchMachine.Processor.Registers
import BatchMachine.Processor.TrapLine
import BatchMachine.Text.Quoted

/-!
# Jobs

A job has a slot in the job table. While it does not run, its registers and trap line are kept
there. A job is booted when it runs for the first time, goes through its segments one by one, and
is finished for good after the last.
-/

namespace BatchMachine

/-- Whether the first segment of a job has been loaded, by `Machine.boot`. -/
inductive BootState where
  /-- Not yet. -/
  | fresh
  /-- It has been loaded. -/
  | booted
  deriving DecidableEq

/-- The title of a boot status, by which records show it. -/
def BootState.title : BootState → String
  | fresh => "NotBooted"
  | booted => "Booted"

/-- Where a job stands in its life. -/
inductive Life where
  /-- It runs, or can run. -/
  | runnable
  /-- It waits for a device. -/
  | waiting
  /-- It is over. -/
  | finished
  deriving DecidableEq

/-- The title of a life status, by which records show it. -/
def Life.title : Life → String
  | runnable => "Runnable"
  | waiting => "WaitingOnIo"
  | finished => "Finished"

/-- How the latest segment of a job ended: what `outcome?` says. -/
inductive Outcome where
  /-- The job halted with the exit status `status`. -/
  | halted (status : Word)
  /-- The job failed; the word `data` comes from the trap. -/
  | fatal (data : Word)
  /-- The job came to the end of its image. -/
  | completed
  /-- The job could not be booted. -/
  | bootFailed
  deriving DecidableEq

/-- An outcome as messages show it. -/
def Outcome.shown : Outcome → String
  | halted status => Text.wrapped "Halted" (Numeral.decimal status)
  | fatal data => Text.wrapped "Fatal" (Numeral.decimal data)
  | completed => "Completed"
  | bootFailed => "BootFailed"

/-- An outcome that may be missing, as messages show it. -/
def Outcome.shown? (outcome? : Option Outcome) : String :=
  Text.optional (outcome?.map Outcome.shown)

/-- A request for a device, as the register of a job names it. -/
structure DeviceRequest where
  /-- The device that is asked. -/
  device : Nat
  /-- What is asked of it. -/
  trap : Trap
  /-- The word to write, for an output request; `0` for an input request. -/
  data : Word
  deriving DecidableEq

/-- The request `r` as messages show it. -/
def DeviceRequest.shown (r : DeviceRequest) : String :=
  Text.record "IoRequest"
    [("device", toString r.device), ("code", r.trap.title), ("data", Numeral.decimal r.data)]

/-- A slot of the job table: what is known of a job, and what it has to do with while another job
has the processor. -/
structure Job where
  /-- The number of the job. -/
  index : Nat
  /-- The name of the latest segment. -/
  name : String
  /-- Where the job came from, for messages: the path of its text, or another name. -/
  origin : String
  /-- The path of the job's text, if it is read when the job is booted, and `none` if the text is
  given. -/
  path? : Option String
  /-- The registers, while the job does not run. -/
  registers : Registers
  /-- The trap line, while the job does not run. -/
  trap : TrapLine
  /-- The register that gets the next input word, if the job has asked for one. -/
  target? : Option Word
  /-- The instructions of the latest segment, which `Machine.install` loads into the processor. -/
  image : Array Instruction
  /-- How many segments have been loaded: the number of the latest one. -/
  segments : Nat
  /-- Whether the first segment has been loaded. -/
  boot : BootState
  /-- Where the job stands in its life. -/
  life : Life
  /-- A request that no device has taken yet, which is offered again at the start of every tick. -/
  pending? : Option DeviceRequest
  /-- How the latest segment ended, `none` while the first one has not. -/
  outcome? : Option Outcome
  deriving DecidableEq

namespace Job

/-- A job that has not run yet, with the number `index`, from `origin`. -/
def new (index : Nat) (origin : String) (path? : Option String) : Job :=
  { index, name := "", origin, path?, registers := .zero, trap := .clear, target? := none,
    image := #[], segments := 0, boot := .fresh, life := .runnable, pending? := none,
    outcome? := none }

/-- `job` can run: its `life` says so. -/
def isRunnable (job : Job) : Bool := job.life = .runnable

/-- `job` as messages show it. -/
def shown (job : Job) : String :=
  Text.record "Job"
    [("index", toString job.index), ("name", Text.quoted job.name),
      ("origin", Text.quoted job.origin), ("registers", job.registers.shown),
      ("trap", job.trap.shown), ("image_len", toString job.image.size),
      ("sub_job", toString job.segments), ("boot", job.boot.title), ("life", job.life.title),
      ("outcome", Outcome.shown? job.outcome?)]

end Job

/-- What `Machine.run` reports of a job. -/
structure JobReport where
  /-- The number of the job. -/
  index : Nat
  /-- The name of its latest segment. -/
  name : String
  /-- Where the job came from. -/
  origin : String
  /-- How many segments were loaded. -/
  segments : Nat
  /-- Where the job stands in its life. -/
  life : Life
  /-- How its latest segment ended. -/
  outcome? : Option Outcome
  deriving DecidableEq

/-- The report on `job`. -/
def Job.report (job : Job) : JobReport :=
  { index := job.index, name := job.name, origin := job.origin, segments := job.segments,
    life := job.life, outcome? := job.outcome? }

end BatchMachine
