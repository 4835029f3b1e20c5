import BatchMachine.Config
import BatchMachine.Journal

/-!
# The machine

The machine is the hardware, the job table, and what the scheduler remembers: which job runs, or
ran last, whether no job is loaded at the moment, and which job is to be charged with an error
that a device has reported. Everything that happens is a function from machine to machine.

* `Machine.new`: a machine with jobs that have not run yet.
* `Machine.job`, `Machine.modifyJob`: the job table.
* `Machine.note`: an entry in the journal.
-/

namespace BatchMachine

open JobText

/-- The machine: what a tick changes. -/
structure Machine where
  /-- The number of ticks so far. -/
  clock : Nat
  /-- The processor, the devices, the jobs' texts and the files. -/
  hardware : Hardware
  /-- The job table. Job `j` is in slot `j`. -/
  jobs : Array Job
  /-- The number of the job that runs or, if `idle` is set, of the one that ran last. -/
  current : Nat
  /-- No job is loaded. -/
  idle : Bool
  /-- The job to charge with the next error, if a device reported it, and `none` otherwise. -/
  culprit? : Option Nat
  /-- How often `occupy` has given the processor to a job. -/
  switches : Nat
  /-- The configuration. -/
  config : Config
  /-- The journal. -/
  journal : Journal

/-- What `tick` says of the machine after it. -/
inductive Progress where
  /-- It goes on. -/
  | running
  /-- It stops with the exit status `status`. -/
  | exited (status : Word)
  deriving DecidableEq

namespace Machine

/-- The machine for `jobs`, each with the reader of its text if that is open already. Nothing has
been started, and no device is bound. -/
def new (jobs : List (Job × Option Reader)) (config : Config) (files : Files)
    (journal : Journal) : Machine :=
  { clock := 0
    hardware := .new jobs.length config.deviceDelay (jobs.map (·.2)).toArray files
    jobs := (jobs.map (·.1)).toArray
    current := 0
    idle := true
    culprit? := none
    switches := 0
    config
    journal }

/-- `m.job j`: the job in slot `j` of the job table. -/
def job (m : Machine) (j : Nat) : Job :=
  m.jobs.getD j (.new j "" none)

/-- Change the job in slot `j` of the job table by `f`. -/
def modifyJob (m : Machine) (j : Nat) (f : Job → Job) : Machine :=
  { m with jobs := m.jobs.modify j f }

/-- The job that runs, `none` while no job is loaded. -/
def running? (m : Machine) : Option Nat :=
  if m.idle then none else some m.current

/-- `m.runs j`: job `j` is loaded into the processor. -/
def runs (m : Machine) (j : Nat) : Bool :=
  !m.idle && m.current == j

/-- Some job waits for a device. -/
def hasWaiter (m : Machine) : Bool :=
  m.jobs.any fun job => job.life = .waiting

/-- `m.outputFile j segment`: the path of the output file of the segment of job `j` with the number
`segment`. -/
def outputFile (m : Machine) (j segment : Nat) : String :=
  Path.join m.config.outputDir s!"job{j}-sub{segment}.out"

/-- What a `Report` says of the jobs. -/
def jobReports (m : Machine) : List JobReport :=
  m.jobs.toList.map Job.report

/-- Change the processor by `f`. -/
def modifyCpu (m : Machine) (f : Processor → Processor) : Machine :=
  { m with hardware := { m.hardware with cpu := f m.hardware.cpu } }

/-- Set the processor's trap line to `line`. -/
def setTrap (m : Machine) (line : TrapLine) : Machine :=
  m.modifyCpu fun cpu => { cpu with trap := line }

/-- Replace the reader of the text of job `j`, or give it back if `source?` is `none`. -/
def setSource (m : Machine) (j : Nat) (source? : Option Reader) : Machine :=
  { m with hardware := m.hardware.setSource j source? }

/-- Note an event of the device with the number `device` in the journal. -/
def noteOf (m : Machine) (device : Nat) (event : Event) : Machine :=
  { m with journal := m.journal.note device event }

/-- Note an event of the processor in the journal. -/
def note (m : Machine) (event : Event) : Machine :=
  m.noteOf processorNumber event

/-- Note `events` of the device with the number `device` in the journal, in their order. -/
def noteAll (m : Machine) (device : Nat) (events : List Event) : Machine :=
  { m with journal := events.foldl (fun j e => j.note device e) m.journal }

/-- Bind the device with the number `device` to `b`. -/
def bind (m : Machine) (device : Nat) (b : Binding) : Except BindingError Machine :=
  match m.hardware.bind device b with
  | .error e => .error e
  | .ok (closing?, hardware) =>
    let m := { m with hardware }
    .ok <| m.noteAll device <|
      (closing?.map Event.replacedSinkFailed).toList ++
        [match b with
        | .source job => .boundSource job
        | .sink _ => .boundSink]

/-- Release the device with the number `device`, if there is one. -/
def release (m : Machine) (device : Nat) : Machine :=
  match m.hardware.device? device with
  | none => m
  | some _ =>
    let (closing?, hardware) := m.hardware.release device
    { m with hardware }.noteAll device <|
      (closing?.map Event.closedSinkFailed).toList ++ [Event.released]

/-- Release the input device and the output device of job `j`. -/
def releaseJob (m : Machine) (j : Nat) : Machine :=
  (m.release (inputNumber j)).release (outputNumber j)

end Machine

end BatchMachine
