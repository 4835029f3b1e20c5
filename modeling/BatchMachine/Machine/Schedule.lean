import BatchMachine.Machine.Boot

/-!
# Scheduling

One job runs at a time. When it waits, ends or fails, the next job that can run gets the
processor, in the order of the job table and starting after the job that ran. If no job can run
but some wait for devices, the processor idles; if none is left, the machine exits.

* `Machine.activate`: let a job run.
* `Machine.rotate`: let the next job run.
* `Machine.passOn`: the same for good, with idling and exit.
* `Machine.endSegment`: the end of a segment.
* `Machine.start`: the first job.
-/

namespace BatchMachine

namespace Machine

/-- The next job that can run, counted from the job after `m.current` around the table. The current
job comes last. -/
def nextRunnable? (m : Machine) : Option Nat :=
  ((List.range m.jobs.size).map fun k => (m.current + 1 + k) % m.jobs.size).find? fun j =>
    (m.job j).isRunnable

/-- Keep the registers and the trap line of the running job in the job table. -/
def suspend (m : Machine) : Machine :=
  m.modifyJob m.current fun job =>
    { job with registers := m.hardware.cpu.regs, trap := m.hardware.cpu.trap }

/-- Let job `j`, whose image is in the processor, go on with the registers and the trap line that
are saved in its slot. -/
def occupy (m : Machine) (j : Nat) : Machine :=
  let job := m.job j
  let m := m.modifyCpu fun cpu => { cpu with regs := job.registers, trap := job.trap }
  let m := m.note (.switched m.current j job.name job.registers.pc)
  { m with current := j, idle := false, switches := m.switches + 1 }

/-- Load job `j` into the processor, if its image fits. -/
def install (m : Machine) (j : Nat) : Except LoadError Unit × Machine :=
  match m.hardware.cpu.load (m.job j).image with
  | .error _ => (.error .imageTooLarge, m)
  | .ok cpu => (.ok (), (m.modifyCpu fun _ => cpu).occupy j)

/-- Boot job `j` unless it has been booted. -/
def ensureBooted (m : Machine) (j : Nat) : Except LoadError Unit × Machine :=
  if (m.job j).boot = .fresh then m.boot j else (.ok (), m)

/-- Let job `j` run. Nothing happens if it runs already. -/
def activate (m : Machine) (j : Nat) : Except LoadError Unit × Machine :=
  if m.runs j then (.ok (), m.note (.alreadyRunning j))
  else
    match m.ensureBooted j with
    | (.error e, m) => (.error e, m)
    -- of an idle processor there are no registers to keep
    | (.ok (), m) => (if m.idle then m else m.suspend).install j

/-- End job `j` for good and release its devices. Its `outcome?` stays as it is. -/
def dismiss (m : Machine) (j : Nat) : Machine :=
  let m := m.modifyJob j fun job =>
    { job with life := .finished, pending? := none, target? := none }
  let m := (m.setSource j none).releaseJob j
  m.note (.finished j (m.job j).outcome?)

/-- Give up job `j`, which cannot be booted because of `e`. -/
def giveUp (m : Machine) (j : Nat) (e : LoadError) : Machine :=
  let m := m.note (.bootFailed (m.job j).origin e.message)
  (m.modifyJob j fun job => { job with outcome? := some .bootFailed }).dismiss j

/-- Let the next job run, trying at most `n` jobs. Jobs that cannot be booted are given up. -/
def rotateAmong : Nat → Machine → Bool × Machine
  | 0, m => (false, m)
  | n + 1, m =>
    match m.nextRunnable? with
    | none => (false, m)
    | some j =>
      match m.activate j with
      | (.ok (), m) => (true, m)
      | (.error e, m) => rotateAmong n (m.giveUp j e)

/-- Let the job run that `nextRunnable?` finds. The answer is `false` if no job is left that can.
Every job that is tried in vain is given up, so there are no more tries than jobs. -/
def rotate (m : Machine) : Bool × Machine :=
  rotateAmong m.jobs.size m

/-- Unload the running job and let the processor idle. -/
def unload (m : Machine) : Machine :=
  let m := if m.idle then m else { m.suspend with idle := true }
  (m.modifyCpu fun cpu => { cpu with regs := cpu.regs.setPc Registers.idlePc }).note .nothingToRun

/-- Find another job for the processor after the current one has ended. If there is none, idle as
long as a job waits for a device; else exit with `status`. -/
def passOn (m : Machine) (status : Word) : Progress × Machine :=
  match m.rotate with
  | (true, m) => (.running, m)
  | (false, m) =>
    if m.hasWaiter then (.running, m.unload)
    else (.exited status, m.note (.exiting status))

/-- The end of a segment of job `j`: load the next one, or finish the job. The answer is `true` if
the job goes on. -/
def endSegment (m : Machine) (j : Nat) : Bool × Machine :=
  match m.loadNext j with
  | (.ok true, m) => (true, m)
  | (.ok false, m) => (false, m.dismiss j)
  | (.error e, m) => (false, (m.note (.segmentFailed j e.message)).dismiss j)

/-- Let the first job of a list run that can be booted, and give up those before it. The answer is
`false` if there is none. -/
def startAmong : List Nat → Machine → Bool × Machine
  | [], m => (false, m)
  | j :: js, m =>
    match m.activate j with
    | (.ok (), m) => (true, m)
    | (.error e, m) => startAmong js (m.giveUp j e)

/-- The reasons why `start` fails. -/
inductive StartError where
  /-- There are no jobs. -/
  | noJobs
  /-- No job can be booted. -/
  | noneBootable
  deriving DecidableEq

/-- The text of a start error. -/
def StartError.message : StartError → String
  | noJobs => "no jobs given"
  | noneBootable => "no job could be booted"

/-- Let the first job run that can be booted. Jobs are tried in the order of their numbers. -/
def start (m : Machine) : Except StartError Unit × Machine :=
  if m.jobs.isEmpty then (.error .noJobs, m)
  else
    match startAmong (List.range m.jobs.size) m with
    | (true, m) => (.ok (), m)
    | (false, m) => (.error .noneBootable, m)

end Machine

end BatchMachine
