import BatchMachine.Hardware
import BatchMachine.Job

/-!
# The journal

The machine keeps a journal of what happens to its components. Every event has a level of
severity, and the journal keeps the events from a chosen level on. An event belongs to a device,
where number zero is the processor, and to the tick in which it happens.
-/

namespace BatchMachine

/-- How severe an event is. -/
inductive Level where
  /-- Something that ends a job before it has begun. -/
  | error
  /-- Something that went wrong. -/
  | warn
  /-- A step in the life of a job. -/
  | info
  /-- A detail. -/
  | debug
  deriving DecidableEq

namespace Level

/-- The name of a `Level` in a log. -/
def name : Level → String
  | error => "ERROR"
  | warn => "WARN"
  | info => "INFO"
  | debug => "DEBUG"

/-- The rank of a `Level`, smaller for the more severe. -/
def rank : Level → Nat
  | error => 0
  | warn => 1
  | info => 2
  | debug => 3

end Level

/-- What can happen to the machine, with all that its message says. -/
inductive Event where
  /-- The processor has nothing to run. -/
  | processorIdle
  /-- The processor executes the instruction `i` at the address `pc`. -/
  | execute (pc : Word) (i : Instruction)
  /-- The instruction at `pc` failed, for the reason `cause`. -/
  | fault (pc : Word) (cause : Fault)
  /-- An input device was bound to the text of the job with the number `job`. -/
  | boundSource (job : Nat)
  /-- An output device was bound to a sink. -/
  | boundSink
  /-- The sink bound before could not be closed, for the reason `cause`. -/
  | replacedSinkFailed (cause : FileError)
  /-- A sink could not be closed, for the reason `cause`. -/
  | closedSinkFailed (cause : FileError)
  /-- A device was released. -/
  | released
  /-- An input device took a request. -/
  | inputStarted
  /-- An output device took a request to write `word`. -/
  | outputStarted (word : Word)
  /-- A device counted down to `timer`. -/
  | countedDown (timer : Nat)
  /-- A device has to wait for the processor's trap line. -/
  | held
  /-- A word could not be read, for the reason `cause`. -/
  | inputFailed (cause : String)
  /-- A word could not be written, for the reason `cause`. -/
  | outputFailed (cause : String)
  /-- A device signalled by `line` that it is done. -/
  | signalled (line : TrapLine)
  /-- A device has nothing to do. -/
  | deviceIdle
  /-- The trap on `line` is handled. -/
  | interrupt (line : TrapLine)
  /-- A trap has the unknown number `number`. -/
  | unknownInterrupt (number : Word)
  /-- The job with the number `job` came to the end of its image. -/
  | reachedEnd (job : Nat)
  /-- The job with the number `job` halted with `status`. -/
  | halted (job : Nat) (status : Word)
  /-- The job with the number `job` failed with the word `data`. -/
  | failed (job : Nat) (data : Word)
  /-- The request `trap` of the job with the number `job` names `register`, which does not exist. -/
  | badRequest (job : Nat) (trap : Trap) (register : Word)
  /-- The job with the number `job` waits, after its `request`. -/
  | waits (job : Nat) (request : DeviceRequest)
  /-- `request` was put on the line of its device. -/
  | requested (request : DeviceRequest)
  /-- The device with the number `device` is busy, so that its request is held. -/
  | requestHeld (device : Nat)
  /-- The device that `data` names seems to be done, but does not exist. -/
  | unknownDevice (data : Word)
  /-- A transfer of the device `device` for the job `job` failed. -/
  | transferFailed (device job : Nat)
  /-- The job with the number `job` got the input word `value` into `register`. -/
  | delivered (job : Nat) (register value : Word)
  /-- The job with the number `job` is to run, and runs already. -/
  | alreadyRunning (job : Nat)
  /-- The processor goes from the job `old` to the job `new`, which has this `name` and goes on at
  `pc`. -/
  | switched (old new : Nat) (name : String) (pc : Word)
  /-- There is no job to run. -/
  | nothingToRun
  /-- There is no job left, and the machine exits with `status`. -/
  | exiting (status : Word)
  /-- The next segment of the job with the number `job` cannot be loaded, for the reason `cause`. -/
  | segmentFailed (job : Nat) (cause : String)
  /-- The job with the number `job` is over, with the outcome `outcome?`. -/
  | finished (job : Nat) (outcome? : Option Outcome)
  /-- A job from `origin` cannot be booted, for the reason `cause`. -/
  | bootFailed (origin cause : String)
  /-- The job with the number `job` was booted from `origin`. -/
  | booted (job : Nat) (origin : String)
  /-- The segment with the number `segment` of the job `job` was loaded: its `name`, its `size` in
  instructions and the path `output` of its output file. -/
  | loaded (job segment : Nat) (name : String) (size : Nat) (output : String)
  /-- The `maxTicks` ticks of a run are used up. -/
  | budgetExhausted (maxTicks : Nat)

namespace Event

/-- The `Level` of an event. -/
def level : Event → Level
  | bootFailed _ _ => .error
  | fault _ _ | replacedSinkFailed _ | closedSinkFailed _ | inputFailed _ | outputFailed _
  | unknownInterrupt _ | failed _ _ | badRequest _ _ _ | unknownDevice _ | transferFailed _ _
  | segmentFailed _ _ | budgetExhausted _ => .warn
  | halted _ _ | switched _ _ _ _ | exiting _ | finished _ _ | booted _ _ | loaded _ _ _ _ _ =>
    .info
  | processorIdle | execute _ _ | boundSource _ | boundSink | released | inputStarted
  | outputStarted _ | countedDown _ | held | signalled _ | deviceIdle | interrupt _
  | reachedEnd _ | waits _ _ | requested _ | requestHeld _ | delivered _ _ _ | alreadyRunning _
  | nothingToRun => .debug

/-- The text of an event. -/
def message : Event → String
  | processorIdle => "CPU idle"
  | execute pc i => s!"CPU execute @ addr {Numeral.decimal pc}: {i.text}"
  | fault pc cause => s!"CPU fault at pc {Numeral.decimal pc}: {cause.message}"
  | boundSource job => s!"bound to job {job}"
  | boundSink => "bound to output sink"
  | replacedSinkFailed cause => s!"closing previous output failed: {cause.message}"
  | closedSinkFailed cause => s!"closing output failed: {cause.message}"
  | released => "released"
  | inputStarted => "starting delay"
  | outputStarted word => s!"starting delay, buffered {Numeral.decimal word}"
  | countedDown timer => s!"delay down to {timer}"
  | held => "CPU busy, holding completion"
  | inputFailed cause => s!"input transfer failed: {cause}"
  | outputFailed cause => s!"output transfer failed: {cause}"
  | signalled line =>
    s!"signaled trap {Numeral.decimal line.number}, data = {Numeral.decimal line.data}, " ++
      s!"status = {Numeral.decimal line.status}"
  | deviceIdle => "idle"
  | interrupt line =>
    s!"interrupt handler - number {Numeral.decimal line.number}, " ++
      s!"data {Numeral.decimal line.data}, status {Numeral.decimal line.status}"
  | unknownInterrupt number => s!"unknown interrupt number {Numeral.decimal number}"
  | reachedEnd job => s!"job {job} reached the end of its image"
  | halted job status => s!"job {job} halted, status = {Numeral.decimal status}"
  | failed job data => s!"FATAL interrupt in job {job}, data = {Numeral.decimal data}"
  | badRequest job trap register =>
    s!"job {job}: {trap.name} names bad register {Numeral.decimal register}"
  | waits job request => s!"job {job} waits for {request.shown}"
  | requested request => s!"signaled {request.trap.name} on device {request.device}"
  | requestHeld device => s!"device {device} busy, request held"
  | unknownDevice data => s!"completion from unknown device {Numeral.decimal data}"
  | transferFailed device job => s!"I/O failure on device {device}, job {job}"
  | delivered job register value =>
    s!"job {job}: r{Numeral.decimal register} = {Numeral.decimal value}"
  | alreadyRunning job => s!"job {job} already running"
  | switched old new name pc =>
    s!"switching from job {old} to job {new} ({name}) at pc {Numeral.decimal pc}"
  | nothingToRun => "no runnable job, CPU idles"
  | exiting status => s!"no job left, exiting with status {Numeral.decimal status}"
  | segmentFailed job cause => s!"job {job}: cannot load next segment: {cause}"
  | finished job outcome? => s!"job {job} finished: {Outcome.shown? outcome?}"
  | bootFailed origin cause => s!"BOOT LOAD FAILED - {origin}: {cause}"
  | booted job origin => s!"booted job {job} from {origin}"
  | loaded job segment name size output =>
    s!"job {job} loaded segment {segment} ({name}), {size} instructions, output {output}"
  | budgetExhausted maxTicks => s!"tick budget of {maxTicks} exhausted"

end Event

/-- An event with the tick and the device it belongs to. -/
structure JournalEntry where
  /-- The tick, `none` outside of a tick. -/
  tick? : Option Nat
  /-- The device, or `0` for the processor and the scheduler. -/
  device : Nat
  /-- The event. -/
  event : Event

/-- A journal: the events that its threshold lets through, with their ticks. -/
structure Journal where
  /-- The least severe level that is kept; `none` keeps nothing. -/
  threshold? : Option Level
  /-- The tick at hand, `none` outside of a tick. -/
  tick? : Option Nat
  /-- What was kept so far. -/
  entries : Array JournalEntry

namespace Journal

/-- An empty journal with the threshold `threshold?`. -/
def new (threshold? : Option Level) : Journal := ⟨threshold?, none, #[]⟩

/-- `j` keeps events of `level`. -/
def keeps (j : Journal) (level : Level) : Bool :=
  j.threshold?.any fun threshold => level.rank ≤ threshold.rank

/-- Add `event` of the device with the number `device`, if `j` keeps events of its level. -/
def note (j : Journal) (device : Nat) (event : Event) : Journal :=
  if j.keeps event.level then { j with entries := j.entries.push ⟨j.tick?, device, event⟩ }
  else j

end Journal

/-- The events of one step of `cpu` that comes to `result`. -/
def Processor.stepEvents (cpu : Processor) (result : Except Fault Instruction) : List Event :=
  let executed := match cpu.fetch? with
    | some i => [Event.execute cpu.regs.pc i]
    | none => []
  match result with
  | .ok _ => executed
  | .error fault => executed ++ [.fault cpu.regs.pc fault]

/-- The events of one tick of `cpu`, given its `Activity`. -/
def Processor.tickEvents (cpu : Processor) : Activity → List Event
  | .interrupted | .ended => []
  | .idled => [.processorIdle]
  | .stepped result => cpu.stepEvents result

/-- The event of a failed transfer, if there is one. -/
def Device.TransferError.event? : Device.TransferError → Option Event
  | nothing => none
  | input cause => some (.inputFailed cause.message)
  | output cause => some (.outputFailed cause.message)

/-- The events of one tick of `d`, given what the tick came to, `t`, and whether the processor's
line was `free`. -/
def Device.tickEvents (d : Device) (free : Bool) (t : Device.Tick) : List Event :=
  match d.phase free with
  | .capture =>
    [if d.isInput then .inputStarted else .outputStarted d.trap.data]
  | .count => [.countedDown (d.timer - 1)]
  | .hold => [.countedDown 0, .held]
  | .transfer =>
    .countedDown 0 :: (t.error?.bind Device.TransferError.event?).toList ++ [.signalled t.line]
  | .rest => [.deviceIdle]

end BatchMachine
