import BatchMachine.Device.Basic
import BatchMachine.Processor.Step

/-!
# The hardware

The hardware is the processor, the devices in the order of their numbers, the readers of the
jobs' texts, which input devices refer to by the number of the job, and the files.

* `Hardware.bind`, `Hardware.release`: attach and detach what a device works on.
* `Hardware.tickProcessor`, `Hardware.tickDevice`: one tick of one component.
-/

namespace BatchMachine

open JobText

/-- The reasons why `Hardware.bind` fails. -/
inductive BindingError where
  /-- The processor is not a device. -/
  | processorNotBindable
  /-- There is no device of the number `device`. -/
  | noSuchDevice (device : Nat)
  /-- The device `device` is not for things of this `kind`. -/
  | wrongBinding (device : Nat) (kind : String)
  /-- What `device` is to be bound to is not ready, for this `reason`. -/
  | notReady (device : Nat) (reason : String)
  deriving DecidableEq

/-- The text of a binding error. -/
def BindingError.message : BindingError → String
  | processorNotBindable => "the CPU cannot be bound to a resource"
  | noSuchDevice device => s!"device {device} does not exist"
  | wrongBinding device kind => s!"device {device} cannot take a {kind}"
  | notReady device reason => s!"device {device} resource not ready: {reason}"

/-- What a device can be bound to. -/
inductive Binding where
  /-- The text of the job with the number `job`. -/
  | source (job : Nat)
  /-- The sink `s`. -/
  | sink (s : Sink)
  deriving DecidableEq

/-- The processor, the devices, and what they work on. -/
structure Hardware where
  /-- The processor. -/
  cpu : Processor
  /-- The devices, device `d` at position `d - 1`. -/
  devices : Array Device
  /-- The readers of the jobs' texts: at place `j` that of job `j`, if its text is open. -/
  sources : Array (Option Reader)
  /-- The files. -/
  files : Files

/-- What `Processor.tick` does. -/
inductive Activity where
  /-- A trap is pending and has to be handled. -/
  | interrupted
  /-- No job is loaded and there is nothing to run. -/
  | idled
  /-- The image of the running job is at its end. -/
  | ended
  /-- An instruction was executed, or failed, as `result` says. -/
  | stepped (result : Except Fault Instruction)

/-- What a tick leaves to be done by the scheduler. -/
inductive Demand where
  /-- Nothing. -/
  | nothing
  /-- A trap has to be handled. -/
  | interrupt
  /-- The running job has come to the end of its image. -/
  | segmentEnd
  deriving DecidableEq

/-- What a tick of the processor with this `Activity` leaves to be done. -/
def Activity.demand : Activity → Demand
  | interrupted => .interrupt
  | ended => .segmentEnd
  | idled | stepped _ => .nothing

/-- One tick of the processor, while a job is loaded if `live` is set. A negative program counter
means that there is nothing to run only while no job is loaded; otherwise it fails like every bad
fetch. -/
def Processor.tick (cpu : Processor) (live : Bool) : Activity × Processor :=
  if !cpu.trap.isIdle then (.interrupted, cpu)
  else if !live && cpu.regs.isIdle then (.idled, cpu.idle)
  else if cpu.atEnd then (.ended, cpu)
  else
    let (result, cpu) := cpu.step
    (.stepped result, cpu)

namespace Hardware

/-- The hardware for `jobs` jobs, whose devices count down from `delay`, with nothing bound. -/
def new (jobs delay : Nat) (sources : Array (Option Reader)) (files : Files) : Hardware :=
  { cpu := .new
    devices :=
      ((List.range jobs).flatMap fun j => [.newInput j delay, .newOutput j delay]).toArray
    sources
    files }

/-- The number of components, the processor included. -/
def size (hw : Hardware) : Nat := hw.devices.size + 1

/-- The device with the number `dev`. The processor has the number `0` and is no device. -/
def device? (hw : Hardware) (dev : Nat) : Option Device :=
  if dev = 0 then none else hw.devices[dev - 1]?

/-- Replace the device with the number `dev` by `d`. -/
def setDevice (hw : Hardware) (dev : Nat) (d : Device) : Hardware :=
  { hw with devices := hw.devices.setIfInBounds (dev - 1) d }

/-- The reader of the text of the job with the number `job`, `none` if the text is not open. -/
def source? (hw : Hardware) (job : Nat) : Option Reader :=
  hw.sources[job]?.join

/-- Replace the reader of the text of the job with the number `job` by `source?`. -/
def setSource (hw : Hardware) (job : Nat) (source? : Option Reader) : Hardware :=
  { hw with sources := hw.sources.setIfInBounds job source? }

/-- Set the trap line of the processor to `line`. -/
def setTrap (hw : Hardware) (line : TrapLine) : Hardware :=
  { hw with cpu := { hw.cpu with trap := line } }

/-- Set the trap line of the component with the number `dev` to `line`. -/
def setLine (hw : Hardware) (dev : Nat) (line : TrapLine) : Hardware :=
  if dev = processorNumber then hw.setTrap line
  else
    match hw.device? dev with
    | some d => hw.setDevice dev { d with trap := line }
    | none => hw

/-- There is a component with the number `dev`: the processor or a device. -/
def hasComponent (hw : Hardware) (dev : Nat) : Bool :=
  dev < hw.size

/-- Bind the input device `d` to the text of the job with the number `job`, which must be readable
so far. -/
def bindSource (hw : Hardware) (d : Device) (job : Nat) : Except BindingError Hardware :=
  match hw.source? job with
  | some r =>
    if r.healthy then .ok (hw.setDevice d.number { d with link := .input (some job) })
    else .error (.notReady d.number "program source is not readable")
  | none => .error (.notReady d.number "program source is not readable")

/-- Bind the output device `d` to the sink `s`, which must pass on data. The sink bound before,
`old?`, is closed; the answer tells why it could not be closed. -/
def bindSink (hw : Hardware) (d : Device) (buffer : Word) (old? : Option Sink) (s : Sink) :
    Except BindingError (Option FileError × Hardware) :=
  match s.flush with
  | (some e, _) => .error (.notReady d.number e.message)
  | (none, s) =>
    .ok (old?.bind fun old => old.flush.1,
      hw.setDevice d.number { d with link := .output buffer (some s) })

/-- Bind the component with the number `dev` to `b`. The answer tells why the sink bound before
could not be closed. -/
def bind (hw : Hardware) (dev : Nat) (b : Binding) :
    Except BindingError (Option FileError × Hardware) :=
  if dev = processorNumber then .error .processorNotBindable
  else
    match hw.device? dev with
    | none => .error (.noSuchDevice dev)
    | some d =>
      match d.link, b with
      | .input _, .source job => (hw.bindSource d job).map fun hw => (none, hw)
      | .output buffer old?, .sink s => hw.bindSink d buffer old? s
      | .input _, .sink _ => .error (.wrongBinding dev "output sink")
      | .output _ _, .source _ => .error (.wrongBinding dev "program source")

/-- Detach the device with the number `dev` from what it is bound to. The answer tells why its sink
could not be closed. -/
def release (hw : Hardware) (dev : Nat) : Option FileError × Hardware :=
  match hw.device? dev with
  | none => (none, hw)
  | some d =>
    let (e, d) := d.release
    (e, hw.setDevice dev d)

/-- One tick of the processor, while a job is loaded if `live` is set. -/
def tickProcessor (hw : Hardware) (live : Bool) : Activity × Hardware :=
  let (activity, cpu) := hw.cpu.tick live
  (activity, { hw with cpu })

/-- The reader of the text that the input device `d` is bound to. -/
def sourceOf? (hw : Hardware) (d : Device) : Option Reader :=
  d.job?.bind hw.source?

/-- Take over from `t` what the device `dev` and its surroundings are after a tick. -/
def update (hw : Hardware) (dev : Nat) (t : Device.Tick) : Hardware :=
  let hw := (hw.setDevice dev t.device).setTrap t.line
  -- only an input device that is bound has a reader to give back
  match t.device.job? with
  | some job => { hw.setSource job t.source? with files := t.files }
  | none => { hw with files := t.files }

/-- One tick of the device with the number `dev`, if there is one. -/
def tickDevice (hw : Hardware) (dev : Nat) : Hardware :=
  match hw.device? dev with
  | none => hw
  | some d => hw.update dev (d.tick hw.cpu.trap (hw.sourceOf? d) hw.files)

/-- One tick of the component with the number `dev`. -/
def tick (hw : Hardware) (dev : Nat) (live : Bool) : Demand × Hardware :=
  if dev = processorNumber then
    let (activity, hw) := hw.tickProcessor live
    (activity.demand, hw)
  else (.nothing, hw.tickDevice dev)

/-- One tick of the component with the number `dev` without access to the processor's trap line. So
a device cannot signal anything and stays as it is. -/
def tickAlone (hw : Hardware) (dev : Nat) (live : Bool) : Demand × Hardware :=
  if dev = processorNumber then hw.tick dev live else (.nothing, hw)

/-- `tickDevice` for every device, in the order of their numbers. -/
def tickDevices (hw : Hardware) : Hardware :=
  Nat.fold hw.devices.size (fun i _ hw => hw.tickDevice (i + 1)) hw

end Hardware

end BatchMachine
