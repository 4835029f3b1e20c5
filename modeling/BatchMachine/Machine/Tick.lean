import BatchMachine.Machine.Interrupt

/-!
# Ticks and runs

In every tick held requests are offered again, then the processor ticks, what it leaves to be
done is done, and at last the devices tick in the order of their numbers. Nothing ticks after an
exit. A run is ticks until an exit, or until the budget of ticks is used up.

* `Machine.tick`: one tick.
* `Machine.run`: a run, with its report.
-/

namespace BatchMachine

/-- What `run` reports. -/
structure Report where
  /-- The exit status, zero if there was no exit. -/
  status : Word
  /-- The number of ticks. -/
  ticks : Nat
  /-- The budget was used up before the jobs were done. -/
  budgetExhausted : Bool
  /-- The number of instructions executed. -/
  instructions : Nat
  /-- The number of ticks without anything to run. -/
  idleTicks : Nat
  /-- How often a job was loaded into the processor. -/
  switches : Nat
  /-- The jobs. -/
  jobs : List JobReport
  deriving DecidableEq

namespace Machine

/-- One tick of the processor, noted in the journal. -/
def tickProcessor (m : Machine) : Activity × Machine :=
  let cpu := m.hardware.cpu
  let (activity, hardware) := m.hardware.tickProcessor (!m.idle)
  (activity, { m with hardware }.noteAll processorNumber (cpu.tickEvents activity))

/-- One tick of the device with the number `dev`, noted in the journal. -/
def tickDevice (m : Machine) (dev : Nat) : Machine :=
  match m.hardware.device? dev with
  | none => m
  | some d =>
    let free := m.hardware.cpu.trap.isIdle
    let t := d.tick m.hardware.cpu.trap (m.hardware.sourceOf? d) m.hardware.files
    { m with hardware := m.hardware.update dev t }.noteAll dev (d.tickEvents free t)

/-- One tick of every device, in the order of their numbers. -/
def tickDevices (m : Machine) : Machine :=
  Nat.fold m.hardware.devices.size (fun i _ m => m.tickDevice (i + 1)) m

/-- What `m.tickProcessor` does to the hardware is `Hardware.tickProcessor`, without a journal. -/
theorem hardware_tickProcessor (m : Machine) :
    m.tickProcessor.2.hardware = (m.hardware.tickProcessor (!m.idle)).2 := rfl

/-- What `m.tickDevice dev` does to the hardware is `Hardware.tickDevice`, without a journal. -/
theorem hardware_tickDevice (m : Machine) (dev : Nat) :
    (m.tickDevice dev).hardware = m.hardware.tickDevice dev := by
  unfold tickDevice Hardware.tickDevice
  cases m.hardware.device? dev <;> rfl

/-- One tick of the processor, and the work that its `Activity.demand` leaves for the scheduler. -/
def stepProcessor (m : Machine) : Progress × Machine :=
  let (activity, m) := m.tickProcessor
  match activity.demand with
  | .nothing => (.running, m)
  | .interrupt => m.serveTrap
  | .segmentEnd => m.serveSegmentEnd

/-- Start a tick: count it in `clock`, and let the journal say so. -/
def openTick (m : Machine) : Machine :=
  { m with clock := m.clock + 1, journal := { m.journal with tick? := some (m.clock + 1) } }

/-- End a tick. -/
def closeTick (m : Machine) : Machine :=
  { m with journal := { m.journal with tick? := none } }

/-- One tick: held requests are offered, the processor ticks and, unless the machine exits, all
devices. -/
def tick (m : Machine) : Progress × Machine :=
  match m.openTick.offerHeld.stepProcessor with
  | (.exited status, m) => (.exited status, m.closeTick)
  | (.running, m) => (.running, m.tickDevices.closeTick)

/-- At most `n` ticks, up to an exit. The answer is the exit status, if there was an exit. -/
def tickUpTo : Nat → Machine → Option Word × Machine
  | 0, m => (none, m)
  | n + 1, m =>
    match m.tick with
    | (.exited status, m) => (some status, m)
    | (.running, m) => tickUpTo n m

/-- Release all devices. -/
def releaseAll (m : Machine) : Machine :=
  Nat.fold m.jobs.size (fun j _ m => m.releaseJob j) m

/-- `tick` until an exit, or until the budget of ticks is used up, and then release all devices. -/
def run (m : Machine) : Report × Machine :=
  -- the ticks that were made before the run count too
  let (status?, m) := tickUpTo (m.config.maxTicks - m.clock) m
  let m := if status?.isNone then m.note (.budgetExhausted m.config.maxTicks) else m
  let m := m.releaseAll
  ({ status := status?.getD 0
     ticks := m.clock
     budgetExhausted := status?.isNone
     instructions := m.hardware.cpu.cycles
     idleTicks := m.hardware.cpu.idleTicks
     switches := m.switches
     jobs := m.jobReports }, m)

end Machine

end BatchMachine
