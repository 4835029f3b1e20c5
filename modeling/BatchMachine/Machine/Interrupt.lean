import BatchMachine.Machine.Schedule

/-!
# Interrupts

The machine acts when a trap is pending on the processor's line, and when the running job comes
to the end of its image. Input and output have two phases: a job asks for a transfer, the request
goes to the job's device and another job runs; later the device signals that it is done, and the
job can run again.

* `Machine.serveTrap`: act on the pending trap.
* `Machine.serveSegmentEnd`: act on the end of the image.
* `Machine.offerHeld`: offer held requests to their devices again.
-/

namespace BatchMachine

namespace Machine

/-- After a segment of job `j` has ended while it ran: its next segment, another job, or the exit
with `status`. -/
def retire (m : Machine) (j : Nat) (status : Word) : Progress × Machine :=
  match m.endSegment j with
  | (true, m) => (.running, m)
  | (false, m) => m.passOn status

/-- Remember that the segment of job `j` ended with `outcome`. -/
def setOutcome (m : Machine) (j : Nat) (outcome : Outcome) : Machine :=
  m.modifyJob j fun job => { job with outcome? := some outcome }

/-- Act on the end of the image: the segment ends as `completed`, with status zero. -/
def serveSegmentEnd (m : Machine) : Progress × Machine :=
  let j := m.current
  let m := m.note (.reachedEnd j)
  (m.setOutcome j .completed).retire j 0

/-- Act on a halt: the segment ends with the status in the register that `line.data` names. -/
def serveHalt (m : Machine) (line : TrapLine) : Progress × Machine :=
  let j := m.current
  let status := (m.hardware.cpu.regs.get? line.data).getD 0
  let m := (m.setTrap .clear).note (.halted j status)
  (m.setOutcome j (.halted status)).retire j status

/-- Let job `j` run, which just became able to while no other could. If it cannot be loaded, the
search goes on, and an exit is one with `status`. -/
def resume (m : Machine) (j : Nat) (status : Word) : Progress × Machine :=
  match m.activate j with
  | (.ok (), m) => (.running, m)
  | (.error e, m) => (m.giveUp j e).passOn status

/-- Act on an error. It is charged to `m.culprit?`, the job whose device reported it, or else to the
running job. If another job runs, it goes on; a job with a next segment waits for its turn. -/
def serveFatal (m : Machine) (line : TrapLine) : Progress × Machine :=
  let j := m.culprit?.getD m.current
  let ran := m.runs j
  let m := ({ m with culprit? := none }.setTrap .clear).note (.failed j line.data)
  match (m.setOutcome j (.fatal line.data)).endSegment j with
  | (true, m) => if m.idle then m.resume j line.data else (.running, m)
  | (false, m) => if ran || m.idle then m.passOn line.data else (.running, m)

/-- Offer the held request of job `j` to its device, which takes it if it is idle. -/
def offer (m : Machine) (j : Nat) : Machine :=
  match (m.job j).pending? with
  | none => m
  | some request =>
    match m.hardware.device? request.device with
    | none => m
    | some d =>
      if d.isIdle then
        let line := TrapLine.raise request.trap request.data
        let m := { m with hardware := m.hardware.setDevice request.device { d with trap := line } }
        (m.modifyJob j fun job => { job with pending? := none }).note (.requested request)
      -- the device is still at work, and the request is offered again in the next tick
      else m.note (.requestHeld request.device)

/-- Offer all held requests to their devices again, in the order of the job table. -/
def offerHeld (m : Machine) : Machine :=
  Nat.fold m.jobs.size (fun j _ m => m.offer j) m

/-- Job `j`, which runs, waits for `request`; another job gets the processor, if one can run. -/
def await (m : Machine) (j : Nat) (request : DeviceRequest) : Machine :=
  let m := m.note (.waits j request)
  let m := m.modifyJob j fun job =>
    { job with life := .waiting, pending? := some request }
  match (m.offer j).rotate with
  | (true, m) => m
  | (false, m) => m.unload

/-- Act on a request for an input word, to go into the register that `line.data` names. -/
def serveInput (m : Machine) (line : TrapLine) : Machine :=
  let j := m.current
  let m := m.modifyJob j fun job => { job with target? := some line.data }
  m.await j ⟨inputNumber j, .getw, 0⟩

/-- Act on a request to write the word `value`. -/
def serveOutput (m : Machine) (value : Word) : Machine :=
  let j := m.current
  m.await j ⟨outputNumber j, .putw, value⟩

/-- Act on a request, for an input word or, if `input` is `false`, to write a word. The register
that `line.data` names must exist, or else the request is an error. -/
def serveRequest (m : Machine) (line : TrapLine) (input : Bool) : Machine :=
  let m := m.setTrap .clear
  match m.hardware.cpu.regs.get? line.data with
  | none =>
    let m := m.note (.badRequest m.current (if input then .getw else .putw) line.data)
    m.setTrap (.raise .fatal 0)
  | some value => if input then m.serveInput line else m.serveOutput value

/-- Put the input word `value` into a register of job `j`, in the processor if the job runs and in
the job table otherwise. -/
def deliver (m : Machine) (j : Nat) (register value : Word) : Machine :=
  let m :=
    if m.runs j then
      m.modifyCpu fun cpu => { cpu with regs := cpu.regs.set register value }
    else
      m.modifyJob j fun job => { job with registers := job.registers.set register value }
  m.note (.delivered j register value)

/-- Fetch the word `value?` of an input device for job `j`, into the register that the job has named
in `target?`. -/
def collect (m : Machine) (j : Nat) (value? : Option Word) : Machine :=
  let target? := (m.job j).target?
  let m := m.modifyJob j fun job => { job with target? := none }
  match value?, target? with
  | some value, some register => m.deliver j register value
  | _, _ => m

/-- End the wait of job `j`. -/
def wake (m : Machine) (j : Nat) : Machine :=
  m.modifyJob j fun job =>
    { job with life := if job.life = .waiting then .runnable else job.life }

/-- Act on the transfer of the device `dev` of job `j` that `line` reports: fetch the word, and wake
the job. A failed transfer becomes an error of the job. -/
def complete (m : Machine) (line : TrapLine) (j dev : Nat) (d : Device) :
    Progress × Machine :=
  let m := { m with hardware := m.hardware.setDevice dev { d with trap := .clear } }
  if line.status ≠ 0 then
    let m := m.note (.transferFailed dev j)
    (.running, { m.setTrap (.raise .fatal line.data) with culprit? := some j })
  else
    let m := ((m.collect j d.value?).setTrap .clear).wake j
    -- while another job runs, the one that has been woken waits for its turn
    if m.idle && (m.job j).isRunnable then m.resume j 0 else (.running, m)

/-- The job and the device `line.data` that a completion names, if there are such. -/
def completedBy? (m : Machine) (line : TrapLine) : Option (Nat × Nat × Device) := do
  let dev := (Word.index? line.data).getD processorNumber
  let j ← ownerOf? dev
  let d ← m.hardware.device? dev
  if j < m.jobs.size then some (j, dev, d) else none

/-- Act on a completion: `complete` the transfer that `completedBy?` finds, or ignore it. -/
def serveCompletion (m : Machine) (line : TrapLine) : Progress × Machine :=
  match m.completedBy? line with
  | none => (.running, (m.note (.unknownDevice line.data)).setTrap .clear)
  | some (j, dev, d) => m.complete line j dev d

/-- Act on a trap with an unknown number: it is an error of the running job. -/
def serveUnknown (m : Machine) (line : TrapLine) : Machine :=
  (m.note (.unknownInterrupt line.number)).setTrap (.raise .fatal 0)

/-- Act on the trap that is pending on the processor's line, by its number. -/
def serveTrap (m : Machine) : Progress × Machine :=
  let line := m.hardware.cpu.trap
  let m := m.note (.interrupt line)
  match line.trap? with
  | some .halt => m.serveHalt line
  | some .fatal => m.serveFatal line
  | some .getw => (.running, m.serveRequest line true)
  | some .putw => (.running, m.serveRequest line false)
  | some .getwReady | some .putwReady => m.serveCompletion line
  | none => (.running, m.serveUnknown line)

end Machine

end BatchMachine
