import BatchMachine.Proofs.DeviceTicks
import BatchMachine.Proofs.Instructions
import BatchMachine.Proofs.Serving

/-!
# The turns of the processor

In a tick held requests are offered, the processor has its turn, and if the machine has not exited
the devices tick. What the processor's turn can do is one of eleven things, each of which changes
what belongs to one job, before another job may get the processor.

* `Machine.Turn`: what the processor's turn can do.
* `Machine.turn_stepProcessor`: it does nothing else.
* `Machine.Ticks`, `Machine.ticks_of_tick`: a tick is an offer, a turn, and the ticks of the
  devices.
-/

namespace BatchMachine

open JobText

namespace Machine

variable {m m' : Machine} {j k : Nat}

/-! ## Machines that differ in their journals -/

/-- `m` and `m'` differ in their clocks and journals at most. -/
structure Agrees (m m' : Machine) : Prop where
  hardware : m'.hardware = m.hardware
  jobs : m'.jobs = m.jobs
  control : m'.control = m.control

namespace Agrees

theorem job (h : m.Agrees m') : m'.job k = m.job k := by
  unfold Machine.job
  rw [h.jobs]

theorem runs (h : m.Agrees m') : m'.runs k = m.runs k :=
  runs_congr h.control

theorem line (h : m.Agrees m') : m'.line = m.line := by
  rw [Machine.line, h.hardware, Machine.line]

theorem size (h : m.Agrees m') : m'.jobs.size = m.jobs.size :=
  congrArg Control.size h.control

theorem view (h : m.Agrees m') : m'.view k = m.view k := by
  simp only [Machine.view, regsOf, h.runs, h.job, h.hardware]

theorem wired (h : m.Agrees m') (w : m.Wired) : m'.Wired := by
  have hcurrent : m'.current = m.current := congrArg Control.current h.control
  have hidle : m'.idle = m.idle := congrArg Control.idle h.control
  constructor
  case devices => rw [h.hardware, h.size]; exact w.devices
  case sources => rw [h.hardware, h.size]; exact w.sources
  case current => rw [hcurrent, h.size]; exact w.current
  case program =>
    intro hbusy
    rw [h.hardware, h.job, hcurrent]
    exact w.program (hidle ▸ hbusy)
  case saved =>
    intro k hk
    rw [h.job]
    exact w.saved k (h.size ▸ hk)
  case input =>
    intro k hk
    rw [h.view]
    exact w.input k (h.size ▸ hk)
  case output =>
    intro k hk
    rw [h.view]
    exact w.output k (h.size ▸ hk)

end Agrees

theorem agrees_note (event : Event) : m.Agrees (m.note event) := ⟨rfl, rfl, rfl⟩

theorem agrees_openTick : m.Agrees m.openTick := ⟨rfl, rfl, rfl⟩

theorem agrees_closeTick : m.Agrees m.closeTick := ⟨rfl, rfl, rfl⟩

/-- `m'` comes from `m` by offering the held requests to the devices. -/
structure Offers (m m' : Machine) : Prop where
  wired : m'.Wired
  control : m'.control = m.control
  cpu : m'.hardware.cpu = m.hardware.cpu
  files : m'.hardware.files = m.hardware.files
  view : ∀ j < m.jobs.size, m'.view j = (m.view j).offered j

theorem Offers.agrees {m₁ : Machine} (h : m.Offers m₁) (h' : m₁.Agrees m') : m.Offers m' where
  wired := h'.wired h.wired
  control := h'.control.trans h.control
  cpu := by rw [h'.hardware, h.cpu]
  files := by rw [h'.hardware, h.files]
  view j hj := h'.view.trans (h.view j hj)

theorem Offers.size (h : m.Offers m') : m'.jobs.size = m.jobs.size :=
  congrArg Control.size h.control

theorem Offers.line (h : m.Offers m') : m'.line = m.line := by
  rw [Machine.line, h.cpu, Machine.line]

/-- A tick starts with the held requests: what `openTick` and `offerHeld` do is to offer them. -/
theorem offers_openTick (w : m.Wired) (hown : ∀ j < m.jobs.size, (m.view j).Owns j) :
    m.Offers m.openTick.offerHeld := by
  obtain ⟨hwired, hcontrol, hcpu, hfiles, hview⟩ :=
    offerHeld_spec (m := m.openTick) (agrees_openTick.wired w) hown
  exact ⟨hwired, hcontrol, hcpu, hfiles, hview⟩

/-! ## The turns -/

/-- `m'` comes from `m` by executing an instruction of the running job. -/
structure Steps (m m' : Machine) : Prop where
  wired : m'.Wired
  control : m'.control = m.control
  cpu : m'.hardware.cpu = m.hardware.cpu.step.2
  files : m'.hardware.files = m.hardware.files
  view : ∀ k, k ≠ m.current → m'.view k = m.view k
  stepped : m'.view m.current =
    { m.view m.current with
      job := { (m.view m.current).job with registers := m.hardware.cpu.step.2.regs } }

theorem Steps.segments_eq (h : m.Steps m') : ∀ k, (m'.job k).segments = (m.job k).segments :=
  segments_eq_of_view h.view (by rw [h.stepped])

/-- The segment of the running job ends with the outcome `o` and the exit status `status`: the job
is at the end of its image, or it halts. -/
def Stops (m : Machine) (o : Outcome) (status : Word) : Prop :=
  (m.line.isIdle = true ∧ m.idle = false ∧ m.hardware.cpu.atEnd = true ∧
    o = .completed ∧ status = 0) ∨
  (m.line.trap? = some .halt ∧ status = (m.hardware.cpu.regs.get? m.line.data).getD 0 ∧
    o = .halted status)

/-- What is on the line of `m` is an error of the running job: the trap is unknown, or it is a
request that names no register. -/
def Misuses (m : Machine) : Prop :=
  m.line.isIdle = false ∧ (m.line.trap? = none ∨
    ∃ side : Side, m.line.trap? = some side.request ∧ m.hardware.cpu.regs.get? m.line.data = none)

/-- What the processor's turn can make of `m`: how the machine goes on, and the machine after it. -/
inductive Turn (m : Machine) : Progress → Machine → Prop
  /-- There is nothing to run. -/
  | idles {m' : Machine} : m.line.isIdle = true → m.idle = true →
      m.Signals m.line m.culprit? m' → Turn m .running m'
  /-- The running job executes an instruction. -/
  | steps {m' : Machine} : m.line.isIdle = true → m.idle = false →
      m.hardware.cpu.atEnd = false → m.Steps m' → Turn m .running m'
  /-- A segment of the running job ends with the outcome `o`, and the next one, `image`, is
  loaded. -/
  | reloads {o : Outcome} {status : Word} {image : List Instruction} {reader : Reader}
      {m' : Machine} : m.Stops o status →
      m.Reloads m.current o m.culprit? image reader m' → Turn m .running m'
  /-- The last segment of the running job ends with the outcome `o`, and the processor turns to
  another job. -/
  | retires {o : Outcome} {status : Word} {m₁ m' : Machine} {p : Progress} :
      m.Stops o status → m.Retires m.current o m.culprit? m₁ →
      m₁.passOn status = (p, m') → Turn m p m'
  /-- An error ends a segment of the job that it is charged to, and the next one, `image`, is
  loaded. -/
  | failsOver {image : List Instruction} {reader : Reader} {m₁ m' : Machine} {p : Progress} :
      m.line.trap? = some .fatal →
      m.Reloads (m.culprit?.getD m.current) (.fatal m.line.data) none image reader m₁ →
      (if m.idle then m₁.resume (m.culprit?.getD m.current) m.line.data
        else (.running, m₁)) = (p, m') →
      Turn m p m'
  /-- An error ends the last segment of the job that it is charged to. -/
  | failsOut {m₁ m' : Machine} {p : Progress} :
      m.line.trap? = some .fatal →
      m.Retires (m.culprit?.getD m.current) (.fatal m.line.data) none m₁ →
      (if m.runs (m.culprit?.getD m.current) || m.idle then m₁.passOn m.line.data
        else (.running, m₁)) = (p, m') →
      Turn m p m'
  /-- A trap that the running job has misused becomes an error. -/
  | rejects {m' : Machine} : m.Misuses → m.Signals (.raise .fatal 0) m.culprit? m' →
      Turn m .running m'
  /-- The running job asks for a transfer on the side `side`, and names a register that holds
  `value`. -/
  | asks {side : Side} {value : Word} {m₁ : Machine} : m.line.trap? = some side.request →
      m.hardware.cpu.regs.get? m.line.data = some value →
      m.Asks side m.line.data value m₁ → Turn m .running m₁.giveWay
  /-- A completion names no device. -/
  | ignores {side : Side} {m' : Machine} : m.line.trap? = some side.completion →
      m.completedBy? m.line = none → m.Signals .clear m.culprit? m' → Turn m .running m'
  /-- A transfer of the device of job `j` on the side `side` has failed. -/
  | fails {side side' : Side} {j : Nat} {m' : Machine} : m.line.trap? = some side'.completion →
      j < m.jobs.size → Word.index? m.line.data = some (side.number j) → m.line.status ≠ 0 →
      m.Fails side j m' → Turn m .running m'
  /-- A transfer of the device of job `j` on the side `side` is done. -/
  | collects {side side' : Side} {j : Nat} {m₁ m' : Machine} {p : Progress} :
      m.line.trap? = some side'.completion →
      j < m.jobs.size → Word.index? m.line.data = some (side.number j) → m.line.status = 0 →
      m.Collects side j m₁ →
      (if m₁.idle && (m₁.job j).isRunnable then m₁.resume j 0 else (.running, m₁)) = (p, m') →
      Turn m p m'

theorem Steps.agrees {m₁ : Machine} (h : m.Steps m₁) (h' : m₁.Agrees m') : m.Steps m' where
  wired := h'.wired h.wired
  control := h'.control.trans h.control
  cpu := by rw [h'.hardware, h.cpu]
  files := by rw [h'.hardware, h.files]
  view k hk := h'.view.trans (h.view k hk)
  stepped := h'.view.trans h.stepped

/-- An executed instruction, `cpu.step`, shows in the registers of the running job. -/
theorem steps_modifyCpu (w : m.Wired) (hidle : m.idle = false) :
    m.Steps (m.modifyCpu fun cpu => cpu.step.2) where
  wired := w.modifyCpu (Processor.program_step _)
  control := rfl
  cpu := rfl
  files := rfl
  view k hk := by
    have hrun : m.runs k = false := by simp [runs, Ne.symm hk]
    rw [view_modifyCpu, hrun, if_neg (by decide)]
  stepped := by
    have hrun : m.runs m.current = true := by simp [runs, hidle]
    rw [view_modifyCpu, if_pos hrun]

theorem turn_serveRequest (w : m.Wired) (hline : m.line.isIdle = false) (side : Side)
    (htrap : m.line.trap? = some side.request) :
    m.Turn .running (m.serveRequest m.line (side = .input)) := by
  rcases serveRequest_cases w side m.line with ⟨hnone, h⟩ | ⟨value, m₁, hsome, h, heq⟩
  · exact .rejects ⟨hline, .inr ⟨side, htrap, hnone⟩⟩ h
  · rw [heq]
    exact .asks htrap hsome h

theorem turn_serveCompletion (w : m.Wired) (side : Side)
    (htrap : m.line.trap? = some side.completion) :
    m.Turn (m.serveCompletion m.line).1 (m.serveCompletion m.line).2 := by
  unfold serveCompletion
  cases hby : m.completedBy? m.line with
  | none =>
    exact .ignores htrap hby (((signals_refl w).note _).setTrap .clear)
  | some by_ =>
    obtain ⟨j, dev, d⟩ := by_
    obtain ⟨hj, hdata, side', rfl, rfl⟩ := completedBy?_eq_some w hby
    simp only
    rcases complete_cases w hj m.line rfl with
      ⟨hstatus, m', heq, h⟩ | ⟨hstatus, m₁, h, heq⟩
    · rw [heq]
      exact .fails htrap hj hdata hstatus h
    · rw [heq]
      exact .collects htrap hj hdata hstatus h rfl

theorem turn_serveHalt (w : m.Wired) (htrap : m.line.trap? = some .halt) :
    m.Turn (m.serveHalt m.line).1 (m.serveHalt m.line).2 := by
  rcases serveHalt_cases w m.line with ⟨m', image, reader, heq, h⟩ | ⟨m₁, heq, h⟩
  · rw [heq]
    exact .reloads (.inr ⟨htrap, rfl, rfl⟩) h
  · rw [heq]
    exact .retires (.inr ⟨htrap, rfl, rfl⟩) h rfl

theorem turn_serveFatal (w : m.Wired) (hculprit : ∀ j, m.culprit? = some j → j < m.jobs.size)
    (htrap : m.line.trap? = some .fatal) :
    m.Turn (m.serveFatal m.line).1 (m.serveFatal m.line).2 := by
  rcases serveFatal_cases w hculprit m.line with ⟨m₁, image, reader, h, heq⟩ | ⟨m₁, h, heq⟩
  · rw [heq]
    exact .failsOver htrap h rfl
  · rw [heq]
    exact .failsOut htrap h rfl

theorem turn_serveSegmentEnd (w : m.Wired) (hline : m.line.isIdle = true)
    (hbusy : m.idle = false) (hend : m.hardware.cpu.atEnd = true) :
    m.Turn m.serveSegmentEnd.1 m.serveSegmentEnd.2 := by
  rcases serveSegmentEnd_cases w hline with ⟨m', image, reader, heq, h⟩ | ⟨m₁, heq, h⟩
  · rw [heq]
    exact .reloads (.inl ⟨hline, hbusy, hend, rfl, rfl⟩) h
  · rw [heq]
    exact .retires (.inl ⟨hline, hbusy, hend, rfl, rfl⟩) h rfl

/-- A trap that is pending is served by `serveTrap` in one of these ways. -/
theorem turn_serveTrap (w : m.Wired) (hculprit : ∀ j, m.culprit? = some j → j < m.jobs.size)
    (hline : m.line.isIdle = false) :
    (m.note (.interrupt m.line)).Turn m.serveTrap.1 m.serveTrap.2 := by
  -- the journal comes first, and then the trap is looked at
  have hagrees : m.Agrees (m.note (.interrupt m.line)) := agrees_note _
  have w₁ := hagrees.wired w
  have hline₁ : (m.note (.interrupt m.line)).line.isIdle = false := hline
  have hculprit₁ : ∀ j, (m.note (.interrupt m.line)).culprit? = some j →
      j < (m.note (.interrupt m.line)).jobs.size := hculprit
  unfold serveTrap
  rw [← line]
  cases htrap : m.line.trap? with
  | none =>
    simp only [htrap]
    exact .rejects ⟨hline₁, .inl htrap⟩ (((signals_refl w₁).note _).setTrap _)
  | some trap =>
    simp only [htrap]
    cases trap with
    | halt => exact turn_serveHalt w₁ htrap
    | getw => exact turn_serveRequest w₁ hline₁ .input htrap
    | putw => exact turn_serveRequest w₁ hline₁ .output htrap
    | fatal => exact turn_serveFatal w₁ hculprit₁ htrap
    | getwReady => exact turn_serveCompletion w₁ .input htrap
    | putwReady => exact turn_serveCompletion w₁ .output htrap

/-- What the processor does in a tick, `cpu.tick`, the machine does, but for the journal. -/
theorem tickProcessor_eq {activity : Activity} {cpu : Processor}
    (h : m.hardware.cpu.tick (!m.idle) = (activity, cpu)) :
    ∃ m', m.tickProcessor = (activity, m') ∧ (m.modifyCpu fun _ => cpu).Agrees m' := by
  unfold tickProcessor Hardware.tickProcessor
  rw [h]
  exact ⟨_, rfl, rfl, rfl, rfl⟩

/-- The processor is interrupted, idles, finds its image at an end, or executes an instruction. -/
theorem tickProcessor_cases (hpc : m.idle = true → m.hardware.cpu.regs.pc = Registers.idlePc) :
    (m.line.isIdle = false ∧ ∃ m', m.tickProcessor = (.interrupted, m') ∧ m.Agrees m') ∨
    (m.line.isIdle = true ∧
      ((m.idle = true ∧
        ∃ m', m.tickProcessor = (.idled, m') ∧ (m.modifyCpu Processor.idle).Agrees m') ∨
      (m.idle = false ∧ m.hardware.cpu.atEnd = true ∧
        ∃ m', m.tickProcessor = (.ended, m') ∧ m.Agrees m') ∨
      (m.idle = false ∧ m.hardware.cpu.atEnd = false ∧
        ∃ m', m.tickProcessor = (.stepped m.hardware.cpu.step.1, m') ∧
          (m.modifyCpu fun cpu => cpu.step.2).Agrees m'))) := by
  by_cases hline : m.line.isIdle = true
  · refine .inr ⟨hline, ?_⟩
    have htrap : m.hardware.cpu.trap.isIdle = true := hline
    by_cases hidle : m.idle = true
    · have hnegative : m.hardware.cpu.regs.isIdle = true := by
        rw [Registers.isIdle, hpc hidle]
        rfl
      exact .inl ⟨hidle, tickProcessor_eq (by simp [Processor.tick, htrap, hidle, hnegative])⟩
    -- while a job is loaded its image decides, for the processor is told that it is not idle
    · have hbusy : m.idle = false := by simpa using hidle
      by_cases hend : m.hardware.cpu.atEnd = true
      · exact .inr (.inl ⟨hbusy, hend,
          tickProcessor_eq (by simp [Processor.tick, htrap, hbusy, hend])⟩)
      · exact .inr (.inr ⟨hbusy, by simpa using hend,
          tickProcessor_eq (by simp [Processor.tick, htrap, hbusy, hend])⟩)
  · have hbusy : m.line.isIdle = false := Bool.eq_false_iff.2 hline
    have htrap : m.hardware.cpu.trap.isIdle = false := hbusy
    exact .inl ⟨hbusy, tickProcessor_eq (by simp [Processor.tick, htrap])⟩

/-- `stepProcessor` does nothing else. When no job is loaded, the program counter says so. -/
theorem turn_stepProcessor (w : m.Wired) (hculprit : ∀ j, m.culprit? = some j → j < m.jobs.size)
    (hpc : m.idle = true → m.hardware.cpu.regs.pc = Registers.idlePc) :
    ∃ m₀, m.Agrees m₀ ∧ m₀.Turn m.stepProcessor.1 m.stepProcessor.2 := by
  unfold stepProcessor
  rcases tickProcessor_cases hpc with
    ⟨hline, m', htick, h⟩ | ⟨hline, ⟨hidle, m', htick, h⟩ | ⟨hidle, hend, m', htick, h⟩ |
      ⟨hidle, hend, m', htick, h⟩⟩
  · simp only [htick, Activity.demand]
    have hculprit' : ∀ j, m'.culprit? = some j → j < m'.jobs.size := by
      rw [show m'.culprit? = m.culprit? from congrArg Control.culprit? h.control, h.size]
      exact hculprit
    exact ⟨m'.note (.interrupt m'.line), ⟨h.hardware, h.jobs, h.control⟩,
      turn_serveTrap (h.wired w) hculprit' (h.line ▸ hline)⟩
  · -- the processor that idles counts its tick, which no job can see
    simp only [htick, Activity.demand]
    refine ⟨m, ⟨rfl, rfl, rfl⟩, .idles hline hidle
      ⟨h.wired (w.modifyCpu rfl), h.control, h.line, ?_, ?_, fun k => ?_⟩⟩
    · rw [h.hardware]
      rfl
    · rw [h.hardware]
      rfl
    · have hrun : m.runs k = false := by simp [runs, hidle]
      rw [h.view, view_modifyCpu, hrun, if_neg (by decide)]
  · simp only [htick, Activity.demand]
    have hidle' : m'.idle = false := (congrArg Control.idle h.control).trans hidle
    exact ⟨m', h, turn_serveSegmentEnd (h.wired w) (h.line ▸ hline) hidle'
      (by rw [h.hardware]; exact hend)⟩
  · simp only [htick, Activity.demand]
    exact ⟨m, ⟨rfl, rfl, rfl⟩, .steps hline hidle hend ((steps_modifyCpu w hidle).agrees h)⟩

/-! ## Ticks -/

/-- `m'` comes from `m` by a tick that says `p`: held requests are offered, the processor has its
turn, and unless it exits the devices tick. -/
def Ticks (m : Machine) (p : Progress) (m' : Machine) : Prop :=
  ∃ m₀ m₁, m.Offers m₀ ∧ m₀.Turn p m₁ ∧
    ((∃ status, p = .exited status ∧ m₁.Agrees m') ∨
      (p = .running ∧ m₁.tickDevices.Agrees m'))

/-- `tick` does nothing else. -/
theorem ticks_of_tick (w : m.Wired) (hown : ∀ j < m.jobs.size, (m.view j).Owns j)
    (hculprit : ∀ j, m.culprit? = some j → j < m.jobs.size)
    (hpc : m.idle = true → m.hardware.cpu.regs.pc = Registers.idlePc) {p : Progress}
    (h : m.tick = (p, m')) : m.Ticks p m' := by
  have hoffer := offers_openTick w hown
  have hsize := hoffer.size
  have hculprit₀ : ∀ j, m.openTick.offerHeld.culprit? = some j →
      j < m.openTick.offerHeld.jobs.size := by
    rw [hsize, show m.openTick.offerHeld.culprit? = m.culprit? from
      congrArg Control.culprit? hoffer.control]
    exact hculprit
  have hpc₀ : m.openTick.offerHeld.idle = true →
      m.openTick.offerHeld.hardware.cpu.regs.pc = Registers.idlePc := by
    rw [hoffer.cpu, show m.openTick.offerHeld.idle = m.idle from
      congrArg Control.idle hoffer.control]
    exact hpc
  -- what the turn needs of the culprit and of the program counter has survived the offers
  obtain ⟨m₀, hagrees, hturn⟩ := turn_stepProcessor hoffer.wired hculprit₀ hpc₀
  refine ⟨m₀, m.openTick.offerHeld.stepProcessor.2, hoffer.agrees hagrees, ?_⟩
  unfold tick at h
  -- `tick` splits the pair that the turn returns, so the pair is taken apart first
  revert h hturn
  generalize m.openTick.offerHeld.stepProcessor = turn
  obtain ⟨q, m₁⟩ := turn
  intro h hturn
  cases q with
  | exited status =>
    simp only [Prod.mk.injEq] at h
    obtain ⟨rfl, rfl⟩ := h
    exact ⟨hturn, .inl ⟨status, rfl, agrees_closeTick⟩⟩
  | running =>
    simp only [Prod.mk.injEq] at h
    obtain ⟨rfl, rfl⟩ := h
    exact ⟨hturn, .inr ⟨rfl, agrees_closeTick⟩⟩

end Machine

end BatchMachine
