import BatchMachine.Machine.Tick

/-!
# Jobs with what belongs to them

The registers of a job are in the processor while it runs and in the job table otherwise; its
text and its devices are kept with those of the other jobs. `Machine.view` gathers what belongs
to one job, wherever the machine keeps it. A view does not tell whether the job runs, so that
loading a job into the processor, saving it and idling change no view at all.

* `Machine.regsOf`: the registers of a job, wherever they are.
* `Machine.view`: a job with its registers, its text and its devices.
* `Machine.control`: what the scheduler remembers.
* `Machine.Wired`: every job has its text and its two devices at their places, and the processor
  holds the image of the job that runs.
-/

namespace BatchMachine

open JobText

/-- A job with everything that belongs to it: what `Machine.view` shows of it. -/
structure View where
  /-- The slot of the job table, with the registers that the job would run on next, and with
  nothing on its trap line. -/
  job : Job
  /-- The reader of the job's text. -/
  source? : Option Reader
  /-- The input device. -/
  input : Device
  /-- The output device. -/
  output : Device

/-- The two devices of a job. -/
inductive Side where
  /-- The input device. -/
  | input
  /-- The output device. -/
  | output
  deriving DecidableEq

namespace Side

/-- The number of the device of a job on this side, by the number of the job. -/
def number : Side → Nat → Nat
  | input => inputNumber
  | output => outputNumber

/-- The request that the device on this side takes. -/
def request : Side → Trap
  | input => .getw
  | output => .putw

/-- The trap that says that the device on this side is done. -/
def completion : Side → Trap
  | input => .getwReady
  | output => .putwReady

@[simp]
theorem request_ne_halt (side : Side) : side.request ≠ .halt := by
  cases side <;> decide

@[simp]
theorem request_ne_fatal (side : Side) : side.request ≠ .fatal := by
  cases side <;> decide

@[simp]
theorem completion_ne_halt (side : Side) : side.completion ≠ .halt := by
  cases side <;> decide

@[simp]
theorem completion_ne_fatal (side : Side) : side.completion ≠ .fatal := by
  cases side <;> decide

@[simp]
theorem request_ne_completion (side side' : Side) : side.request ≠ side'.completion := by
  cases side <;> cases side' <;> decide

theorem request_inj {side side' : Side} : side.request = side'.request ↔ side = side' := by
  cases side <;> cases side' <;> decide

theorem completion_inj {side side' : Side} : side.completion = side'.completion ↔ side = side' := by
  cases side <;> cases side' <;> decide

theorem number_ne_zero (side : Side) (j : Nat) : side.number j ≠ 0 := by
  cases side <;> simp [number, inputNumber, outputNumber]

/-- `side.number j` tells `side` and `j`. -/
theorem number_inj {side side' : Side} {j k : Nat} :
    side.number j = side'.number k ↔ side = side' ∧ j = k := by
  cases side <;> cases side' <;> simp [number, inputNumber, outputNumber] <;> omega

theorem ownerOf?_number (side : Side) (j : Nat) : ownerOf? (side.number j) = some j := by
  cases side
  · exact ownerOf?_inputNumber j
  · exact ownerOf?_outputNumber j

/-- Every device but the processor belongs to a job: the device `dev` of job `j` is the one on some
`side`. -/
theorem exists_number {dev j : Nat} (h : ownerOf? dev = some j) :
    ∃ side : Side, dev = side.number j := by
  unfold ownerOf? at h
  split at h
  · simp at h
  · simp only [Option.some.injEq] at h
    rcases Nat.mod_two_eq_zero_or_one dev with hmod | hmod
    · exact ⟨.output, by simp only [number, outputNumber]; omega⟩
    · exact ⟨.input, by simp only [number, inputNumber]; omega⟩

end Side

namespace View

/-- The device of `v` on the given side. -/
def device (v : View) : Side → Device
  | .input => v.input
  | .output => v.output

/-- `v` with its device on the side `side` replaced by `d`. -/
def withDevice (v : View) (side : Side) (d : Device) : View :=
  match side with
  | .input => { v with input := d }
  | .output => { v with output := d }

@[simp]
theorem job_withDevice (v : View) (side : Side) (d : Device) :
    (v.withDevice side d).job = v.job := by
  cases side <;> rfl

@[simp]
theorem source?_withDevice (v : View) (side : Side) (d : Device) :
    (v.withDevice side d).source? = v.source? := by
  cases side <;> rfl

theorem device_withDevice (v : View) (side side' : Side) (d : Device) :
    (v.withDevice side d).device side' = if side' = side then d else v.device side' := by
  cases side <;> cases side' <;> rfl

end View

/-- What the scheduler remembers, apart from the job table: what `Machine.control` shows. -/
structure Control where
  /-- The number of jobs. -/
  size : Nat
  /-- The job that runs, or the one that ran last. -/
  current : Nat
  /-- No job is loaded. -/
  idle : Bool
  /-- The job to charge with the next error. -/
  culprit? : Option Nat
  /-- How often a job was loaded into the processor. -/
  switches : Nat
  /-- The configuration. -/
  config : Config

/-- `f` is a change to a job that neither looks at nor changes its registers, its trap line and its
image. -/
def Job.Administrative (f : Job → Job) : Prop :=
  ∀ job registers trap image,
    f { job with registers, trap, image } = { f job with registers, trap, image }

namespace Device

/-- `d` is the input device of job `j`, bound to `j` or to no job. -/
def IsInputOf (d : Device) (j : Nat) : Prop :=
  d.number = inputNumber j ∧ (d.link = .input none ∨ d.link = .input (some j))

/-- `d` is the output device of job `j`. -/
def IsOutputOf (d : Device) (j : Nat) : Prop :=
  d.number = outputNumber j ∧ ∃ buffer sink?, d.link = .output buffer sink?

/-- `d` is the device on the given side of a job. -/
def IsOf (d : Device) : Side → Nat → Prop
  | .input => d.IsInputOf
  | .output => d.IsOutputOf

theorem IsOf.number {d : Device} {side : Side} {j : Nat} (h : d.IsOf side j) :
    d.number = side.number j := by
  cases side <;> exact h.1

/-- What is on the trap line of `d` does not tell whose it is. -/
theorem IsOf.withTrap {d : Device} {side : Side} {j : Nat} (h : d.IsOf side j) (trap : TrapLine) :
    { d with trap }.IsOf side j := by
  cases side <;> exact h

end Device

namespace Machine

variable {m : Machine} {j k : Nat}

/-- The registers of job `j`, in the processor if it runs and in the job table otherwise. -/
def regsOf (m : Machine) (j : Nat) : Registers :=
  if m.runs j then m.hardware.cpu.regs else (m.job j).registers

/-- `m.view j`: job `j` with everything that belongs to it. -/
def view (m : Machine) (j : Nat) : View where
  job := { m.job j with registers := m.regsOf j, trap := .clear }
  source? := m.hardware.source? j
  input := (m.hardware.device? (inputNumber j)).getD (.newInput j 0)
  output := (m.hardware.device? (outputNumber j)).getD (.newOutput j 0)

/-- What the scheduler of `m` remembers. -/
def control (m : Machine) : Control :=
  ⟨m.jobs.size, m.current, m.idle, m.culprit?, m.switches, m.config⟩

/-- The trap line of the processor. -/
def line (m : Machine) : TrapLine := m.hardware.cpu.trap

/-- `m` is put together well: every job has its text and its two devices at their places, no saved
job has a trap pending, and the processor holds the image of the job that runs. -/
structure Wired (m : Machine) : Prop where
  devices : m.hardware.devices.size = 2 * m.jobs.size
  sources : m.hardware.sources.size = m.jobs.size
  current : m.current < m.jobs.size
  program : m.idle = false → m.hardware.cpu.program = (m.job m.current).image
  saved : ∀ j < m.jobs.size, (m.job j).trap.isIdle = true
  input : ∀ j < m.jobs.size, (m.view j).input.IsInputOf j
  output : ∀ j < m.jobs.size, (m.view j).output.IsOutputOf j

/-! ## Projections -/

@[simp] theorem view_name : (m.view j).job.name = (m.job j).name := rfl
@[simp] theorem view_image : (m.view j).job.image = (m.job j).image := rfl
@[simp] theorem view_segments : (m.view j).job.segments = (m.job j).segments := rfl
@[simp] theorem view_boot : (m.view j).job.boot = (m.job j).boot := rfl
@[simp] theorem view_life : (m.view j).job.life = (m.job j).life := rfl
@[simp] theorem view_target? : (m.view j).job.target? = (m.job j).target? := rfl
@[simp] theorem view_pending? : (m.view j).job.pending? = (m.job j).pending? := rfl
@[simp] theorem view_outcome? : (m.view j).job.outcome? = (m.job j).outcome? := rfl
@[simp] theorem view_registers : (m.view j).job.registers = m.regsOf j := rfl
@[simp] theorem view_source? : (m.view j).source? = m.hardware.source? j := rfl

/-- Where job `j` keeps its number of segments and nothing else changes, all jobs keep theirs. -/
theorem segments_eq_of_view {m' : Machine} (hview : ∀ k, k ≠ j → m'.view k = m.view k)
    (hown : (m'.view j).job.segments = (m.view j).job.segments) (k : Nat) :
    (m'.job k).segments = (m.job k).segments := by
  rw [← view_segments, ← view_segments]
  by_cases hk : k = j
  · rw [hk, hown]
  · rw [hview k hk]

/-- Where job `j` loads a segment and nothing else changes, it is the only one to do so. -/
theorem segments_succ_iff_of_view {m' : Machine} (hview : ∀ k, k ≠ j → m'.view k = m.view k)
    (hown : (m'.view j).job.segments = (m.view j).job.segments + 1) :
    (m'.job k).segments = (m.job k).segments + 1 ↔ k = j := by
  rw [← view_segments, ← view_segments]
  by_cases hk : k = j
  · rw [hk, hown]
    exact iff_of_true rfl rfl
  · rw [hview k hk]
    exact iff_of_false (Nat.succ_ne_self _).symm hk

/-- Machines with the same `control` agree on which job runs. -/
theorem runs_congr {m' : Machine} (h : m'.control = m.control) : m'.runs j = m.runs j := by
  have hc := congrArg Control.current h
  have hi := congrArg Control.idle h
  simp only [control] at hc hi
  simp [runs, hc, hi]

theorem runs_eq_true_iff : m.runs j = true ↔ m.idle = false ∧ m.current = j := by
  simp [runs]

/-- In a well wired machine the input device of job `j` is at its place. -/
theorem device?_inputNumber (w : m.Wired) (hj : j < m.jobs.size) :
    m.hardware.device? (inputNumber j) = some (m.view j).input := by
  have hlt : 2 * j < m.hardware.devices.size := by have := w.devices; omega
  simp [view, Hardware.device?, inputNumber, hlt]

/-- In a well wired machine the output device of job `j` is at its place. -/
theorem device?_outputNumber (w : m.Wired) (hj : j < m.jobs.size) :
    m.hardware.device? (outputNumber j) = some (m.view j).output := by
  have hlt : 2 * j + 1 < m.hardware.devices.size := by have := w.devices; omega
  simp [view, Hardware.device?, outputNumber, hlt]

/-- In a well wired machine the devices of job `j` are at their places. -/
theorem device?_number (w : m.Wired) (hj : j < m.jobs.size) (side : Side) :
    m.hardware.device? (side.number j) = some ((m.view j).device side) := by
  cases side
  · exact device?_inputNumber w hj
  · exact device?_outputNumber w hj

theorem Wired.isOf (w : m.Wired) (hj : j < m.jobs.size) (side : Side) :
    ((m.view j).device side).IsOf side j := by
  cases side
  · exact w.input j hj
  · exact w.output j hj

/-! ## Changes to one slot of the job table -/

theorem job_modifyJob (f : Job → Job) (hj : j < m.jobs.size) :
    (m.modifyJob j f).job k = if k = j then f (m.job k) else m.job k := by
  have hget : (m.modifyJob j f).jobs[k]? = if j = k then m.jobs[k]?.map f else m.jobs[k]? := by
    simp [modifyJob, Array.getElem?_modify]
  by_cases h : k = j
  · subst h
    simp only [job, Array.getD_eq_getD_getElem?, hget]
    simp [hj]
  · simp [job, Array.getD_eq_getD_getElem?, hget, h, Ne.symm h]

@[simp]
theorem size_modifyJob (f : Job → Job) : (m.modifyJob j f).jobs.size = m.jobs.size := by
  simp [modifyJob]

@[simp]
theorem control_modifyJob (f : Job → Job) : (m.modifyJob j f).control = m.control := by
  simp [control, modifyJob]

/-- What the administrative change `f` leaves as it is. -/
theorem eq_of_administrative {f : Job → Job} (hf : Job.Administrative f) (job : Job) :
    (f job).registers = job.registers ∧ (f job).trap = job.trap ∧ (f job).image = job.image := by
  have h : f job = { f job with
      registers := job.registers, trap := job.trap, image := job.image } :=
    hf job job.registers job.trap job.image
  have hregisters := congrArg Job.registers h
  have htrap := congrArg Job.trap h
  have himage := congrArg Job.image h
  exact ⟨hregisters, htrap, himage⟩

theorem regsOf_modifyJob {f : Job → Job} (hf : Job.Administrative f) (hj : j < m.jobs.size) :
    (m.modifyJob j f).regsOf k = m.regsOf k := by
  have hruns : (m.modifyJob j f).runs k = m.runs k := rfl
  simp only [regsOf, hruns, job_modifyJob f hj]
  split
  · rfl
  · split
    · exact (eq_of_administrative hf _).1
    · rfl

theorem view_modifyJob {f : Job → Job} (hf : Job.Administrative f) (hj : j < m.jobs.size) :
    (m.modifyJob j f).view k =
      if k = j then { m.view k with job := f (m.view k).job } else m.view k := by
  by_cases h : k = j
  · subst h
    -- the view puts other registers and another trap line into the slot, which `f` does not see
    have hkeep := hf (m.job k) (m.regsOf k) .clear (m.job k).image
    have himage := (eq_of_administrative hf (m.job k)).2.2
    simp only [view, regsOf_modifyJob hf hj, job_modifyJob f hj, if_true, hkeep, himage]
    rfl
  · simp only [view, regsOf_modifyJob hf hj, job_modifyJob f hj, h, if_false]
    rfl

theorem Wired.modifyJob (w : m.Wired) {f : Job → Job} (hf : Job.Administrative f)
    (hj : j < m.jobs.size) : (m.modifyJob j f).Wired where
  devices := w.devices.trans (by rw [size_modifyJob])
  sources := w.sources.trans (size_modifyJob f).symm
  current := by
    rw [size_modifyJob]
    exact w.current
  program hidle := by
    rw [job_modifyJob f hj]
    have := w.program hidle
    split
    · rw [(eq_of_administrative hf _).2.2]
      exact this
    · exact this
  saved k hk := by
    rw [size_modifyJob] at hk
    rw [job_modifyJob f hj]
    split
    · rw [(eq_of_administrative hf _).2.1]
      exact w.saved k hk
    · exact w.saved k hk
  input k hk := w.input k (by simpa using hk)
  output k hk := w.output k (by simpa using hk)

/-! ## Changes to the processor -/

/-- A change `f` of the processor shows in the registers of the job that runs. -/
theorem view_modifyCpu (f : Processor → Processor) :
    (m.modifyCpu f).view k =
      if m.runs k then
        { m.view k with job := { (m.view k).job with registers := (f m.hardware.cpu).regs } }
      else m.view k := by
  have hruns : (m.modifyCpu f).runs k = m.runs k := rfl
  have hcpu : (m.modifyCpu f).hardware.cpu = f m.hardware.cpu := rfl
  -- only the job that runs has its registers in the processor
  cases hrun : m.runs k with
  | true =>
    simp only [view, regsOf, hruns, hrun, hcpu, if_true]
    rfl
  | false =>
    simp only [view, regsOf, hruns, hrun, Bool.false_eq_true, if_false]
    rfl

theorem Wired.modifyCpu (w : m.Wired) {f : Processor → Processor}
    (hf : (f m.hardware.cpu).program = m.hardware.cpu.program) : (m.modifyCpu f).Wired where
  devices := w.devices
  sources := w.sources
  current := w.current
  program hidle := hf.trans (w.program hidle)
  saved := w.saved
  input k hk := by
    rw [view_modifyCpu]
    split <;> exact w.input k hk
  output k hk := by
    rw [view_modifyCpu]
    split <;> exact w.output k hk

/-! ## Changes to the text and the devices of a job -/

theorem view_setSource (source? : Option Reader) (w : m.Wired) (hj : j < m.jobs.size) :
    (m.setSource j source?).view k =
      if k = j then { m.view k with source? } else m.view k := by
  have hsource : (m.setSource j source?).hardware.source? k =
      if k = j then source? else m.hardware.source? k := by
    have hlt : j < m.hardware.sources.size := by rw [w.sources]; exact hj
    by_cases h : k = j
    · subst h
      simp [setSource, Hardware.setSource, Hardware.source?, hlt]
    · simp [setSource, Hardware.setSource, Hardware.source?, h, Ne.symm h]
  have hview : (m.setSource j source?).view k =
      { m.view k with source? := (m.setSource j source?).hardware.source? k } := rfl
  rw [hview, hsource]
  split <;> rfl

theorem Wired.setSource (w : m.Wired) (source? : Option Reader) :
    (m.setSource j source?).Wired where
  devices := w.devices
  sources := by simpa [Machine.setSource, Hardware.setSource] using w.sources
  current := w.current
  program := w.program
  saved := w.saved
  input k hk := w.input k hk
  output k hk := w.output k hk

/-- The devices of `hw` after the one with the number `dev` has been replaced by `d`. -/
theorem device?_setDevice (hw : Hardware) {dev : Nat} (hdev : dev ≠ 0) (d : Device)
    (e : Nat) :
    (hw.setDevice dev d).device? e =
      if e = dev then (hw.device? e).map fun _ => d else hw.device? e := by
  unfold Hardware.device? Hardware.setDevice
  by_cases he : e = 0
  · simp [he]
  · by_cases h : e = dev
    · subst h
      by_cases hlt : e - 1 < hw.devices.size <;> simp [he, hlt]
    · have hne : dev - 1 ≠ e - 1 := by omega
      simp [he, h, hne]

/-- What belongs to job `k` after the device of job `j` on the side `side` has been replaced by
`d`. -/
theorem view_setDevice (w : m.Wired) (hj : j < m.jobs.size) (side : Side) (d : Device) :
    { m with hardware := m.hardware.setDevice (side.number j) d }.view k =
      if k = j then (m.view k).withDevice side d else m.view k := by
  have hplace : ∀ side' : Side,
      (m.hardware.setDevice (side.number j) d).device? (side'.number k) =
        if side' = side ∧ k = j then (m.hardware.device? (side'.number k)).map fun _ => d
        else m.hardware.device? (side'.number k) := by
    intro side'
    simp only [device?_setDevice m.hardware (side.number_ne_zero j), Side.number_inj]
  have hview : { m with hardware := m.hardware.setDevice (side.number j) d }.view k =
      { m.view k with
        input := ((m.hardware.setDevice (side.number j) d).device? (Side.input.number k)).getD
          (.newInput k 0)
        output := ((m.hardware.setDevice (side.number j) d).device? (Side.output.number k)).getD
          (.newOutput k 0) } := rfl
  rw [hview, hplace, hplace]
  by_cases h : k = j
  · subst h
    rw [device?_number w hj, device?_number w hj]
    cases side <;> simp [View.withDevice, View.device]
  · simp only [h, and_false, if_false]
    rfl

theorem view_setInput (w : m.Wired) (hj : j < m.jobs.size) (d : Device) :
    { m with hardware := m.hardware.setDevice (inputNumber j) d }.view k =
      if k = j then { m.view k with input := d } else m.view k :=
  view_setDevice w hj .input d

theorem view_setOutput (w : m.Wired) (hj : j < m.jobs.size) (d : Device) :
    { m with hardware := m.hardware.setDevice (outputNumber j) d }.view k =
      if k = j then { m.view k with output := d } else m.view k :=
  view_setDevice w hj .output d

/-- The device of job `j` on the side `side` may be replaced by any `d` that is of this side and
job. -/
theorem Wired.setDevice (w : m.Wired) (hj : j < m.jobs.size) {side : Side} {d : Device}
    (hd : d.IsOf side j) :
    { m with hardware := m.hardware.setDevice (side.number j) d }.Wired := by
  have hof : ∀ k < m.jobs.size, ∀ side' : Side,
      ({ m with hardware := m.hardware.setDevice (side.number j) d }.view k).device side'
        |>.IsOf side' k := by
    intro k hk side'
    rw [view_setDevice w hj]
    split
    · rename_i h
      subst h
      rw [View.device_withDevice]
      split
      · rename_i hside
        exact hside ▸ hd
      · exact w.isOf hk side'
    · exact w.isOf hk side'
  constructor
  case devices => simpa [Hardware.setDevice] using w.devices
  case sources => exact w.sources
  case current => exact w.current
  case program => exact w.program
  case saved => exact w.saved
  case input => exact fun k hk => hof k hk .input
  case output => exact fun k hk => hof k hk .output

/-! ## Changes that concern one job -/

/-- `m'` comes from `m` by changes to what belongs to job `j`, apart from registers in the
processor. -/
structure Touches (j : Nat) (m m' : Machine) : Prop where
  wired : m'.Wired
  control : m'.control = m.control
  cpu : m'.hardware.cpu = m.hardware.cpu
  view : ∀ k, k ≠ j → m'.view k = m.view k

namespace Touches

variable {m' m'' : Machine}

theorem refl (w : m.Wired) : m.Touches j m :=
  ⟨w, rfl, rfl, fun _ _ => rfl⟩

theorem trans (h : m.Touches j m') (h' : m'.Touches j m'') : m.Touches j m'' :=
  ⟨h'.wired, h'.control.trans h.control, h'.cpu.trans h.cpu,
    fun k hk => (h'.view k hk).trans (h.view k hk)⟩

theorem size (h : m.Touches j m') : m'.jobs.size = m.jobs.size :=
  congrArg Control.size h.control

theorem current (h : m.Touches j m') : m'.current = m.current :=
  congrArg Control.current h.control

theorem idle (h : m.Touches j m') : m'.idle = m.idle :=
  congrArg Control.idle h.control

theorem runs (h : m.Touches j m') : m'.runs k = m.runs k :=
  runs_congr h.control

end Touches

theorem touches_modifyJob (w : m.Wired) {f : Job → Job} (hf : Job.Administrative f)
    (hj : j < m.jobs.size) : m.Touches j (m.modifyJob j f) where
  wired := w.modifyJob hf hj
  control := control_modifyJob f
  cpu := rfl
  view k hk := by rw [view_modifyJob hf hj, if_neg hk]

theorem touches_setSource (w : m.Wired) (source? : Option Reader) (hj : j < m.jobs.size) :
    m.Touches j (m.setSource j source?) where
  wired := w.setSource source?
  control := rfl
  cpu := rfl
  view k hk := by rw [view_setSource source? w hj, if_neg hk]

theorem touches_setDevice (w : m.Wired) (hj : j < m.jobs.size) {side : Side} {d : Device}
    (hd : d.IsOf side j) :
    m.Touches j { m with hardware := m.hardware.setDevice (side.number j) d } where
  wired := w.setDevice hj hd
  control := rfl
  cpu := rfl
  view k hk := by rw [view_setDevice w hj, if_neg hk]

theorem touches_setInput (w : m.Wired) (hj : j < m.jobs.size) {d : Device}
    (hd : d.IsInputOf j) :
    m.Touches j { m with hardware := m.hardware.setDevice (inputNumber j) d } :=
  touches_setDevice w hj (show d.IsOf .input j from hd)

theorem touches_setOutput (w : m.Wired) (hj : j < m.jobs.size) {d : Device}
    (hd : d.IsOutputOf j) :
    m.Touches j { m with hardware := m.hardware.setDevice (outputNumber j) d } :=
  touches_setDevice w hj (show d.IsOf .output j from hd)

/-- Every device `d` of a well wired machine is that of a job `j` on a `side`. -/
theorem Wired.exists_device (w : m.Wired) {dev : Nat} {d : Device}
    (h : m.hardware.device? dev = some d) :
    ∃ j < m.jobs.size, ∃ side : Side, dev = side.number j ∧ d = (m.view j).device side := by
  have hne : dev ≠ 0 := by
    rintro rfl
    simp [Hardware.device?] at h
  have howner : ownerOf? dev = some ((dev - 1) / 2) := by simp [ownerOf?, hne]
  have hlt : dev - 1 < m.hardware.devices.size := by
    simp only [Hardware.device?, hne, if_false] at h
    exact (Array.getElem?_eq_some_iff.1 h).1
  have hj : (dev - 1) / 2 < m.jobs.size := by
    have := w.devices
    omega
  obtain ⟨side, hside⟩ := Side.exists_number howner
  refine ⟨_, hj, side, hside, ?_⟩
  rw [hside, device?_number w hj side] at h
  exact (Option.some.inj h).symm

/-- Notes about the device `dev` in the journal touch nothing. -/
theorem Touches.noteAll {m' : Machine} (h : m.Touches j m') (dev : Nat) (events : List Event) :
    m.Touches j (m'.noteAll dev events) where
  wired := ⟨h.wired.devices, h.wired.sources, h.wired.current, h.wired.program, h.wired.saved,
    h.wired.input, h.wired.output⟩
  control := h.control
  cpu := h.cpu
  view := h.view

theorem Touches.note {m' : Machine} (h : m.Touches j m') (event : Event) :
    m.Touches j (m'.note event) where
  wired := ⟨h.wired.devices, h.wired.sources, h.wired.current, h.wired.program, h.wired.saved,
    h.wired.input, h.wired.output⟩
  control := h.control
  cpu := h.cpu
  view := h.view

@[simp] theorem view_note (event : Event) : (m.note event).view k = m.view k := rfl

@[simp] theorem view_noteAll (dev : Nat) (events : List Event) :
    (m.noteAll dev events).view k = m.view k := rfl

end Machine

end BatchMachine
