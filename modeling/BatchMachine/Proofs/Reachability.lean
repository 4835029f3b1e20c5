import Mathlib.Algebra.Group.Nat.Defs
import BatchMachine.Proofs.SchedulerInvariant

/-!
# Runs

A run starts with the machine that a successful start leaves and goes on tick by tick. Every
machine on the way is sound, since a tick keeps every part of the invariant: the offer of held
requests, the processor's turn, and the tick of each device.

* `Machine.Launches`, `Machine.Run`: the runs.
* `Machine.Sound.tick`: a tick keeps a machine sound.
* `Machine.Run.sound`: the machines of a run are sound.
* `Machine.scheduler_invariant`: what this means for the scheduler and the jobs.
-/

namespace BatchMachine

open JobText

namespace Word

/-- `ofCount n` is the position `n`, if `n` is in the range of words. -/
theorem index?_ofCount {n : Nat} (h : n < 2 ^ 31) : index? (ofCount n) = some n := by
  rw [index?_eq_some_iff, ofCount]
  exact Int32.toInt_ofNat_of_lt h

/-- `ofCount n` wraps around to a number below `n` if `n` is beyond the range of words, if it names
a position at all. -/
theorem le_of_index?_ofCount {n k : Nat} (h : index? (ofCount n) = some k) : k ≤ n := by
  rw [index?_eq_some_iff, ofCount, Int32.toInt_ofNat', Int.bmod_def] at h
  have hsize : (Int32.size : Int) = 4294967296 := rfl
  rw [hsize] at h
  split at h <;> omega

end Word

namespace Machine

variable {m m₁ m' : Machine} {j k : Nat}

/-! ## What a turn keeps of a job -/

/-- Job `k`, whose segment ends, has begun. -/
theorem Sound.begun_of_closes (h : m.Sound) {o : Outcome} (hcloses : m.Closes k o) :
    m.Begun k := by
  rcases hcloses with ⟨hrun, _⟩ | ⟨htrap, hculprit, _⟩
  · obtain ⟨hidle, hcurrent⟩ := runs_eq_true_iff.1 hrun
    exact hcurrent ▸ .inl (h.engaged hidle).2.2
  · exact hculprit ▸ (h.charged_job htrap).2

/-- Job `k`, if it runs, can run and has been booted. -/
theorem Sound.of_runs (h : m.Sound) (hrun : m.runs k = true) :
    (m.job k).life = .runnable ∧ (m.job k).boot = .booted := by
  obtain ⟨hidle, hcurrent⟩ := runs_eq_true_iff.1 hrun
  exact hcurrent ▸ (h.engaged hidle).2

theorem Shift.sound (w : m.Wired) (hk : k < m.jobs.size) (h : (m.view k).Sound k)
    (hshift : m.Shift m' k) : (m'.view k).Sound k := by
  cases hshift with
  | stays hview => exact hview ▸ h
  | boots _ _ _ _ hnext _ _ _ hview =>
    rw [hview]
    exact h.boots (w.output k hk) _ (Reader.length_nextImage_le hnext) _
  | drops _ _ _ _ hview =>
    rw [hview]
    exact h.drops

/-- Job `k` stays sound in a turn. -/
theorem Move.sound (h : m.Sound) (hk : k < m.jobs.size) (hmove : m.Move m' k) :
    (m'.view k).Sound k := by
  have hjob := h.job k hk
  cases hmove with
  | shifts _ hshift => exact hshift.sound h.wired hk hjob
  | rejects _ _ _ _ hview => exact hview ▸ hjob
  | steps _ hrun _ _ _ hview =>
    rw [hview]
    exact hjob.withRegisters (h.of_runs hrun).2 _
  | reloads hcloses hsource hnext _ _ hview =>
    rw [hview]
    exact hjob.entered (h.wired.output k hk)
      (h.booted_of_source hk (h.begun_of_closes hcloses) hsource)
      (Reader.length_nextImage_le hnext) _ _
  | retires _ _ hview =>
    rw [hview]
    exact (hjob.withOutcome _).dismissed rfl
  | asks hrun _ _ hview =>
    obtain ⟨hlife, hboot⟩ := h.of_runs hrun
    rw [hview]
    exact hjob.asks hboot (by simp [hlife]) _ _ _
  | fails _ _ _ _ hview =>
    rw [hview]
    exact hjob.acknowledged _
  | collects _ _ hview =>
    rw [hview]
    exact hjob.collected _

/-- Once job `k` is over in `m` it is so in `m'`, with its name, its image and its segments. -/
def Lasts (k : Nat) (m m' : Machine) : Prop :=
  (m.job k).life = .finished →
    (m'.job k).life = .finished ∧ (m'.job k).segments = (m.job k).segments ∧
      (m'.job k).name = (m.job k).name ∧ (m'.job k).image = (m.job k).image

theorem Lasts.trans (h : m.Lasts k m₁) (h' : m₁.Lasts k m') : m.Lasts k m' := by
  intro hlife
  obtain ⟨hlife₁, hsegments₁, hname₁, himage₁⟩ := h hlife
  obtain ⟨hlife', hsegments', hname', himage'⟩ := h' hlife₁
  exact ⟨hlife', hsegments'.trans hsegments₁, hname'.trans hname₁, himage'.trans himage₁⟩

/-- Whether job `k` lasts can be seen from its view. -/
theorem lasts_of_view (h : (m.view k).job.life = .finished →
    (m'.view k).job.life = .finished ∧ (m'.view k).job.segments = (m.view k).job.segments ∧
      (m'.view k).job.name = (m.view k).job.name ∧
      (m'.view k).job.image = (m.view k).job.image) : m.Lasts k m' := h

/-- Job `k`, if it is over, lasts through a turn. -/
theorem Move.lasts (h : m.Sound) (hk : k < m.jobs.size) (hmove : m.Move m' k) :
    m.Lasts k m' := by
  refine lasts_of_view fun hlife => ?_
  have hstopped : m.runs k ≠ true := by
    intro hrun
    have hrunnable := (h.of_runs hrun).1
    rw [← view_life, hlife] at hrunnable
    exact absurd hrunnable (by decide)
  have hunable : (m.job k).life ≠ .runnable := by
    rw [← view_life, hlife]
    decide
  cases hmove with
  | rejects hrun => exact absurd hrun hstopped
  | shifts _ hshift =>
    cases hshift with
    | stays hview =>
      rw [hview]
      exact ⟨hlife, rfl, rfl, rfl⟩
    | boots _ hrunnable => exact absurd hrunnable hunable
    | drops _ hrunnable => exact absurd hrunnable hunable
  | steps _ hrun => exact absurd hrun hstopped
  | reloads _ hsource =>
    -- its text has been closed
    rw [← view_source?, ((h.job k hk).finished hlife).source] at hsource
    simp at hsource
  | retires _ _ hview =>
    rw [hview]
    exact ⟨rfl, rfl, rfl, rfl⟩
  | asks hrun => exact absurd hrun hstopped
  | fails _ _ _ _ hview =>
    rw [hview, View.acknowledged, View.job_withDevice]
    exact ⟨hlife, rfl, rfl, rfl⟩
  | collects _ _ hview =>
    rw [hview]
    refine ⟨?_, rfl, rfl, rfl⟩
    simp only [View.collected, hlife]
    rfl

/-- Job `k`, if it is booted, stays so. -/
theorem Move.boot (hmove : m.Move m' k) (hboot : (m.job k).boot = .booted) :
    (m'.job k).boot = .booted := by
  rw [← view_boot] at hboot ⊢
  cases hmove with
  | rejects _ _ _ _ hview => rw [hview, hboot]
  | shifts _ hshift =>
    cases hshift with
    | stays hview => rw [hview, hboot]
    | boots _ _ _ _ _ _ _ _ hview =>
      rw [hview]
      rfl
    | drops _ _ _ _ hview =>
      rw [hview]
      exact hboot
  | steps _ _ _ _ _ hview => rw [hview, hboot]
  | reloads _ _ _ _ _ hview =>
    rw [hview]
    exact hboot
  | retires _ _ hview =>
    rw [hview]
    exact hboot
  | asks _ _ _ hview =>
    obtain ⟨pending?, target?, hjob⟩ := View.job_asks (m.view k) k _ _ _
    rw [hview, hjob, hboot]
  | fails _ _ _ _ hview =>
    rw [hview, View.acknowledged, View.job_withDevice, hboot]
  | collects _ _ hview =>
    rw [hview]
    exact hboot

/-! ## The line after a turn -/

/-- Job `k`, if it has begun, has begun for good. -/
theorem Move.begun (h : m.Sound) (hk : k < m.jobs.size) (hmove : m.Move m' k)
    (hbegun : m.Begun k) : m'.Begun k := by
  rcases hbegun with hboot | hlife
  · exact .inl (hmove.boot hboot)
  · exact .inr (hmove.lasts h hk hlife).1

/-- Job `k`, if it is booted in a turn, comes before all that have not begun. -/
theorem Shift.booted_or (hshift : m.Shift m' k) (hboot : (m'.job k).boot = .booted) :
    (m.job k).boot = .booted ∨ ∀ f < m.jobs.size, ¬ m'.Begun f → k < f := by
  rw [← view_boot] at hboot
  cases hshift with
  | stays hview =>
    rw [hview] at hboot
    exact .inl hboot
  | boots _ _ hfirst =>
    refine .inr fun f hf hbegun => hfirst f hf ?_ fun hlife => hbegun (.inr hlife)
    cases hfresh : (m'.job f).boot with
    | fresh => rfl
    | booted => exact absurd (.inl hfresh) hbegun
  | drops _ _ _ _ hview =>
    rw [hview] at hboot
    exact .inl hboot

theorem Move.booted_or (hmove : m.Move m' k) (hboot : (m'.job k).boot = .booted) :
    (m.job k).boot = .booted ∨ ∀ f < m.jobs.size, ¬ m'.Begun f → k < f := by
  cases hmove with
  | shifts _ hshift => exact hshift.booted_or hboot
  | asks _ _ _ hview =>
    obtain ⟨pending?, target?, hjob⟩ := View.job_asks (m.view k) k _ _ _
    rw [← view_boot, hview, hjob] at hboot
    exact .inl hboot
  | fails _ _ _ _ hview =>
    rw [← view_boot, hview, View.acknowledged, View.job_withDevice] at hboot
    exact .inl hboot
  | steps _ _ _ _ _ hview | rejects _ _ _ _ hview | reloads _ _ _ _ _ hview | retires _ _ hview
  | collects _ _ hview =>
    rw [← view_boot, hview] at hboot
    exact .inl hboot

/-- After a turn from `m` to `m'` the jobs have been booted in their order. -/
theorem Turned.ordered {p : Progress} (h : m.Sound) (hturned : m.Turned p m') : m'.Ordered := by
  intro j f hj hf hboot hbegun
  have hj' : j < m.jobs.size := hturned.size ▸ hj
  have hf' : f < m.jobs.size := hturned.size ▸ hf
  rcases (hturned.move j hj').booted_or hboot with hbooted | hfirst
  · exact h.ordered j f hj' hf' hbooted fun hf₀ =>
      hbegun ((hturned.move f hf').begun h hf' hf₀)
  · exact hfirst f hf' hbegun

/-- A failure that is signalled for job `j` comes from a job that has begun. A device whose number
is beyond the range of words may be taken for one of an earlier job, which has begun as well. -/
theorem Sound.begun_of_completes (h : m.Sound) (hj : j < m.jobs.size) {side : Side}
    (hcompletes : m.Completes j side) (hstatus : m.line.status ≠ 0) : m.Begun j := by
  obtain ⟨⟨side', htrap⟩, hdata⟩ := hcompletes
  have hline := TrapLine.isIdle_eq_false htrap
  obtain ⟨side₀, i, hi, hboot, _, hcount⟩ := h.charged.status hline hstatus
  rw [hcount] at hdata
  -- the number on the line is at most that of the device that has signalled
  have hle : j ≤ i := by
    have := Word.le_of_index?_ofCount hdata
    cases side <;> cases side₀ <;> simp only [Side.number, inputNumber, outputNumber] at this <;>
      omega
  by_contra hbegun
  exact absurd (h.ordered i j hi hj hboot hbegun) (by omega)

/-- After a turn from `m` to `m'` what is on the line fits the state of `m'`. -/
theorem Turned.charged {p : Progress} (h : m.Sound) (hturned : m.Turned p m') : m'.Charged := by
  cases hturned.lines with
  | calm hline hculprit =>
    refine ⟨fun j hj => ?_, fun hbusy => ?_, fun _ => .inl hline⟩
    · rw [hculprit] at hj
      simp at hj
    · rw [hline] at hbusy
      exact absurd hbusy (by decide)
  | steps hline hidle _ hcpu hcontrol =>
    have hculprit : m'.culprit? = none :=
      (congrArg Control.culprit? hcontrol).trans (h.culprit_of_isIdle hline)
    have hidle' : m'.idle = false := (congrArg Control.idle hcontrol).trans hidle
    refine ⟨fun j hj => ?_, fun hbusy hstatus => ?_, fun hresting => ?_⟩
    · rw [hculprit] at hj
      simp at hj
    · -- an instruction puts no status on the line
      rw [line, hcpu] at hbusy hstatus
      rcases Processor.status_step m.hardware.cpu with hsame | hzero
      · rw [hsame] at hbusy
        exact absurd (hline.symm.trans hbusy) (by decide)
      · exact absurd hzero hstatus
    · rw [hidle'] at hresting
      exact absurd hresting (by decide)
  | rejects hmisuses hline hcontrol =>
    have hidle := (runs_eq_true_iff.1 (hmisuses.subject? h).1).1
    have hculprit := h.culprit_eq_none hmisuses.trap?_ne.1
    refine ⟨fun j hj => ?_, fun _ hstatus => ?_, fun hresting => ?_⟩
    · rw [show m'.culprit? = m.culprit? from congrArg Control.culprit? hcontrol, hculprit] at hj
      simp at hj
    · rw [hline] at hstatus
      exact absurd rfl hstatus
    · rw [show m'.idle = m.idle from congrArg Control.idle hcontrol, hidle] at hresting
      exact absurd hresting (by decide)
  | @fails side j hj hcompletes hstatus hline hcontrol =>
    have hculprit : m'.culprit? = some j := congrArg Control.culprit? hcontrol
    refine ⟨fun i hi => ?_, fun _ hstatus' => ?_, fun _ => .inr (.inr (by rw [hculprit]; rfl))⟩
    · rw [hculprit] at hi
      cases hi
      refine ⟨hturned.size.symm ▸ hj,
        (hturned.move j hj).begun h hj (h.begun_of_completes hj hcompletes hstatus), ?_⟩
      rw [hline, TrapLine.trap?_raise]
    · rw [hline] at hstatus'
      exact absurd rfl hstatus'

/-- The processor's turn from `m` to `m'` keeps the machine sound. -/
theorem Turned.sound (h : m.Sound) (hturned : m.Turned .running m') : m'.Sound where
  wired := hturned.wired
  ordered := hturned.ordered h
  job k hk := (hturned.move k (hturned.size ▸ hk)).sound h (hturned.size ▸ hk)
  scheduled := hturned.scheduled rfl
  charged := hturned.charged h

/-! ## The rest of a tick -/

/-- A change from `m` to `m'` that leaves what the scheduler knows of the jobs as it is keeps the
machine sound. -/
theorem Sound.of_views (h : m.Sound) (w : m'.Wired) (hcontrol : m'.control = m.control)
    (hpc : m'.hardware.cpu.regs.pc = m.hardware.cpu.regs.pc)
    (hjob : ∀ k < m.jobs.size, (m'.job k).life = (m.job k).life ∧
      (m'.job k).boot = (m.job k).boot)
    (hview : ∀ k < m.jobs.size, (m'.view k).Sound k)
    (hline : m'.line = m.line ∨ (m.line.isIdle = true ∧ ∃ (side : Side) (j : Nat),
      j < m.jobs.size ∧ (m.job j).boot = .booted ∧ m'.line.trap? = some side.completion ∧
        m'.line.data = .ofCount (side.number j))) : m'.Sound := by
  have hsize : m'.jobs.size = m.jobs.size := congrArg Control.size hcontrol
  have hidle : m'.idle = m.idle := congrArg Control.idle hcontrol
  have hcurrent : m'.current = m.current := congrArg Control.current hcontrol
  have hculprit : m'.culprit? = m.culprit? := congrArg Control.culprit? hcontrol
  constructor
  case wired => exact w
  case job => exact fun k hk => hview k (hsize ▸ hk)
  -- a first segment that has begun now had begun before, for lives and boot states are the same
  case ordered =>
    intro i f hi hf hboot hbegun
    have hi' : i < m.jobs.size := hsize ▸ hi
    have hf' : f < m.jobs.size := hsize ▸ hf
    refine h.ordered i f hi' hf' ((hjob i hi').2 ▸ hboot) fun hbegun' => hbegun ?_
    rw [Begun, (hjob f hf').1, (hjob f hf').2]
    exact hbegun'
  case scheduled =>
    rcases h.scheduled with hengaged | hresting
    · obtain ⟨hlife, hboot⟩ := hjob m.current h.wired.current
      exact .inl (hengaged.of_control ⟨hidle, hcurrent⟩ hlife hboot)
    · exact .inr (hresting.of_control hidle hsize hpc fun k hk => (hjob k hk).1)
  case charged =>
    -- the line is as it was, or it was clear and a device has put the completion of `j` on it
    rcases hline with hsame | ⟨hclear, side, j, hj, hboot, htrap, hdata⟩
    · refine ⟨fun i hi => ?_, fun hbusy hstatus => ?_, fun hresting => ?_⟩
      · obtain ⟨hlt, hbegun, htrap⟩ := h.charged.culprit i (hculprit ▸ hi)
        refine ⟨hsize.symm ▸ hlt, ?_, hsame.symm ▸ htrap⟩
        rw [Begun, (hjob i hlt).1, (hjob i hlt).2]
        exact hbegun
      · rw [hsame] at hbusy hstatus ⊢
        obtain ⟨side, i, hlt, hboot, hdata⟩ := h.charged.status hbusy hstatus
        exact ⟨side, i, hsize.symm ▸ hlt, (hjob i hlt).2.trans hboot, hdata⟩
      · rw [hsame, hculprit]
        exact h.charged.resting (hidle ▸ hresting)
    · have hnone := h.culprit_of_isIdle hclear
      refine ⟨fun i hi => ?_, fun _ _ => ?_, fun _ => .inr (.inl ⟨side, htrap⟩)⟩
      · rw [hculprit, hnone] at hi
        simp at hi
      · exact ⟨side, j, hsize.symm ▸ hj, (hjob j hj).2.trans hboot, htrap, hdata⟩

theorem Sound.agrees (h : m.Sound) (hagrees : m.Agrees m') : m'.Sound :=
  h.of_views (hagrees.wired h.wired) hagrees.control (by rw [hagrees.hardware])
    (fun k _ => by rw [hagrees.job]; exact ⟨rfl, rfl⟩)
    (fun k hk => by rw [hagrees.view]; exact h.job k hk) (.inl hagrees.line)

theorem Sound.offers (h : m.Sound) (hoffers : m.Offers m') : m'.Sound := by
  refine h.of_views hoffers.wired hoffers.control (by rw [hoffers.cpu]) (fun k hk => ?_)
    (fun k hk => ?_) (.inl hoffers.line)
  · obtain ⟨pending?, hjob⟩ := View.job_offered (m.view k) k
    rw [← view_life, ← view_boot, hoffers.view k hk, hjob]
    exact ⟨rfl, rfl⟩
  · rw [hoffers.view k hk]
    exact (h.job k hk).offered

/-- The device `d`, when it is done, says so if the processor's `line` is free. -/
theorem line_tick (d : Device) (line : TrapLine) (source? : Option Reader) (files : Files) :
    (d.tick line source? files).line = line ∨
      (line.isIdle = true ∧ d.isIdle = false ∧
        ∃ ok, (d.tick line source? files).line = d.signal ok) := by
  rcases Device.tick_cases d line source? files with
    ⟨_, htick⟩ | ⟨_, ⟨_, htick⟩ | ⟨_, htick⟩ | ⟨_, _, htick⟩ | ⟨htimer, hclear, htick⟩⟩ <;>
      rw [htick]
  · exact .inl rfl
  · exact .inl rfl
  · exact .inl rfl
  · exact .inl rfl
  · exact .inr ⟨hclear, by simp [Device.isIdle, htimer], _, d.line_transfer source? files⟩

/-- What `d.signal` says names the device of job `j`. -/
theorem trap?_signal (side : Side) {d : Device} (h : d.IsOf side j) (ok : Bool) :
    (d.signal ok).trap? = some side.completion ∧
      (d.signal ok).data = .ofCount (side.number j) := by
  refine ⟨?_, ?_⟩
  · rw [TrapLine.trap?, Device.signal, h.completion]
    exact Trap.ofCode?_code _
  · rw [Device.signal, h.number]

/-- A device of job `j` that has something to do belongs to a booted job. -/
theorem Sound.booted_of_device (h : m.Sound) (hj : j < m.jobs.size) (side : Side)
    (hdevice : ((m.view j).device side).isIdle = false) : (m.job j).boot = .booted := by
  cases hboot : (m.job j).boot with
  | booted => rfl
  | fresh =>
    rw [(h.job j hj).quiet hboot side] at hdevice
    exact absurd hdevice (by decide)

/-- A tick of a device of job `j` keeps the machine sound if it does so to what belongs to the
job. -/
theorem Sound.sideTicks {side : Side} (h : m.Sound) (hj : j < m.jobs.size)
    (hticks : m.SideTicks side j m') (hticked : (m'.view j).Sound j) : m'.Sound := by
  refine h.of_views hticks.wired hticks.control ?_ (fun k _ => ?_) (fun k hk => ?_) ?_
  · obtain ⟨source?, _, hcpu⟩ := hticks.ticked
    rw [hcpu]
  · rw [← view_life, ← view_boot, hticks.job]
    exact ⟨rfl, rfl⟩
  · by_cases hkj : k = j
    · rw [hkj]
      exact hticked
    · rw [hticks.view k hkj]
      exact h.job k hk
  · -- what the device puts on the line, if anything, is its own signal
    obtain ⟨source?, _, hcpu⟩ := hticks.ticked
    have hline : m'.line = _ := congrArg Processor.trap hcpu
    rcases line_tick ((m.view j).device side) m.line source? m.hardware.files with
      hsame | ⟨hclear, hbusy, ok, hsignal⟩
    · exact .inl (hline.trans hsame)
    · rw [hline]
      simp only [hsignal]
      exact .inr ⟨hclear, side, j, hj, h.booted_of_device hj side hbusy,
        trap?_signal side (h.wired.isOf hj side) ok⟩

theorem Sound.inputTicks (h : m.Sound) (hj : j < m.jobs.size)
    (hticks : m.InputTicks j ((m.view j).input.tick m.line
      ((m.view j).input.job?.bind fun _ => (m.view j).source?) m.hardware.files) m') :
    m'.Sound := by
  refine h.sideTicks hj hticks.sideTicks ?_
  rw [hticks.ticked]
  exact (h.job j hj).inputTicked (h.wired.input j hj) _ _

theorem Sound.outputTicks (h : m.Sound) (hj : j < m.jobs.size)
    (hticks : m.OutputTicks j ((m.view j).output.tick m.line none m.hardware.files) m') :
    m'.Sound := by
  refine h.sideTicks hj hticks.sideTicks ?_
  rw [hticks.ticked]
  exact (h.job j hj).outputTicked (h.wired.output j hj) _ _

theorem Sound.tickPair (h : m.Sound) (hj : j < m.jobs.size) :
    (m.tickPair j).Sound ∧ ∀ k, ((m.tickPair j).view k).job = (m.view k).job := by
  have hin := tickDevice_inputNumber h.wired hj
  have hsound := h.inputTicks hj hin
  have hj' : j < (m.tickDevice (inputNumber j)).jobs.size :=
    hj.trans_eq (congrArg Control.size hin.control).symm
  have hout := tickDevice_outputNumber hsound.wired hj'
  exact ⟨hsound.outputTicks hj' hout, fun k => (hout.job k).trans (hin.job k)⟩

/-- `tickDevices` keeps a machine sound, and changes no slot of the job table. -/
theorem Sound.tickDevices (h : m.Sound) :
    m.tickDevices.Sound ∧ ∀ k, (m.tickDevices.view k).job = (m.view k).job := by
  refine (tickDevices_induction (P := fun _ m' => m'.Sound ∧
    ∀ k, (m'.view k).job = (m.view k).job) h.wired ⟨h, fun _ => rfl⟩ ?_).1
  intro j m' hj _ hcontrol ⟨hsound, hjob⟩
  have hsize : m'.jobs.size = m.jobs.size := congrArg Control.size hcontrol
  obtain ⟨hsound', hjob'⟩ := hsound.tickPair (hsize.symm ▸ hj)
  exact ⟨hsound', fun k => (hjob' k).trans (hjob k)⟩

/-- The parts of a tick of a sound machine `m`: `m₀` is before the processor's turn and `m₁` after
it. -/
theorem Sound.ticks (h : m.Sound) {p : Progress} (htick : m.tick = (p, m')) :
    ∃ m₀ m₁, m.Offers m₀ ∧ m₀.Sound ∧ m₀.Turned p m₁ ∧
      ((∃ status, p = .exited status ∧ m₁.Agrees m') ∨
        (p = .running ∧ m₁.Sound ∧ m₁.tickDevices.Agrees m')) := by
  have hpc : m.idle = true → m.hardware.cpu.regs.pc = Registers.idlePc :=
    fun hidle => (h.resting hidle).pc
  obtain ⟨m₀, m₁, hoffers, hturn, hend⟩ := ticks_of_tick h.wired (fun j hj => (h.job j hj).owns)
    (fun j hj => (h.charged.culprit j hj).1) hpc htick
  have hsound := h.offers hoffers
  have hturned := hturn.turned hsound
  refine ⟨m₀, m₁, hoffers, hsound, hturned, ?_⟩
  rcases hend with hexit | ⟨rfl, hagrees⟩
  · exact .inl hexit
  · exact .inr ⟨rfl, hturned.sound hsound, hagrees⟩

/-- `tick` keeps a machine sound, as long as it does not exit. -/
theorem Sound.tick (h : m.Sound) (htick : m.tick = (.running, m')) : m'.Sound := by
  obtain ⟨m₀, m₁, _, _, _, ⟨status, hexit, _⟩ | ⟨_, hsound, hagrees⟩⟩ := h.ticks htick
  · simp at hexit
  · exact hsound.tickDevices.1.agrees hagrees

/-- Job `k`, if it is over, lasts through a tick. -/
theorem Sound.lasts (h : m.Sound) {p : Progress} (htick : m.tick = (p, m'))
    (hk : k < m.jobs.size) : m'.jobs.size = m.jobs.size ∧ m.Lasts k m' := by
  obtain ⟨m₀, m₁, hoffers, hsound₀, hturned, hend⟩ := h.ticks htick
  have hk₀ : k < m₀.jobs.size := hoffers.size.symm ▸ hk
  have hoffer : m.Lasts k m₀ := by
    obtain ⟨pending?, hjob⟩ := View.job_offered (m.view k) k
    refine lasts_of_view fun hlife => ?_
    rw [hoffers.view k hk, hjob]
    exact ⟨hlife, rfl, rfl, rfl⟩
  have hlasts := hoffer.trans ((hturned.move k hk₀).lasts hsound₀ hk₀)
  have hsize := hturned.size.trans hoffers.size
  have hsame : ∀ m₂ : Machine, (m₂.view k).job = (m₁.view k).job → m₁.Lasts k m₂ := by
    intro m₂ hjob
    refine lasts_of_view fun hlife => ?_
    rw [hjob]
    exact ⟨hlife, rfl, rfl, rfl⟩
  rcases hend with ⟨_, _, hagrees⟩ | ⟨_, hsound₁, hagrees⟩
  · exact ⟨hagrees.size.trans hsize, hlasts.trans (hsame _ (by rw [hagrees.view]))⟩
  · obtain ⟨_, hjob⟩ := hsound₁.tickDevices
    exact ⟨(hagrees.size.trans (size_tickDevices hsound₁.wired)).trans hsize,
      hlasts.trans (hsame _ (by rw [hagrees.view, hjob]))⟩

/-! ## Starting -/

/-- `first` is a machine for `jobs` that have not run yet, after a successful start. -/
def Launches (jobs : List (Job × Option Reader)) (config : Config) (files : Files)
    (journal : Journal) (first : Machine) : Prop :=
  (∀ entry ∈ jobs, ∃ index origin path?, entry.1 = Job.new index origin path?) ∧
    (new jobs config files journal).start = (.ok (), first)

/-- The machines of a run from `first`: what the last tick came to, the machines before it, the
latest first, and the machine that the run has come to. -/
inductive Run (first : Machine) : Progress → List Machine → Machine → Prop
  /-- No tick. -/
  | start : Run first .running [] first
  /-- One more tick. -/
  | tick {past : List Machine} {m m' : Machine} {p : Progress} :
      Run first .running past m → m.tick = (p, m') → Run first p (m :: past) m'

/-- A run from `first` to `m` and one from there to `m'` can be put together. -/
theorem Run.trans {first : Machine} {past later : List Machine} {p : Progress}
    (h : Run first .running past m) (h' : Run m p later m') : Run first p (later ++ past) m' := by
  induction h' with
  | start => exact h
  | tick _ htick ih => exact .tick ih htick

/-- Each machine `x` that a run has come through is what a part of the run has come to. -/
theorem Run.run_of_mem {first x : Machine} {past : List Machine} {p : Progress}
    (h : Run first p past m) (hx : x ∈ past) :
    ∃ earlier, (∀ y ∈ earlier, y ∈ past) ∧ Run first .running earlier x := by
  induction h with
  | start => exact absurd hx List.not_mem_nil
  | @tick past m _ _ hrun _ ih =>
    rcases List.mem_cons.1 hx with rfl | hmem
    · exact ⟨past, fun _ => List.mem_cons_of_mem x, hrun⟩
    · obtain ⟨earlier, hearlier, hrun'⟩ := ih hmem
      exact ⟨earlier, fun y hy => List.mem_cons_of_mem m (hearlier y hy), hrun'⟩

/-- After an exit there is no further tick: a run from `first` has come no further than its first
tick, if that exits. -/
theorem Run.of_exits {first : Machine} {past : List Machine} {status : Word}
    (hexits : first.tick = (.exited status, m₁)) (hrun : Run first p past m) :
    (past = [] ∧ m = first) ∨ (past = [first] ∧ m = m₁ ∧ p = .exited status) := by
  induction hrun with
  | start => exact .inl ⟨rfl, rfl⟩
  | tick _ htick ih =>
    rcases ih with ⟨rfl, rfl⟩ | ⟨_, _, hexited⟩
    · obtain ⟨rfl, rfl⟩ := Prod.mk.inj (htick.symm.trans hexits)
      exact .inr ⟨rfl, rfl, rfl⟩
    · simp at hexited

theorem tickUpTo_succ {n : Nat} (htick : m.tick = (.running, m₁)) :
    tickUpTo (n + 1) m = tickUpTo n m₁ := by
  rw [tickUpTo.eq_def]
  simp only [htick]

/-- The ticks of `tickUpTo n m` are those of a run from `m`. They end with an exit, or all of them
are made. -/
theorem exists_run_of_tickUpTo (n : Nat) (m : Machine) :
    ∃ p later, Run m p later (tickUpTo n m).2 ∧ later.length ≤ n ∧
      ((p = .running ∧ (tickUpTo n m).1 = none ∧ later.length = n) ∨
        ∃ s, p = .exited s ∧ (tickUpTo n m).1 = some s) := by
  induction n generalizing m with
  | zero => exact ⟨.running, [], .start, Nat.le_refl _, .inl ⟨rfl, rfl, rfl⟩⟩
  | succ n ih =>
    rcases htick : m.tick with ⟨p, m₁⟩
    cases p with
    | exited s =>
      have hsame : tickUpTo (n + 1) m = (some s, m₁) := by simp [tickUpTo, htick]
      rw [hsame]
      exact ⟨.exited s, [m], .tick .start htick, by simp, .inr ⟨s, rfl, rfl⟩⟩
    | running =>
      obtain ⟨p, later, hrun, hlength, hends⟩ := ih m₁
      rw [tickUpTo_succ htick]
      refine ⟨p, later ++ [m], (Run.tick .start htick).trans hrun, by simpa using hlength, ?_⟩
      rcases hends with ⟨hp, hnone, hall⟩ | hexits
      · exact .inl ⟨hp, hnone, by simpa using hall⟩
      · exact .inr hexits

/-- `m.pastUpTo n`: the machines that `m` comes to in fewer than `n` ticks, the latest first. -/
def pastUpTo (m : Machine) (n : Nat) : List Machine :=
  ((List.range n).map fun i => (tickUpTo i m).2).reverse

/-- As long as it does not exit, what `n` ticks of `m` come to is a machine of a run, and the
machines before it are those that fewer ticks come to. -/
theorem run_tickUpTo {n : Nat} (h : (tickUpTo n m).1 = none) :
    Run m .running (m.pastUpTo n) (tickUpTo n m).2 := by
  induction n generalizing m with
  | zero => exact .start
  | succ n ih =>
    rcases htick : m.tick with ⟨p, m₁⟩
    cases p with
    | exited status => simp [tickUpTo, htick] at h
    | running =>
      -- the first machine of the run is the last of its past
      have hpast : m.pastUpTo (n + 1) = m₁.pastUpTo n ++ [m] := by
        unfold pastUpTo
        rw [List.range_succ_eq_map, List.map_cons, List.map_map, List.reverse_cons]
        simp only [Function.comp_def, tickUpTo_succ htick]
        rfl
      rw [tickUpTo_succ htick] at h ⊢
      rw [hpast]
      exact (Run.tick .start htick).trans (ih h)

theorem run_of_tickUpTo {n : Nat} (h : (tickUpTo n m).1 = none) :
    ∃ past, Run m .running past (tickUpTo n m).2 ∧ ∀ x ∈ past, ∃ i < n, (tickUpTo i m).2 = x :=
  ⟨m.pastUpTo n, run_tickUpTo h, by simp [pastUpTo]⟩

/-- Whether `jobs` have not run yet, and start successfully, can be tried out. -/
theorem launches_of_isOk {jobs : List (Job × Option Reader)} {config : Config} {files : Files}
    {journal : Journal}
    (hjobs : ∀ entry ∈ jobs, entry.1 = .new entry.1.index entry.1.origin entry.1.path?)
    (hok : (new jobs config files journal).start.1.isOk = true) :
    Launches jobs config files journal (new jobs config files journal).start.2 := by
  refine ⟨fun entry hentry => ⟨_, _, _, hjobs entry hentry⟩, Prod.ext ?_ rfl⟩
  revert hok
  cases (new jobs config files journal).start.1 <;> simp [Except.isOk, Except.toBool]

/-! ## An example -/

/-- Two jobs that read a word and write it. -/
def echoJobs : List (Job × Option Reader) :=
  [(.new 0 "first" none, some (.ofText "first" "$JOB first\nf 2 1\nf 3 1\n$RUN\n7\n$END\n")),
    (.new 1 "second" none, some (.ofText "second" "$JOB second\nf 2 1\nf 3 1\n$RUN\n9\n$END\n"))]

/-- The machine of `echoJobs` after their start. -/
def echoFirst : Machine :=
  (new echoJobs .standard .empty (.new none)).start.2

theorem launches_echo : Launches echoJobs .standard .empty (.new none) echoFirst :=
  launches_of_isOk (by decide +kernel) (by decide +kernel)

section New

variable {jobs : List (Job × Option Reader)} (config : Config) (files : Files) (journal : Journal)

/-- The devices of `n` jobs, two for each in turn. -/
theorem devices_new (n delay : Nat) :
    ((List.range n).flatMap fun j => [Device.newInput j delay, Device.newOutput j delay]).length =
        2 * n ∧
      ∀ j < n, ((List.range n).flatMap fun j =>
          [Device.newInput j delay, Device.newOutput j delay])[2 * j]? =
            some (.newInput j delay) ∧
        ((List.range n).flatMap fun j =>
          [Device.newInput j delay, Device.newOutput j delay])[2 * j + 1]? =
            some (.newOutput j delay) := by
  induction n with
  | zero => exact ⟨rfl, fun j hj => absurd hj (Nat.not_lt_zero j)⟩
  | succ n ih =>
    obtain ⟨hlength, hget⟩ := ih
    rw [List.range_succ, List.flatMap_append]
    simp only [List.flatMap_cons, List.flatMap_nil, List.append_nil]
    refine ⟨by simp only [List.length_append, hlength, List.length_cons, List.length_nil]; omega,
      fun j hj => ?_⟩
    rcases Nat.lt_or_ge j n with hlt | hge
    · rw [List.getElem?_append_left (by omega), List.getElem?_append_left (by omega)]
      exact hget j hlt
    · obtain rfl : j = n := by omega
      rw [List.getElem?_append_right (by omega), List.getElem?_append_right (by omega), hlength]
      simp

/-- What belongs to job `j` of a machine that has not started. -/
theorem view_new (hj : j < jobs.length) :
    (new jobs config files journal).view j =
      ⟨{ jobs[j].1 with trap := .clear }, jobs[j].2, .newInput j config.deviceDelay,
        .newOutput j config.deviceDelay⟩ := by
  obtain ⟨_, hget⟩ := devices_new jobs.length config.deviceDelay
  obtain ⟨hinput, houtput⟩ := hget j hj
  have hjob : (new jobs config files journal).job j = jobs[j].1 := by
    simp [new, job, hj]
  have hrun : (new jobs config files journal).runs j = false := rfl
  have hsource : (new jobs config files journal).hardware.source? j = jobs[j].2 := by
    simp [new, Hardware.new, Hardware.source?, hj]
  have hin : (new jobs config files journal).hardware.device? (inputNumber j) =
      some (.newInput j config.deviceDelay) := by
    simpa [new, Hardware.new, Hardware.device?, inputNumber] using hinput
  have hout : (new jobs config files journal).hardware.device? (outputNumber j) =
      some (.newOutput j config.deviceDelay) := by
    simpa [new, Hardware.new, Hardware.device?, outputNumber] using houtput
  simp only [view, regsOf, hrun, hjob, hsource, hin, hout, Option.getD_some]
  rfl

theorem wired_new (hne : jobs ≠ [])
    (hjobs : ∀ entry ∈ jobs, ∃ index origin path?, entry.1 = Job.new index origin path?) :
    (new jobs config files journal).Wired := by
  have hsize : (new jobs config files journal).jobs.size = jobs.length := by simp [new]
  constructor
  case devices =>
    rw [hsize]
    exact (devices_new jobs.length config.deviceDelay).1
  case sources => simp [new, Hardware.new]
  case current =>
    rw [hsize]
    exact List.length_pos_iff.2 hne
  case program =>
    intro hbusy
    exact absurd (show (new jobs config files journal).idle = true from rfl) (by simp [hbusy])
  case saved =>
    intro j hj
    rw [hsize] at hj
    obtain ⟨index, origin, path?, hnew⟩ := hjobs jobs[j] (List.getElem_mem hj)
    have hjob : (new jobs config files journal).job j = jobs[j].1 := by
      simp [new, job, hj]
    rw [hjob, hnew]
    rfl
  case input =>
    intro j hj
    rw [view_new config files journal (hsize ▸ hj)]
    exact ⟨rfl, .inl rfl⟩
  case output =>
    intro j hj
    rw [view_new config files journal (hsize ▸ hj)]
    exact ⟨rfl, 0, none, rfl⟩

/-- Before the start job `j` has not run yet, and its devices are new. -/
theorem exists_view_new
    (hjobs : ∀ entry ∈ jobs, ∃ index origin path?, entry.1 = Job.new index origin path?)
    (hj : j < jobs.length) :
    ∃ index origin path?, (new jobs config files journal).view j =
      ⟨.new index origin path?, jobs[j].2, .newInput j config.deviceDelay,
        .newOutput j config.deviceDelay⟩ := by
  obtain ⟨index, origin, path?, hnew⟩ := hjobs jobs[j] (List.getElem_mem hj)
  refine ⟨index, origin, path?, ?_⟩
  rw [view_new config files journal hj, hnew]
  rfl

/-- Job `j` is sound before it runs. -/
theorem sound_new
    (hjobs : ∀ entry ∈ jobs, ∃ index origin path?, entry.1 = Job.new index origin path?)
    (hj : j < jobs.length) : ((new jobs config files journal).view j).Sound j := by
  obtain ⟨index, origin, path?, hview⟩ := exists_view_new config files journal hjobs hj
  rw [hview]
  constructor
  case owns => exact fun r hr => by simp [Job.new] at hr
  case fits => exact Nat.zero_le _
  case lines => exact fun side => by cases side <;> exact .inl rfl
  case quiet => exact fun _ side => by cases side <;> rfl
  case finished => exact fun hlife => by simp [Job.new] at hlife
  case fresh => exact fun _ _ => ⟨rfl, rfl, rfl, rfl, rfl, rfl, rfl⟩
  case booted => exact fun hboot => by simp [Job.new] at hboot

end New

/-- `startAmong` hands the processor over to one of the jobs `js`, after giving up those before it,
if it is successful, and else gives up all. -/
theorem startAmong_cases {js : List Nat} {started : Bool} (hpass : m.Passes m₁)
    (hvacant : m₁.Vacant) (hsorted : js.Pairwise (· < ·))
    (hjs : ∀ j ∈ js, j < m₁.jobs.size ∧ (m₁.job j).life = .runnable)
    (hrest : ∀ f < m₁.jobs.size, (m₁.job f).life ≠ .finished → f ∈ js)
    (h : startAmong js m₁ = (started, m')) :
    (started = true ∧ m.Hands .running m') ∨
      (started = false ∧ m.Passes m' ∧ ∀ f < m'.jobs.size, (m'.job f).life = .finished) := by
  induction js generalizing m₁ with
  | nil =>
    obtain ⟨rfl, rfl⟩ := Prod.mk.inj h
    refine .inr ⟨rfl, hpass, fun f hf => ?_⟩
    by_contra hunfinished
    exact absurd (hrest f hf hunfinished) List.not_mem_nil
  | cons j js ih =>
    obtain ⟨hj, hlife⟩ := hjs j List.mem_cons_self
    obtain ⟨hleast, hsorted'⟩ := List.pairwise_cons.1 hsorted
    unfold startAmong at h
    rcases activate_cases hvacant.wired hj hvacant.line (hvacant.loadable j hj) with
      ⟨hrun, _⟩ | ⟨_, m₂, hact, hstart⟩ | ⟨_, hboot, m₂, e, hact, hspare, hbarred⟩
    · rw [hvacant.runs_eq_false hlife] at hrun
      exact absurd hrun (by decide)
    · rw [hact] at h
      cases h
      -- no job before this one is left, so it is the first that is not over
      refine .inl ⟨rfl, .starts hpass hj hlife (fun _ f hf _ hunfinished => ?_) hstart⟩
      rcases List.mem_cons.1 (hrest f hf hunfinished) with rfl | hmem
      · exact Nat.le_refl _
      · exact Nat.le_of_lt (hleast f hmem)
    · rw [hact] at h
      have hdrop := hspare.giveUp hj hbarred e
      have hother : ∀ i, i ≠ j → ((m₂.giveUp j e).job i).life = (m₁.job i).life := by
        intro i hne
        rw [← view_life, hdrop.view i hne, view_life]
      refine ih (hpass.drop hboot hlife hdrop) (hdrop.vacant hvacant) hsorted'
        (fun i hi => ?_) (fun f hf hunfinished => ?_) h
      · obtain ⟨hlt, hrunnable⟩ := hjs i (List.mem_cons_of_mem _ hi)
        rw [hother i (Nat.ne_of_gt (hleast i hi))]
        exact ⟨hdrop.size.symm ▸ hlt, hrunnable⟩
      · have hne : f ≠ j := by
          rintro rfl
          rw [← view_life, hdrop.dropped] at hunfinished
          exact hunfinished rfl
        rw [hother f hne] at hunfinished
        exact (List.mem_cons.1 (hrest f (hdrop.size ▸ hf) hunfinished)).resolve_left hne

section Launch

variable {jobs : List (Job × Option Reader)} {config : Config} {files : Files} {journal : Journal}
  {first : Machine}

theorem Launches.ne_nil (h : Launches jobs config files journal first) : jobs ≠ [] := by
  rintro rfl
  have hstart := h.2
  simp [start, new] at hstart

/-- What `start` comes to. If it is not successful, no job is left in `first`. -/
theorem start_cases {res : Except StartError Unit}
    (hjobs : ∀ entry ∈ jobs, ∃ index origin path?, entry.1 = Job.new index origin path?)
    (h : (new jobs config files journal).start = (res, first)) :
    (res = .ok () ∧ (new jobs config files journal).Hands .running first) ∨
      (res ≠ .ok () ∧ (new jobs config files journal).Passes first ∧
        ∀ k < first.jobs.size, (first.job k).life = .finished) := by
  unfold start at h
  split at h
  · rename_i hnone
    obtain ⟨rfl, rfl⟩ := Prod.mk.inj h
    refine .inr ⟨by simp, .refl _, fun k hk => ?_⟩
    rw [Array.isEmpty_iff.1 hnone] at hk
    exact absurd hk (Nat.not_lt_zero k)
  · rename_i hsome
    have hne : jobs ≠ [] := by
      rintro rfl
      simp [new] at hsome
    have w := wired_new config files journal hne hjobs
    have hvacant : (new jobs config files journal).Vacant :=
      ⟨w, fun j hj => (sound_new config files journal hjobs (by simpa [new] using hj)).fits, rfl,
        fun hbusy => absurd hbusy (by simp [new])⟩
    have hjs : ∀ j ∈ List.range (new jobs config files journal).jobs.size,
        j < (new jobs config files journal).jobs.size ∧
          ((new jobs config files journal).job j).life = .runnable := by
      intro j hj
      have hlt := List.mem_range.1 hj
      have hlt' : j < jobs.length := by simpa [new] using hlt
      refine ⟨hlt, ?_⟩
      obtain ⟨index, origin, path?, hview⟩ := exists_view_new config files journal hjobs hlt'
      rw [← view_life, hview]
      rfl
    rcases hamong : startAmong (List.range (new jobs config files journal).jobs.size)
        (new jobs config files journal) with ⟨started, m₁⟩
    rw [hamong] at h
    -- the jobs are tried in the order of the table, none of which has begun before its turn
    have hcases := startAmong_cases (.refl _) hvacant List.pairwise_lt_range hjs
      (fun f hf _ => List.mem_range.2 hf) hamong
    cases started with
    | true =>
      obtain ⟨rfl, rfl⟩ := Prod.mk.inj h
      exact .inl ⟨rfl, by simpa using hcases⟩
    | false =>
      obtain ⟨rfl, rfl⟩ := Prod.mk.inj h
      exact .inr ⟨by simp, by simpa using hcases⟩

theorem Launches.hands (h : Launches jobs config files journal first) :
    (new jobs config files journal).Hands .running first := by
  rcases start_cases h.1 h.2 with ⟨_, hhands⟩ | ⟨hfailed, _⟩
  · exact hhands
  · exact absurd rfl hfailed

theorem Launches.size (h : Launches jobs config files journal first) :
    first.jobs.size = jobs.length := by
  rw [h.hands.settles.size]
  simp [new]

/-- What the start does to job `j`. -/
theorem Launches.shift (h : Launches jobs config files journal first) (hj : j < jobs.length) :
    (new jobs config files journal).Shift first j :=
  h.hands.shift (by simpa [new] using hj)

/-- `first` is sound after the start. -/
theorem Launches.sound (h : Launches jobs config files journal first) : first.Sound := by
  have hsettles := h.hands.settles
  have hnone : first.culprit? = none := hsettles.culprit
  have w := wired_new config files journal h.ne_nil h.1
  have hsize : (new jobs config files journal).jobs.size = jobs.length := by simp [new]
  constructor
  case wired => exact hsettles.wired
  case ordered =>
    intro j f hj hf hboot hbegun
    have hj' : j < jobs.length := h.size ▸ hj
    -- no job is booted before the start, so a booted job is the one that it has handed over to
    rcases (h.shift hj').booted_or hboot with hbooted | hfirst
    · obtain ⟨index, origin, path?, hview⟩ := exists_view_new config files journal h.1 hj'
      rw [← view_boot, hview] at hbooted
      simp [Job.new] at hbooted
    · exact hfirst f (hsize.symm ▸ h.size ▸ hf) hbegun
  case job =>
    intro j hj
    have hj' : j < jobs.length := h.size ▸ hj
    exact (h.shift hj').sound w (hsize.symm ▸ hj')
      (sound_new config files journal h.1 hj')
  case scheduled => exact h.hands.scheduled.1 rfl
  case charged =>
    refine ⟨fun i hi => ?_, fun hbusy => ?_, fun _ => .inl hsettles.line⟩
    · rw [hnone] at hi
      simp at hi
    · rw [hsettles.line] at hbusy
      exact absurd hbusy (by decide)

/-! ## What runs keep -/

/-- The machine `m` of a run is sound unless it has exited, and so are those that the run has left
behind. -/
theorem Run.sound {past : List Machine} {p : Progress} (h : first.Sound)
    (hrun : Run first p past m) : (∀ x ∈ past, x.Sound) ∧ (p = .running → m.Sound) := by
  induction hrun with
  | start => exact ⟨by simp, fun _ => h⟩
  | tick _ htick ih =>
    obtain ⟨hpast, hlast⟩ := ih
    refine ⟨fun x hx => ?_, fun hp => ?_⟩
    · rcases List.mem_cons.1 hx with rfl | hmem
      · exact hlast rfl
      · exact hpast x hmem
    · subst hp
      exact (hlast rfl).tick htick

/-- Job `k`, if it is over, lasts through a run. -/
theorem Run.lasts {past : List Machine} {p : Progress} (h : first.Sound)
    (hrun : Run first p past m) (hk : k < first.jobs.size) :
    m.jobs.size = first.jobs.size ∧ first.Lasts k m := by
  induction hrun with
  | start => exact ⟨rfl, fun hlife => ⟨hlife, rfl, rfl, rfl⟩⟩
  | tick hrun htick ih =>
    obtain ⟨hsize, hlasts⟩ := ih
    obtain ⟨hsize', hlasts'⟩ := ((hrun.sound h).2 rfl).lasts htick (hsize.symm ▸ hk)
    exact ⟨hsize'.trans hsize, hlasts.trans hlasts'⟩

/-- No job comes or goes in a run from `first` to `m`. -/
theorem Run.size (hlaunch : Launches jobs config files journal first) {past : List Machine}
    {p : Progress} (hrun : Run first p past m) : m.jobs.size = jobs.length := by
  have hpos : 0 < first.jobs.size := Nat.zero_lt_of_lt hlaunch.sound.wired.current
  rw [(hrun.lasts hlaunch.sound hpos).1, hlaunch.size]

/-- A job that runs has its program in the processor, and a job that is over, one that has been
booted and one that has not been are as the scheduler knows them. -/
structure WellScheduled (m : Machine) : Prop where
  /-- The current job is one of the jobs. -/
  current : m.current < m.jobs.size
  /-- If the processor does not idle, the current job is booted and can run, and its image, which
  fits the instruction memory, is in the processor. -/
  busy : m.idle = false → (m.job m.current).boot = .booted ∧
    (m.job m.current).life = .runnable ∧
    m.hardware.cpu.program = (m.job m.current).image ∧
    (m.job m.current).image.size ≤ imageLimit
  /-- If the processor idles, its program counter says so, no job can run and one waits. -/
  idle : m.idle = true → m.hardware.cpu.regs.pc = Registers.idlePc ∧
    (∀ j < m.jobs.size, (m.job j).life ≠ .runnable) ∧
    ∃ j < m.jobs.size, (m.job j).life = .waiting
  /-- A job that is over has no text, no request and no register to fill, its devices are unbound,
  and its outcome is known. -/
  finished : ∀ j < m.jobs.size, (m.job j).life = .finished →
    m.hardware.source? j = none ∧ (m.job j).pending? = none ∧ (m.job j).target? = none ∧
    (∃ d, m.hardware.device? (inputNumber j) = some d ∧ d.job? = none) ∧
    (∃ d, m.hardware.device? (outputNumber j) = some d ∧ d.sink? = none) ∧
    (m.job j).outcome?.isSome = true
  /-- The input device of a booted job that is not over is bound to the job itself, and its output
  device is bound. -/
  booted : ∀ j < m.jobs.size, (m.job j).boot = .booted → (m.job j).life ≠ .finished →
    (∃ d, m.hardware.device? (inputNumber j) = some d ∧ d.job? = some j) ∧
    ∃ d, m.hardware.device? (outputNumber j) = some d ∧ d.sink?.isSome = true
  /-- A job that has not been booted and is not over can run, no segment of it has been loaded, its
  registers are zero and its devices unbound. -/
  fresh : ∀ j < m.jobs.size, (m.job j).boot = .fresh → (m.job j).life ≠ .finished →
    (m.job j).life = .runnable ∧ (m.job j).segments = 0 ∧ (m.job j).registers = .zero ∧
    (∃ d, m.hardware.device? (inputNumber j) = some d ∧ d.job? = none) ∧
    ∃ d, m.hardware.device? (outputNumber j) = some d ∧ d.sink? = none

theorem Sound.wellScheduled (h : m.Sound) : m.WellScheduled := by
  have hin : ∀ j < m.jobs.size, m.hardware.device? (inputNumber j) = some (m.view j).input :=
    fun j hj => device?_inputNumber h.wired hj
  have hout : ∀ j < m.jobs.size, m.hardware.device? (outputNumber j) = some (m.view j).output :=
    fun j hj => device?_outputNumber h.wired hj
  constructor
  case current => exact h.wired.current
  case busy =>
    intro hidle
    obtain ⟨_, hlife, hboot⟩ := h.engaged hidle
    exact ⟨hboot, hlife, h.wired.program hidle, (h.job _ h.wired.current).fits⟩
  case idle =>
    intro hidle
    have hresting := h.resting hidle
    exact ⟨hresting.pc, hresting.stopped, hresting.waiter⟩
  case finished =>
    intro j hj hlife
    have hclosed := (h.job j hj).finished hlife
    exact ⟨hclosed.source, hclosed.pending, hclosed.target, ⟨_, hin j hj, hclosed.input⟩,
      ⟨_, hout j hj, hclosed.output⟩, hclosed.outcome⟩
  case booted =>
    intro j hj hboot hlife
    have hopen := (h.job j hj).booted hboot hlife
    exact ⟨⟨_, hin j hj, hopen.input⟩, ⟨_, hout j hj, hopen.output⟩⟩
  case fresh =>
    intro j hj hboot hlife
    have huntouched := (h.job j hj).fresh hboot hlife
    -- a fresh job does not run, so the registers of its view are those that are saved
    have hstopped : m.runs j = false := by
      rw [Bool.eq_false_iff]
      intro hrun
      rw [(h.of_runs hrun).2] at hboot
      exact absurd hboot (by decide)
    have hregisters : (m.job j).registers = .zero := by
      have := huntouched.registers
      rwa [view_registers, regsOf, hstopped] at this
    exact ⟨huntouched.life, huntouched.segments, hregisters, ⟨_, hin j hj, huntouched.input⟩,
      ⟨_, hout j hj, huntouched.output⟩⟩

/-- The scheduler invariant: between the ticks of a run the jobs are well scheduled in `m`, and once
job `j` is over it stays so, with its segments, its name and its image, whatever `later` machines
come after. -/
theorem scheduler_invariant (hlaunch : Launches jobs config files journal first)
    {past : List Machine} (hrun : Run first .running past m) :
    m.jobs.size = jobs.length ∧ m.WellScheduled ∧
      ∀ j < jobs.length, (m.job j).life = .finished →
        ∀ (p : Progress) (later : List Machine) (m' : Machine), Run m p later m' →
          (m'.job j).life = .finished ∧ (m'.job j).segments = (m.job j).segments ∧
            (m'.job j).name = (m.job j).name ∧ (m'.job j).image = (m.job j).image := by
  have hsound : m.Sound := (hrun.sound hlaunch.sound).2 rfl
  have hsize : m.jobs.size = jobs.length := by
    have hpos : 0 < first.jobs.size :=
      Nat.lt_of_le_of_lt (Nat.zero_le _) hlaunch.sound.wired.current
    rw [(hrun.lasts hlaunch.sound hpos).1, hlaunch.size]
  refine ⟨hsize, hsound.wellScheduled, fun j hj hlife p later m' hlater => ?_⟩
  exact (hlater.lasts hsound (hsize.symm ▸ hj)).2 hlife

/-- Five ticks later both jobs wait. -/
theorem scheduler_invariant_echo :
    (tickUpTo 5 echoFirst).2.idle = true ∧ (tickUpTo 5 echoFirst).2.WellScheduled := by
  obtain ⟨past, hrun, _⟩ := run_of_tickUpTo (m := echoFirst) (n := 5) (by decide +kernel)
  exact ⟨by decide +kernel, (scheduler_invariant launches_echo hrun).2.1⟩

end Launch

end Machine

end BatchMachine
