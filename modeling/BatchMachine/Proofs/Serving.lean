import BatchMachine.Proofs.Switching

/-!
# What serving a trap does

Every handler is a few elementary changes to what belongs to one job, after which the processor
may turn to another job. This module says what the changes are.

* `Machine.Ends`: a segment of a job has ended, and the next one is loaded or the job dismissed.
* `Machine.Asks`: a job has asked for a transfer and waits.
* `Machine.Fails`, `Machine.Collects`: a transfer has been signalled, and failed or worked.
* `Machine.serveTrap_cases`, `Machine.stepProcessor_cases`: all that the processor's turn can do.
-/

namespace BatchMachine

open JobText

namespace View

/-- The request of job `j`, as `v` shows it, is for one of its own devices. -/
def Owns (v : View) (j : Nat) : Prop :=
  ∀ r, v.job.pending? = some r → ∃ side : Side, r.device = side.number j ∧ r.trap = side.request

/-- Job `j` as `v` shows it, when its held request, if it has one, is offered to its device. -/
def offered (v : View) (j : Nat) : View :=
  match v.job.pending? with
  | none => v
  | some r =>
    let side : Side := if r.device = inputNumber j then .input else .output
    if (v.device side).isIdle then
      { v.withDevice side { v.device side with trap := .raise r.trap r.data } with
        job := { v.job with pending? := none } }
    else v

/-- The held request `r` goes to the device on the side `side`, if this has nothing to do. -/
theorem offered_of_device {v : View} {j : Nat} {r : DeviceRequest} (side : Side)
    (h : v.job.pending? = some r) (hdevice : r.device = side.number j) :
    v.offered j = if (v.device side).isIdle then
      { v.withDevice side { v.device side with trap := .raise r.trap r.data } with
        job := { v.job with pending? := none } }
      else v := by
  have hside : (if r.device = inputNumber j then Side.input else .output) = side := by
    rw [hdevice]
    cases side <;> simp [Side.number, inputNumber, outputNumber]
  simp only [offered, h, hside]

/-- Offering the request of job `j` changes nothing, or the request is on the trap line of a device
that has had nothing to do, and is held no more. -/
theorem offered_cases (v : View) (j : Nat) : v.offered j = v ∨
    ∃ side r, v.job.pending? = some r ∧ (v.device side).isIdle = true ∧
      v.offered j = { v.withDevice side { v.device side with trap := .raise r.trap r.data } with
        job := { v.job with pending? := none } } := by
  unfold offered
  cases v.job.pending? with
  | none => exact .inl rfl
  | some r =>
    simp only
    generalize (if r.device = inputNumber j then Side.input else .output) = side
    by_cases hidle : (v.device side).isIdle = true
    · rw [if_pos hidle]
      exact .inr ⟨side, r, rfl, hidle, rfl⟩
    · rw [if_neg hidle]
      exact .inl rfl

/-- The job that `v` shows when it waits for the request `r`. An input request names the register
`target?` to fill. -/
def asking (v : View) (target? : Option Word) (r : DeviceRequest) : View :=
  { v with job := { v.job with life := .waiting, target?, pending? := some r } }

/-- The job that `v` shows when its device on the side `side` has nothing on its trap line any
more. -/
def acknowledged (v : View) (side : Side) : View :=
  v.withDevice side { v.device side with trap := .clear }

/-- The job that `v` shows when it has fetched the word that its input device holds, if it has named
a register for it, and does not wait any more. -/
def collected (v : View) (side : Side) : View :=
  { v.acknowledged side with
    job := { v.job with
      target? := none
      registers := match side, v.job.target? with
        | .input, some r => v.job.registers.set r v.input.trap.data
        | _, _ => v.job.registers
      life := if v.job.life = .waiting then .runnable else v.job.life } }

/-- A job that has asked for a transfer with one of its devices, naming a register that holds
`value`. -/
def asks (v : View) (j : Nat) (side : Side) (register value : Word) : View :=
  match side with
  | .input => (v.asking (some register) ⟨inputNumber j, .getw, 0⟩).offered j
  | .output => (v.asking v.job.target? ⟨outputNumber j, .putw, value⟩).offered j

/-- The job that `v` shows when its latest segment has ended with the outcome `o`. -/
def withOutcome (v : View) (o : Outcome) : View :=
  { v with job := { v.job with outcome? := some o } }

end View

namespace Machine

variable {m m' : Machine} {j k : Nat}

/-! ## Setting the trap line -/

/-- `m'` comes from `m` by putting `line` on the trap line of the processor. The next error is
charged to `culprit?`. -/
structure Signals (line : TrapLine) (culprit? : Option Nat) (m m' : Machine) : Prop where
  wired : m'.Wired
  control : m'.control = { m.control with culprit? }
  line : m'.line = line
  pc : m'.hardware.cpu.regs.pc = m.hardware.cpu.regs.pc
  files : m'.hardware.files = m.hardware.files
  view : ∀ k, m'.view k = m.view k

theorem Signals.size {line : TrapLine} {culprit? : Option Nat}
    (h : m.Signals line culprit? m') : m'.jobs.size = m.jobs.size :=
  congrArg Control.size h.control

theorem Signals.segments_eq {line : TrapLine} {culprit? : Option Nat}
    (h : m.Signals line culprit? m') (k : Nat) : (m'.job k).segments = (m.job k).segments :=
  congrArg (fun v => v.job.segments) (h.view k)

theorem signals_setTrap (w : m.Wired) (line : TrapLine) :
    m.Signals line m.culprit? (m.setTrap line) :=
  ⟨⟨w.devices, w.sources, w.current, w.program, w.saved, w.input, w.output⟩, rfl, rfl, rfl, rfl,
    fun _ => rfl⟩

theorem signals_setTrap_culprit (w : m.Wired) (line : TrapLine) (culprit? : Option Nat) :
    m.Signals line culprit? { m.setTrap line with culprit? } :=
  ⟨⟨w.devices, w.sources, w.current, w.program, w.saved, w.input, w.output⟩, rfl, rfl, rfl, rfl,
    fun _ => rfl⟩

/-! ## Held requests -/

/-- `offer` lets a device take the held request of job `j` if it is idle. -/
theorem offer_spec (w : m.Wired) (hj : j < m.jobs.size) (hown : (m.view j).Owns j) :
    m.Touches j (m.offer j) ∧ (m.offer j).hardware.files = m.hardware.files ∧
      (m.offer j).view j = (m.view j).offered j := by
  unfold offer
  cases hpending : (m.job j).pending? with
  | none =>
    have hview : (m.view j).offered j = m.view j := by simp [View.offered, hpending]
    exact ⟨.refl w, rfl, hview.symm⟩
  | some r =>
    obtain ⟨side, hdevice, htrap⟩ := hown r hpending
    simp only [hdevice, device?_number w hj side]
    rw [View.offered_of_device (v := m.view j) side hpending hdevice]
    by_cases hidle : ((m.view j).device side).isIdle = true
    · simp only [hidle, if_true]
      have hadm : Job.Administrative fun job => { job with pending? := none } :=
        fun _ _ _ _ => rfl
      have htouch := touches_setDevice w hj ((w.isOf hj side).withTrap (.raise r.trap r.data))
      have hj' := htouch.size.symm ▸ hj
      have hmod := (touches_modifyJob htouch.wired hadm hj').note (.requested r)
      refine ⟨htouch.trans hmod, rfl, ?_⟩
      rw [view_note, view_modifyJob hadm hj', if_pos rfl, view_setDevice w hj, if_pos rfl]
      simp only [View.job_withDevice]
    · simp only [hidle, if_false, Bool.false_eq_true]
      exact ⟨(Touches.refl w).note _, rfl, rfl⟩

/-- `offerHeld` offers every held request to its device. -/
theorem offerHeld_spec (w : m.Wired) (hown : ∀ j < m.jobs.size, (m.view j).Owns j) :
    m.offerHeld.Wired ∧ m.offerHeld.control = m.control ∧
      m.offerHeld.hardware.cpu = m.hardware.cpu ∧
      m.offerHeld.hardware.files = m.hardware.files ∧
      ∀ j < m.jobs.size, m.offerHeld.view j = (m.view j).offered j := by
  -- the invariant of the loop: the first `n` jobs have been offered theirs, the others not yet
  have hfold : ∀ n ≤ m.jobs.size,
      let m' := Nat.fold n (fun j _ m => m.offer j) m
      m'.Wired ∧ m'.control = m.control ∧ m'.hardware.cpu = m.hardware.cpu ∧
        m'.hardware.files = m.hardware.files ∧
        ∀ j < m.jobs.size, m'.view j = if j < n then (m.view j).offered j else m.view j := by
    intro n
    induction n with
    | zero => exact fun _ => ⟨w, rfl, rfl, rfl, fun j _ => by simp⟩
    | succ n ih =>
      intro hn
      obtain ⟨hw, hcontrol, hcpu, hfiles, hview⟩ := ih (by omega)
      simp only [Nat.fold_succ]
      generalize Nat.fold n (fun j _ m => m.offer j) m = m₁ at *
      have hsize : m₁.jobs.size = m.jobs.size := congrArg Control.size hcontrol
      have hn₁ : n < m₁.jobs.size := by omega
      have hviewn : m₁.view n = m.view n := by simpa using hview n hn
      obtain ⟨htouch, hfiles', hoffered⟩ := offer_spec hw hn₁ (hviewn ▸ hown n hn)
      refine ⟨htouch.wired, htouch.control.trans hcontrol, htouch.cpu.trans hcpu,
        hfiles'.trans hfiles, fun j hj => ?_⟩
      by_cases h : j = n
      · subst h
        rw [hoffered, hviewn, if_pos (by omega)]
      · rw [htouch.view j h, hview j hj]
        by_cases hlt : j < n
        · rw [if_pos hlt, if_pos (by omega)]
        · rw [if_neg hlt, if_neg (by omega)]
  have h := hfold m.jobs.size (Nat.le_refl _)
  exact ⟨h.1, h.2.1, h.2.2.1, h.2.2.2.1,
    fun j hj => (h.2.2.2.2 j hj).trans (if_pos hj)⟩

theorem Signals.note {line : TrapLine} {culprit? : Option Nat} (h : m.Signals line culprit? m')
    (event : Event) : m.Signals line culprit? (m'.note event) :=
  ⟨⟨h.wired.devices, h.wired.sources, h.wired.current, h.wired.program, h.wired.saved,
    h.wired.input, h.wired.output⟩, h.control, h.line, h.pc, h.files, h.view⟩

theorem Signals.setTrap {line : TrapLine} {culprit? : Option Nat}
    (h : m.Signals line culprit? m') (line' : TrapLine) :
    m.Signals line' culprit? (m'.setTrap line') :=
  ⟨(signals_setTrap h.wired line').wired, h.control, rfl, h.pc, h.files, h.view⟩

theorem signals_refl (w : m.Wired) : m.Signals m.line m.culprit? m :=
  ⟨w, rfl, rfl, rfl, rfl, fun _ => rfl⟩

/-! ## The end of a segment -/

/-- `m'` comes from `m` by the end of a segment of job `j`. -/
structure Ends (j : Nat) (culprit? : Option Nat) (m m' : Machine) : Prop where
  wired : m'.Wired
  control : m'.control = { m.control with culprit? }
  line : m'.line.isIdle = true
  view : ∀ k, k ≠ j → m'.view k = m.view k

/-- `m'` comes from `m` by the end of a segment of job `j`, with the outcome `o`, that goes on with
the next one, `image`. -/
structure Reloads (j : Nat) (o : Outcome) (culprit? : Option Nat) (image : List Instruction)
    (reader : Reader) (m m' : Machine) : Prop extends m.Ends j culprit? m' where
  source : ∃ r, m.hardware.source? j = some r ∧ r.nextImage = (.ok (some image), reader)
  healthy : reader.healthy = true
  entered : ∃ loc, m.hardware.files.create (m.outputFile j ((m.job j).segments + 1)) =
      .ok (m'.hardware.files, loc) ∧
    m'.view j = ((m.view j).withOutcome o).entered j reader image
      (.ofFile m'.hardware.files loc)

/-- `m'` comes from `m` by the end of the last segment of job `j`, with the outcome `o`. -/
structure Retires (j : Nat) (o : Outcome) (culprit? : Option Nat) (m m' : Machine) : Prop
    extends m.Ends j culprit? m' where
  files : m.MayCreate j m'
  barred : m.Barred j m.hardware.files
  dismissed : m'.view j = ((m.view j).withOutcome o).dismissed

/-- Job `j` is dismissed with the segments that it has loaded. -/
theorem Retires.segments_eq {o : Outcome} {culprit? : Option Nat}
    (h : m.Retires j o culprit? m') : ∀ k, (m'.job k).segments = (m.job k).segments :=
  segments_eq_of_view h.view (by rw [h.dismissed]; rfl)

/-- The image that job `j` goes on with fits. -/
theorem Reloads.fits {o : Outcome} {culprit? : Option Nat} {image : List Instruction}
    {reader : Reader} (h : m.Reloads j o culprit? image reader m') :
    (m'.job j).image.size ≤ imageLimit := by
  obtain ⟨r, _, hnext⟩ := h.source
  obtain ⟨loc, _, hentered⟩ := h.entered
  rw [← view_image, hentered]
  simpa [View.entered, Job.enter] using Reader.length_nextImage_le hnext

theorem Ends.size {culprit? : Option Nat} (h : m.Ends j culprit? m') :
    m'.jobs.size = m.jobs.size :=
  congrArg Control.size h.control

theorem Ends.current {culprit? : Option Nat} (h : m.Ends j culprit? m') :
    m'.current = m.current :=
  congrArg Control.current h.control

theorem Ends.idle {culprit? : Option Nat} (h : m.Ends j culprit? m') : m'.idle = m.idle :=
  congrArg Control.idle h.control

theorem Ends.culprit {culprit? : Option Nat} (h : m.Ends j culprit? m') :
    m'.culprit? = culprit? :=
  congrArg Control.culprit? h.control

/-- After its trap has been taken off the line, the end of a segment of job `j` is noted, and the
next segment is loaded or the job dismissed. -/
theorem endSegment_ends {line : TrapLine} {culprit? : Option Nat} {m₀ : Machine}
    (h : m.Signals line culprit? m₀) (hline : line.isIdle = true) (hj : j < m.jobs.size)
    (o : Outcome) :
    (∃ m' image reader, (m₀.setOutcome j o).endSegment j = (true, m') ∧
      m.Reloads j o culprit? image reader m') ∨
    ∃ m', (m₀.setOutcome j o).endSegment j = (false, m') ∧ m.Retires j o culprit? m' := by
  have hadm : Job.Administrative fun job => { job with outcome? := some o } :=
    fun _ _ _ _ => rfl
  have hj₀ : j < m₀.jobs.size := h.size.symm ▸ hj
  have htouch := touches_modifyJob h.wired hadm hj₀
  have hview : (m₀.setOutcome j o).view j = (m.view j).withOutcome o := by
    have := view_modifyJob (m := m₀) (k := j) hadm hj₀
    rw [if_pos rfl, h.view] at this
    exact this
  have hline₁ : (m₀.setOutcome j o).line = line := h.line
  have hsegments : ((m₀.setOutcome j o).job j).segments = (m.job j).segments :=
    congrArg (fun v : View => v.job.segments) hview
  -- a trap that is taken off and an outcome that is noted touch neither the text nor the files
  have hpath : (m₀.setOutcome j o).outputFile j (((m₀.setOutcome j o).job j).segments + 1) =
      m.outputFile j ((m.job j).segments + 1) := by
    have hconfig : m₀.config = m.config := congrArg Control.config h.control
    simp only [outputFile, hsegments]
    rw [← hconfig]
    rfl
  have hfiles : (m₀.setOutcome j o).hardware.files = m.hardware.files := h.files
  have hsource : (m₀.setOutcome j o).hardware.source? j = m.hardware.source? j :=
    congrArg View.source? hview
  rcases endSegment_cases htouch.wired (htouch.size.symm ▸ hj₀) with
    ⟨m', image, reader, hend, hload⟩ | ⟨m', hend, hdismiss, hcreate, hbarred⟩
  · refine .inl ⟨m', image, reader, hend, ⟨hload.wired, ?_, ?_, ?_⟩, ?_, hload.healthy, ?_⟩
    · exact hload.control.trans (htouch.control.trans h.control)
    · rw [hload.line]
      split
      · rfl
      · exact hline₁.symm ▸ hline
    · intro k hk
      rw [hload.view k hk]
      exact (htouch.view k hk).trans (h.view k)
    · rw [← hsource]
      exact hload.source
    · obtain ⟨loc, hfile, hentered⟩ := hload.entered
      change (m₀.setOutcome j o).hardware.files.create ((m₀.setOutcome j o).outputFile j
        (((m₀.setOutcome j o).job j).segments + 1)) = _ at hfile
      change m'.view j = ((m₀.setOutcome j o).view j).entered j reader image _ at hentered
      rw [hfiles, hpath] at hfile
      rw [hview] at hentered
      exact ⟨loc, hfile, hentered⟩
  · refine .inr ⟨m', hend, ⟨hdismiss.wired, ?_, ?_, ?_⟩, ?_, ?_, ?_⟩
    · exact hdismiss.control.trans (htouch.control.trans h.control)
    · rw [Machine.line, hdismiss.cpu]
      exact (congrArg TrapLine.isIdle h.line).trans hline
    · intro k hk
      rw [hdismiss.view k hk]
      exact (htouch.view k hk).trans (h.view k)
    · have hspoilt : (m₀.setOutcome j o).Spoilt j ↔ m.Spoilt j :=
        spoilt_congr (congrArg Control.config (htouch.control.trans h.control)) hsegments hsource
          hfiles
      rcases hcreate with ⟨hnot, hsame⟩ | ⟨hspoils, loc, hfile⟩
      · exact .inl ⟨mt hspoilt.2 hnot, hsame.trans hfiles⟩
      · change (m₀.setOutcome j o).hardware.files.create ((m₀.setOutcome j o).outputFile j
          (((m₀.setOutcome j o).job j).segments + 1)) = _ at hfile
        rw [hfiles, hpath] at hfile
        exact .inr ⟨hspoilt.1 hspoils, loc, hfile⟩
    · intro r image reader created hr
      rw [← hsource] at hr
      rw [← hpath, ← hfiles]
      exact hbarred r image reader created hr
    · exact hdismiss.dismissed.trans (congrArg View.dismissed hview)

/-- `serveSegmentEnd`: the running job comes to the end of its image. -/
theorem serveSegmentEnd_cases (w : m.Wired) (hline : m.line.isIdle = true) :
    (∃ m' image reader, m.serveSegmentEnd = (.running, m') ∧
      m.Reloads m.current .completed m.culprit? image reader m') ∨
    ∃ m', m.serveSegmentEnd = m'.passOn 0 ∧ m.Retires m.current .completed m.culprit? m' := by
  unfold serveSegmentEnd retire
  rcases endSegment_ends ((signals_refl w).note (.reachedEnd m.current)) hline w.current
    .completed with ⟨m', image, reader, hend, h⟩ | ⟨m', hend, h⟩
  · simp only [hend]
    exact .inl ⟨m', image, reader, rfl, h⟩
  · simp only [hend]
    exact .inr ⟨m', rfl, h⟩

/-- `serveHalt`: the running job halts with the status in the register that `line.data` names. -/
theorem serveHalt_cases (w : m.Wired) (line : TrapLine) :
    let status := (m.hardware.cpu.regs.get? line.data).getD 0
    (∃ m' image reader, m.serveHalt line = (.running, m') ∧
      m.Reloads m.current (.halted status) m.culprit? image reader m') ∨
    ∃ m', m.serveHalt line = m'.passOn status ∧
      m.Retires m.current (.halted status) m.culprit? m' := by
  intro status
  have hsignal := (signals_setTrap w .clear).note (.halted m.current status)
  unfold serveHalt retire
  rcases endSegment_ends hsignal rfl w.current (.halted status) with
    ⟨m', image, reader, hend, h⟩ | ⟨m', hend, h⟩
  · refine .inl ⟨m', image, reader, ?_, h⟩
    simp only [status] at hend
    simp only [hend]
  · refine .inr ⟨m', ?_, h⟩
    simp only [status] at hend
    simp only [hend, status]

/-- `serveFatal`: an error is charged to a job, whose segment ends. If no other job runs the job
goes on at once, and if it is over the next one gets the processor. -/
theorem serveFatal_cases (w : m.Wired) (hculprit : ∀ j, m.culprit? = some j → j < m.jobs.size)
    (line : TrapLine) :
    let j := m.culprit?.getD m.current
    (∃ m₁ image reader, m.Reloads j (.fatal line.data) none image reader m₁ ∧
      m.serveFatal line = if m.idle then m₁.resume j line.data else (.running, m₁)) ∨
    ∃ m₁, m.Retires j (.fatal line.data) none m₁ ∧
      m.serveFatal line =
        if m.runs j || m.idle then m₁.passOn line.data else (.running, m₁) := by
  intro j
  have hj : j < m.jobs.size := by
    cases h : m.culprit? with
    | none => simpa [j, h] using w.current
    | some i => simpa [j, h] using hculprit i h
  have hsignal : m.Signals .clear none
      (({ m with culprit? := none }.setTrap .clear).note (.failed j line.data)) :=
    (signals_setTrap_culprit w .clear none).note _
  unfold serveFatal
  rcases endSegment_ends hsignal rfl hj (.fatal line.data) with
    ⟨m₁, image, reader, hend, h⟩ | ⟨m₁, hend, h⟩
  · refine .inl ⟨m₁, image, reader, h, ?_⟩
    simp only [j] at hend h
    simp only [hend, h.idle, j]
  · refine .inr ⟨m₁, h, ?_⟩
    simp only [j] at hend h
    simp only [hend, h.idle, j]

/-- If no job is loaded, `resume` lets a booted job `j` go on at once. -/
theorem resume_spec (w : m.Wired) (hj : j < m.jobs.size) (hline : m.line.isIdle = true)
    (hfits : (m.job j).image.size ≤ imageLimit) (hidle : m.idle = true)
    (hboot : (m.job j).boot = .booted) (status : Word) :
    ∃ m', m.resume j status = (.running, m') ∧ m.Installs j m' := by
  have hrun : m.runs j = false := by simp [runs, hidle]
  unfold resume
  rcases activate_cases w hj hline hfits with ⟨h, _⟩ | ⟨_, m', hact, hstart⟩ | ⟨_, h, _⟩
  · rw [hrun] at h
    exact absurd h (by decide)
  · rcases hstart with ⟨_, h⟩ | ⟨h, _⟩
    · exact ⟨m', by rw [hact], h⟩
    · rw [hboot] at h
      exact absurd h (by decide)
  · rw [hboot] at h
    exact absurd h (by decide)

/-! ## Requests -/

/-- `m'` comes from `m` by a request of the running job for its device on the side `side`. The job,
which has named `register` with the word `value` in it, waits from now on. -/
structure Asks (side : Side) (register value : Word) (m m' : Machine) : Prop where
  wired : m'.Wired
  control : m'.control = m.control
  line : m'.line = .clear
  files : m'.hardware.files = m.hardware.files
  view : ∀ k, k ≠ m.current → m'.view k = m.view k
  asked : m'.view m.current = (m.view m.current).asks m.current side register value

/-- Another job gets the processor while the running one waits, or the processor idles. -/
def giveWay (m : Machine) : Machine :=
  match m.rotate with
  | (true, m) => m
  | (false, m) => m.unload

/-- `await` offers the request `r` of the job that waits for one of its own devices. -/
theorem await_spec {m₁ : Machine} (hj : m.current < m.jobs.size) (h : m.Touches m.current m₁)
    (hfiles : m₁.hardware.files = m.hardware.files) (r : DeviceRequest) (target? : Option Word)
    (hview : m₁.view m.current =
      { m.view m.current with job := { (m.view m.current).job with target? } })
    (hown : ∃ side : Side, r.device = side.number m.current ∧ r.trap = side.request) :
    ∃ m₂, m₁.await m.current r = m₂.giveWay ∧ m.Touches m.current m₂ ∧
      m₂.hardware.files = m.hardware.files ∧
      m₂.view m.current = ((m.view m.current).asking target? r).offered m.current := by
  have hadm : Job.Administrative fun job => { job with life := .waiting, pending? := some r } :=
    fun _ _ _ _ => rfl
  have hnote := h.note (.waits m.current r)
  have hj' : m.current < (m₁.note (.waits m.current r)).jobs.size := hnote.size.symm ▸ hj
  have htouch := touches_modifyJob hnote.wired hadm hj'
  have hwaits := view_modifyJob (k := m.current) hadm hj'
  rw [if_pos rfl, view_note, hview] at hwaits
  obtain ⟨hoffer, hfiles', hoffered⟩ := offer_spec htouch.wired (htouch.size.symm ▸ hj') (by
    rw [hwaits]
    rintro r' hr'
    cases hr'
    exact hown)
  refine ⟨_, rfl, (hnote.trans htouch).trans hoffer, hfiles'.trans hfiles, ?_⟩
  rw [hoffered, hwaits]
  rfl

/-- `serveRequest`: the running job asks for a transfer on the side `side`, or it names a register
that does not exist, which is an error. -/
theorem serveRequest_cases (w : m.Wired) (side : Side) (line : TrapLine) :
    (m.hardware.cpu.regs.get? line.data = none ∧
      m.Signals (.raise .fatal 0) m.culprit? (m.serveRequest line (side = .input))) ∨
    ∃ value m₁, m.hardware.cpu.regs.get? line.data = some value ∧
      m.Asks side line.data value m₁ ∧
      m.serveRequest line (side = .input) = m₁.giveWay := by
  have hclear := signals_setTrap w .clear
  have hregs : (m.setTrap .clear).hardware.cpu.regs = m.hardware.cpu.regs := rfl
  unfold serveRequest
  simp only [hregs]
  cases hregister : m.hardware.cpu.regs.get? line.data with
  | none => exact .inl ⟨rfl, (hclear.note _).setTrap _⟩
  | some value =>
    right
    -- both sides come to this, with a request that differs in its device and its word
    have hasks : ∀ {m₁ : Machine}, (m.setTrap .clear).Touches m.current m₁ →
        m₁.hardware.files = m.hardware.files →
        m₁.view m.current = (m.view m.current).asks m.current side line.data value →
        m.Asks side line.data value m₁ := by
      intro m₁ htouch hfiles hview
      refine ⟨htouch.wired, htouch.control, ?_, hfiles, htouch.view, hview⟩
      rw [Machine.line, htouch.cpu]
      rfl
    cases side with
    | input =>
      -- the register that is to take the word is noted first
      have hadm : Job.Administrative fun job => { job with target? := some line.data } :=
        fun _ _ _ _ => rfl
      have htouch := touches_modifyJob hclear.wired hadm w.current
      have hview := view_modifyJob (k := m.current) (m := m.setTrap .clear) hadm w.current
      rw [if_pos rfl] at hview
      obtain ⟨m₁, hawait, htouch₁, hfiles, hview₁⟩ := await_spec (m := m.setTrap .clear) w.current
        htouch rfl ⟨inputNumber m.current, .getw, 0⟩ (some line.data) hview ⟨.input, rfl, rfl⟩
      exact ⟨value, m₁, rfl, hasks htouch₁ hfiles hview₁, hawait⟩
    | output =>
      obtain ⟨m₁, hawait, htouch₁, hfiles, hview₁⟩ := await_spec (m := m.setTrap .clear) w.current
        (.refl hclear.wired) rfl ⟨outputNumber m.current, .putw, value⟩
        (m.job m.current).target? rfl ⟨.output, rfl, rfl⟩
      exact ⟨value, m₁, rfl, hasks htouch₁ hfiles hview₁, hawait⟩

/-- While a job waits `giveWay` starts the next one, or the processor idles. A property `P` that is
kept when a job is given up holds then. -/
theorem giveWay_cases {P : Machine → Prop}
    (drop : ∀ {m m' : Machine} {j : Nat}, m.Vacant → P m → j < m.jobs.size →
      (m.job j).boot = .fresh → (m.job j).life = .runnable → m.Drops j m' → P m')
    (hvacant : m.Vacant) (h : P m) :
    (∃ m₁ j, m₁.Vacant ∧ P m₁ ∧ m₁.nextRunnable? = some j ∧ m₁.Starts j m.giveWay) ∨
    ∃ m₁, m₁.Vacant ∧ P m₁ ∧ m₁.nextRunnable? = none ∧ m₁.Unloads m.giveWay := by
  unfold giveWay
  rcases rotate_cases drop hvacant h with
    ⟨m₁, j, m', hrotate, hvacant₁, h₁, hnext, hstart⟩ | ⟨m₁, hrotate, hvacant₁, h₁, hnext⟩
  · rw [hrotate]
    exact .inl ⟨m₁, j, hvacant₁, h₁, hnext, hstart⟩
  · rw [hrotate]
    exact .inr ⟨m₁, hvacant₁, h₁, hnext, unload_spec hvacant₁.wired hvacant₁.line⟩

/-! ## Completions -/

/-- `m'` comes from `m` by the failure of a transfer on the side `side` of job `j`, which becomes an
error of the job. -/
structure Fails (side : Side) (j : Nat) (m m' : Machine) : Prop where
  wired : m'.Wired
  control : m'.control = { m.control with culprit? := some j }
  line : m'.line = .raise .fatal m.line.data
  pc : m'.hardware.cpu.regs.pc = m.hardware.cpu.regs.pc
  files : m'.hardware.files = m.hardware.files
  view : ∀ k, k ≠ j → m'.view k = m.view k
  acknowledged : m'.view j = (m.view j).acknowledged side

theorem Fails.segments_eq {side : Side} (h : m.Fails side j m') :
    ∀ k, (m'.job k).segments = (m.job k).segments :=
  segments_eq_of_view h.view (by rw [h.acknowledged, View.acknowledged, View.job_withDevice])

/-- `m'` comes from `m` by the end of a transfer on the side `side` of job `j`, which does not wait
any more. -/
structure Collects (side : Side) (j : Nat) (m m' : Machine) : Prop where
  wired : m'.Wired
  control : m'.control = m.control
  line : m'.line = .clear
  pc : m.idle = true → m'.hardware.cpu.regs.pc = m.hardware.cpu.regs.pc
  files : m'.hardware.files = m.hardware.files
  view : ∀ k, k ≠ j → m'.view k = m.view k
  collected : m'.view j = (m.view j).collected side

theorem Collects.segments_eq {side : Side} (h : m.Collects side j m') :
    ∀ k, (m'.job k).segments = (m.job k).segments :=
  segments_eq_of_view h.view (by rw [h.collected]; rfl)

/-- A completion that `completedBy?` accepts comes from one of the devices of a job `j`. -/
theorem completedBy?_eq_some (w : m.Wired) {line : TrapLine} {dev : Nat} {d : Device}
    (h : m.completedBy? line = some (j, dev, d)) :
    j < m.jobs.size ∧ Word.index? line.data = some dev ∧
      ∃ side : Side, dev = side.number j ∧ d = (m.view j).device side := by
  simp only [completedBy?, Option.bind_eq_bind, Option.bind_eq_some_iff] at h
  obtain ⟨i, hi, d', hd', hsome⟩ := h
  split at hsome
  · rename_i hlt
    simp only [Option.some.injEq, Prod.mk.injEq] at hsome
    obtain ⟨rfl, hdev, rfl⟩ := hsome
    obtain ⟨side, hside⟩ := Side.exists_number hi
    rw [hdev] at hside hd'
    have hd := device?_number w hlt side
    rw [← hside, hd'] at hd
    refine ⟨hlt, ?_, side, hside, Option.some.inj hd⟩
    -- a word that is no number is read as that of the processor, which has no owner
    cases hindex : Word.index? line.data with
    | none =>
      rw [hindex] at hdev
      rw [← hdev] at hside
      exact absurd hside.symm (side.number_ne_zero i)
    | some n =>
      rw [hindex] at hdev
      exact congrArg some hdev
  · simp at hsome

/-- If `line` names the device of job `j` on the side `side`, the completion is taken to come from
it. -/
theorem completedBy?_number (w : m.Wired) (hj : j < m.jobs.size) {line : TrapLine} {side : Side}
    (h : Word.index? line.data = some (side.number j)) :
    m.completedBy? line = some (j, side.number j, (m.view j).device side) := by
  simp only [completedBy?, h, Option.getD_some, Side.ownerOf?_number, device?_number w hj,
    Option.bind_eq_bind, Option.bind_some, if_pos hj]

/-- `m'` comes from `m` by putting `value` into the register with the number `register` of job
`j`. -/
structure Delivers (j : Nat) (register value : Word) (m m' : Machine) : Prop where
  wired : m'.Wired
  control : m'.control = m.control
  line : m'.line = m.line
  pc : m.idle = true → m'.hardware.cpu.regs.pc = m.hardware.cpu.regs.pc
  files : m'.hardware.files = m.hardware.files
  view : ∀ k, k ≠ j → m'.view k = m.view k
  delivered : m'.view j =
    { m.view j with
      job := { (m.view j).job with registers := (m.view j).job.registers.set register value } }

/-- If job `j` runs, `value` reaches its register in the processor. -/
theorem delivers_running (w : m.Wired) (hrun : m.runs j = true) (register value : Word) :
    m.Delivers j register value
      (m.modifyCpu fun cpu => { cpu with regs := cpu.regs.set register value }) := by
  obtain ⟨hbusy, hcurrent⟩ := runs_eq_true_iff.1 hrun
  constructor
  case wired => exact w.modifyCpu rfl
  case pc =>
    intro hidle
    rw [hbusy] at hidle
    exact absurd hidle (by decide)
  case view =>
    intro k hk
    have hstopped : m.runs k = false := by simp [runs, hcurrent, Ne.symm hk]
    rw [view_modifyCpu, hstopped, if_neg (by decide)]
  case delivered =>
    rw [view_modifyCpu, if_pos hrun, view_registers, regsOf, if_pos hrun]
  all_goals rfl

/-- If job `j` does not run, `value` reaches its register in the job table. -/
theorem delivers_saved (w : m.Wired) (hj : j < m.jobs.size) (hrun : m.runs j = false)
    (register value : Word) :
    m.Delivers j register value
      (m.modifyJob j fun job => { job with registers := job.registers.set register value }) := by
  have hjob := fun k => job_modifyJob (m := m) (k := k)
    (fun job => { job with registers := job.registers.set register value }) hj
  have hsize : (m.modifyJob j fun job =>
      { job with registers := job.registers.set register value }).jobs.size = m.jobs.size :=
    size_modifyJob _
  -- the view shows saved registers as they are, since the job does not run
  have hview : ∀ k, (m.modifyJob j fun job =>
      { job with registers := job.registers.set register value }).view k =
      if k = j then { m.view k with job := { (m.view k).job with
        registers := (m.view k).job.registers.set register value } } else m.view k := by
    intro k
    have hsame : (m.modifyJob j fun job =>
      { job with registers := job.registers.set register value }).runs k = m.runs k := rfl
    by_cases hk : k = j
    · subst hk
      simp only [view, regsOf, hsame, hjob, hrun, if_true, Bool.false_eq_true, if_false]
      rfl
    · simp only [view, regsOf, hsame, hjob, if_neg hk]
      rfl
  constructor
  case wired =>
    constructor
    case devices => exact w.devices.trans (by rw [hsize])
    case sources => exact w.sources.trans hsize.symm
    case current => exact w.current.trans_eq hsize.symm
    case program =>
      intro hbusy
      refine (w.program hbusy).trans ?_
      rw [hjob]
      split <;> rfl
    case saved =>
      intro k hk
      rw [hjob]
      split <;> exact w.saved k (hk.trans_eq hsize)
    case input =>
      intro k hk
      rw [hview]
      split <;> exact w.input k (hk.trans_eq hsize)
    case output =>
      intro k hk
      rw [hview]
      split <;> exact w.output k (hk.trans_eq hsize)
  case control => exact control_modifyJob _
  case pc => exact fun _ => rfl
  case view =>
    intro k hk
    rw [hview, if_neg hk]
  case delivered => rw [hview, if_pos rfl]
  all_goals rfl

theorem Delivers.note {register value : Word} (h : m.Delivers j register value m')
    (event : Event) : m.Delivers j register value (m'.note event) where
  wired := ⟨h.wired.devices, h.wired.sources, h.wired.current, h.wired.program, h.wired.saved,
    h.wired.input, h.wired.output⟩
  control := h.control
  line := h.line
  pc := h.pc
  files := h.files
  view := h.view
  delivered := h.delivered

/-- `deliver` puts `value` into the register of job `j`, whether the job runs or its registers are
saved. -/
theorem deliver_spec (w : m.Wired) (hj : j < m.jobs.size) (register value : Word) :
    m.Delivers j register value (m.deliver j register value) := by
  unfold deliver
  cases hrun : m.runs j with
  | true => exact (delivers_running w hrun register value).note _
  | false => exact (delivers_saved w hj hrun register value).note _

/-- `collect` lets job `j` fetch the word `value?` of its device, if it has named a register and the
device has a word. -/
theorem collect_spec (w : m.Wired) (hj : j < m.jobs.size) (value? : Option Word) :
    (m.collect j value?).Wired ∧ (m.collect j value?).control = m.control ∧
      (m.idle = true →
        (m.collect j value?).hardware.cpu.regs.pc = m.hardware.cpu.regs.pc) ∧
      (m.collect j value?).hardware.files = m.hardware.files ∧
      (∀ k, k ≠ j → (m.collect j value?).view k = m.view k) ∧
      (m.collect j value?).view j =
        { m.view j with
          job := { (m.view j).job with
            target? := none
            registers := match value?, (m.view j).job.target? with
              | some value, some r => (m.view j).job.registers.set r value
              | _, _ => (m.view j).job.registers } } := by
  have hadm : Job.Administrative fun job => { job with target? := none } := fun _ _ _ _ => rfl
  have htouch := touches_modifyJob w hadm hj
  have hview := view_modifyJob (k := j) hadm hj
  rw [if_pos rfl] at hview
  unfold collect
  simp only [view_target?]
  -- without a word, or without a register to put it in, the register is forgotten all the same
  cases value? with
  | none => exact ⟨htouch.wired, htouch.control, fun _ => rfl, rfl, htouch.view, hview⟩
  | some value =>
    cases (m.job j).target? with
    | none => exact ⟨htouch.wired, htouch.control, fun _ => rfl, rfl, htouch.view, hview⟩
    | some r =>
      have h := deliver_spec htouch.wired (htouch.size.symm ▸ hj) r value
      refine ⟨h.wired, h.control.trans htouch.control, h.pc, h.files, ?_, ?_⟩
      · intro k hk
        rw [h.view k hk, htouch.view k hk]
      · rw [h.delivered, hview]

/-- After `wake` job `j` does not wait any more. -/
theorem wake_spec (w : m.Wired) (hj : j < m.jobs.size) :
    m.Touches j (m.wake j) ∧ (m.wake j).view j =
      { m.view j with
        job := { (m.view j).job with
          life := if (m.view j).job.life = .waiting then .runnable
            else (m.view j).job.life } } := by
  have hadm : Job.Administrative fun job =>
      { job with life := if job.life = .waiting then .runnable else job.life } :=
    fun _ _ _ _ => rfl
  have hview := view_modifyJob (k := j) hadm hj
  rw [if_pos rfl] at hview
  exact ⟨touches_modifyJob w hadm hj, hview⟩

/-- `complete`: a transfer on the side `side` of job `j` has failed, or it has worked and the job
goes on at once if no job is loaded. -/
theorem complete_cases (w : m.Wired) (hj : j < m.jobs.size) {side : Side}
    (line : TrapLine) (hline : line.data = m.line.data) :
    (line.status ≠ 0 ∧ ∃ m', m.complete line j (side.number j) ((m.view j).device side) =
        (.running, m') ∧ m.Fails side j m') ∨
    (line.status = 0 ∧ ∃ m₁, m.Collects side j m₁ ∧
      m.complete line j (side.number j) ((m.view j).device side) =
        if m₁.idle && (m₁.job j).isRunnable then m₁.resume j 0 else (.running, m₁)) := by
  have htouch := touches_setDevice w hj ((w.isOf hj side).withTrap .clear)
  have hview := view_setDevice (k := j) w hj side
    { (m.view j).device side with trap := .clear }
  rw [if_pos rfl] at hview
  unfold complete
  by_cases hstatus : line.status ≠ 0
  · left
    simp only [if_pos hstatus]
    -- the signal becomes an error for which the job is remembered
    have hsignal := (signals_setTrap_culprit (htouch.note (.transferFailed (side.number j) j)).wired
      (.raise .fatal line.data) (some j))
    refine ⟨hstatus, _, rfl, hsignal.wired, ?_, ?_, rfl, rfl, ?_, ?_⟩
    · exact hsignal.control
    · rw [hsignal.line, hline]
    · exact htouch.view
    · exact hview
  · right
    simp only [if_neg hstatus]
    refine ⟨by simpa using hstatus, _, ?_, rfl⟩
    have hj₁ := htouch.size.symm ▸ hj
    -- the word is fetched, the line is cleared, and the job is woken, in this order
    obtain ⟨hwired, hcontrol, hpc, hfiles, hother, hcollect⟩ :=
      collect_spec htouch.wired hj₁ ((m.view j).device side).value?
    have hsignal := signals_setTrap hwired .clear
    have hj₂ := hj₁.trans_eq (congrArg Control.size hcontrol).symm
    obtain ⟨hwake, hwoken⟩ := wake_spec hsignal.wired hj₂
    rw [hsignal.view, hcollect, hview] at hwoken
    refine ⟨hwake.wired, hwake.control.trans (hsignal.control.trans hcontrol), ?_, hpc, hfiles, ?_,
      ?_⟩
    · exact congrArg Processor.trap hwake.cpu
    · intro k hk
      rw [hwake.view k hk, hsignal.view, hother k hk]
      exact htouch.view k hk
    · refine hwoken.trans ?_
      cases side with
      | input =>
        have hvalue : (m.view j).input.value? = some (m.view j).input.trap.data := by
          rcases (w.input j hj).2 with hlink | hlink <;>
            simp [Device.value?, Device.isInput, hlink]
        simp only [View.device, hvalue, View.collected, View.acknowledged, View.withDevice]
        cases (m.view j).job.target? <;> rfl
      | output =>
        -- an output device has no word, so that no register is written
        have hvalue : (m.view j).output.value? = none := by
          obtain ⟨_, buffer, sink?, hlink⟩ := w.output j hj
          simp [Device.value?, Device.isInput, hlink]
        simp only [View.device, hvalue, View.collected, View.acknowledged, View.withDevice]
        cases (m.view j).job.target? <;> rfl

end Machine

end BatchMachine
