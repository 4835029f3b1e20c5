import BatchMachine.Proofs.Handover
import BatchMachine.Proofs.JobInvariant

/-!
# The scheduler invariant

Between ticks a booted job that can run is in the processor, or the processor idles because no job
can run and some wait. What is on the processor's line fits this: only a device can signal a
failure, and only a failed transfer is charged to another job than the running one.

* `Machine.Sound`: the invariant.
* `Machine.Move`: what a turn of the processor may do to one job.
* `Machine.Turned`, `Machine.Turn.turned`: what a turn does to a sound machine.
-/

namespace BatchMachine

open JobText

namespace Machine

variable {m m₁ m' : Machine} {j k : Nat}

/-- Job `j` has been booted, or it is over since it cannot be booted. -/
def Begun (m : Machine) (j : Nat) : Prop :=
  (m.job j).boot = .booted ∨ (m.job j).life = .finished

/-- The jobs of `m` are booted in their order. -/
def Ordered (m : Machine) : Prop :=
  ∀ j f, j < m.jobs.size → f < m.jobs.size → (m.job j).boot = .booted → ¬ m.Begun f → j < f

/-- What is on the processor's line of `m` fits the state of the machine. -/
structure Charged (m : Machine) : Prop where
  culprit : ∀ j, m.culprit? = some j →
    j < m.jobs.size ∧ m.Begun j ∧ m.line.trap? = some .fatal
  status : m.line.isIdle = false → m.line.status ≠ 0 →
    ∃ (side : Side) (j : Nat), j < m.jobs.size ∧ (m.job j).boot = .booted ∧
      m.line.trap? = some side.completion ∧ m.line.data = .ofCount (side.number j)
  resting : m.idle = true → m.line.isIdle = true ∨
    (∃ side : Side, m.line.trap? = some side.completion) ∨ m.culprit?.isSome = true

/-- What holds of `m` between ticks, and within a tick before the processor's turn and after it. -/
structure Sound (m : Machine) : Prop where
  wired : m.Wired
  job : ∀ j < m.jobs.size, (m.view j).Sound j
  ordered : m.Ordered
  scheduled : m.Engaged ∨ m.Resting
  charged : m.Charged

/-- A segment of job `k` ends with the outcome `o`: the job runs and halts or is at the end of its
image, or an error is charged to it. -/
def Closes (m : Machine) (k : Nat) (o : Outcome) : Prop :=
  (m.runs k = true ∧ ∃ status, m.Stops o status) ∨
    (m.line.trap? = some .fatal ∧ m.culprit?.getD m.current = k ∧ o = .fatal m.line.data)

/-- The device of job `k` on the side `side` has signalled that it is done. -/
def Completes (m : Machine) (k : Nat) (side : Side) : Prop :=
  (∃ side' : Side, m.line.trap? = some side'.completion) ∧
    Word.index? m.line.data = some (side.number k)

/-- The job that a turn of the processor is about: the one whose device has signalled, the one that
an error is charged to, or else the running one. -/
def subject? (m : Machine) : Option Nat :=
  match m.line.trap? with
  | some .getwReady | some .putwReady => (m.completedBy? m.line).map fun by_ => by_.1
  | some .fatal => some (m.culprit?.getD m.current)
  | _ => m.running?

/-- What a turn of the processor from `m` to `m'` may do to job `k`. -/
inductive Move (m m' : Machine) (k : Nat) : Prop
  /-- Job `k` is involved in the search for the next job, at most. -/
  | shifts : m.subject? ≠ some k → m.Shift m' k → Move m m' k
  /-- Job `k` executes an instruction. -/
  | steps : m.line.isIdle = true → m.runs k = true → m.hardware.cpu.atEnd = false →
      m'.hardware.cpu = m.hardware.cpu.step.2 → m'.control = m.control →
      m'.view k = { m.view k with
        job := { (m.view k).job with registers := m.hardware.cpu.step.2.regs } } → Move m m' k
  /-- A trap of job `k` becomes an error. -/
  | rejects : m.runs k = true → m.Misuses → m'.line = .raise .fatal 0 →
      m'.control = m.control → m'.view k = m.view k → Move m m' k
  /-- A segment of job `k` ends and the next one is loaded. -/
  | reloads {o : Outcome} {r reader : Reader} {image : List Instruction} {loc : Location} :
      m.Closes k o → m.hardware.source? k = some r →
      r.nextImage = (.ok (some image), reader) → reader.healthy = true →
      m.hardware.files.create (m.outputFile k ((m.job k).segments + 1)) =
        .ok (m'.hardware.files, loc) →
      m'.view k = ((m.view k).withOutcome o).entered k reader image
        (.ofFile m'.hardware.files loc) → Move m m' k
  /-- The last segment of job `k` ends. -/
  | retires {o : Outcome} : m.Closes k o → m.Barred k m.hardware.files →
      m'.view k = ((m.view k).withOutcome o).dismissed → Move m m' k
  /-- Job `k` asks for a transfer. -/
  | asks {side : Side} {value : Word} : m.runs k = true →
      m.line.trap? = some side.request → m.hardware.cpu.regs.get? m.line.data = some value →
      m'.view k = (m.view k).asks k side m.line.data value → Move m m' k
  /-- A transfer of job `k` has failed. -/
  | fails {side : Side} : m.Completes k side → m.line.status ≠ 0 →
      m'.line = .raise .fatal m.line.data → m'.culprit? = some k →
      m'.view k = (m.view k).acknowledged side → Move m m' k
  /-- A transfer of job `k` is done. -/
  | collects {side : Side} : m.Completes k side → m.line.status = 0 →
      m'.view k = (m.view k).collected side → Move m m' k

/-- What a turn of the processor from `m` to `m'` may leave on its line. -/
inductive Lines (m m' : Machine) : Prop
  /-- Nothing. -/
  | calm : m'.line.isIdle = true → m'.culprit? = none → Lines m m'
  /-- What an instruction has put there. -/
  | steps : m.line.isIdle = true → m.idle = false → m.hardware.cpu.atEnd = false →
      m'.hardware.cpu = m.hardware.cpu.step.2 → m'.control = m.control → Lines m m'
  /-- An error of the running job. -/
  | rejects : m.Misuses → m'.line = .raise .fatal 0 → m'.control = m.control → Lines m m'
  /-- An error of job `j`, whose transfer failed. -/
  | fails {side : Side} {j : Nat} : j < m.jobs.size → m.Completes j side → m.line.status ≠ 0 →
      m'.line = .raise .fatal m.line.data → m'.control = { m.control with culprit? := some j } →
      Lines m m'

/-- What a turn of the processor from `m` to `m'` does, if `m` is sound. -/
structure Turned (m : Machine) (p : Progress) (m' : Machine) : Prop where
  wired : m'.Wired
  size : m'.jobs.size = m.jobs.size
  config : m'.config = m.config
  move : ∀ k < m.jobs.size, m.Move m' k
  opens : m.Opens m'.hardware.files
  lines : m.Lines m'
  scheduled : p = .running → m'.Engaged ∨ m'.Resting
  finished : ∀ status, p = .exited status → ∀ k < m.jobs.size, (m'.job k).life = .finished

/-! ## Parts of the argument -/

theorem subject?_of_completion {side : Side} (h : m.line.trap? = some side.completion) :
    m.subject? = (m.completedBy? m.line).map fun by_ => by_.1 := by
  unfold subject?
  rw [h]
  cases side <;> rfl

theorem subject?_of_fatal (h : m.line.trap? = some .fatal) :
    m.subject? = some (m.culprit?.getD m.current) := by
  unfold subject?
  rw [h]

theorem subject?_of_running (hcompletion : ∀ side : Side, m.line.trap? ≠ some side.completion)
    (hfatal : m.line.trap? ≠ some .fatal) : m.subject? = m.running? := by
  unfold subject?
  cases htrap : m.line.trap? with
  | none => rfl
  | some trap =>
    rw [htrap] at hcompletion hfatal
    cases trap with
    | getwReady => exact absurd rfl (hcompletion .input)
    | putwReady => exact absurd rfl (hcompletion .output)
    | fatal => exact absurd rfl hfatal
    | halt | getw | putw => rfl

/-- If nothing is on the line the turn of `m` is about the running job. -/
theorem subject?_of_isIdle (h : m.line.isIdle = true) : m.subject? = m.running? := by
  have hnone := TrapLine.trap?_eq_none h
  exact subject?_of_running (by simp [hnone]) (by simp [hnone])

/-- If a request is on the line the turn of `m` is about the running job, too. -/
theorem subject?_of_request {side : Side} (h : m.line.trap? = some side.request) :
    m.subject? = m.running? :=
  subject?_of_running (by simp [h]) (by simp [h])

theorem running?_eq_some_iff : m.running? = some k ↔ m.runs k = true := by
  unfold running? runs
  cases m.idle <;> simp

/-- The turn of `m` is about no job `k` other than `j`. -/
theorem subject?_ne (h : m.subject? = some j) (hk : k ≠ j) : m.subject? ≠ some k := by
  rw [h]
  simpa using hk.symm

/-- A turn that is about job `j` and leaves the others as they are makes a move of each job. -/
theorem move_of_view (hsubject : m.subject? = some j)
    (hview : ∀ k, k ≠ j → m'.view k = m.view k) (hmove : m.Move m' j) (k : Nat) : m.Move m' k := by
  by_cases hk : k = j
  · exact hk ▸ hmove
  · exact .shifts (subject?_ne hsubject hk) (.stays (hview k hk))

theorem Sound.busy (h : m.Sound) (hline : m.line.isIdle = false)
    (hcompletion : ∀ side : Side, m.line.trap? ≠ some side.completion)
    (hculprit : m.culprit? = none) : m.idle = false := by
  cases hidle : m.idle with
  | false => rfl
  | true =>
    rcases h.charged.resting hidle with hclear | ⟨side, hside⟩ | hsome
    · rw [hline] at hclear
      exact absurd hclear (by decide)
    · exact absurd hside (hcompletion side)
    · rw [hculprit] at hsome
      exact absurd hsome (by decide)

theorem Sound.culprit_eq_none (h : m.Sound) (hline : m.line.trap? ≠ some .fatal) :
    m.culprit? = none := by
  cases hculprit : m.culprit? with
  | none => rfl
  | some j => exact absurd (h.charged.culprit j hculprit).2.2 hline

/-- An error is charged to a job of `m` beforehand only while it is on the line. -/
theorem Sound.culprit_of_isIdle (h : m.Sound) (hline : m.line.isIdle = true) : m.culprit? = none :=
  h.culprit_eq_none (by simp [TrapLine.trap?_eq_none hline])

/-- A `trap` of a program is served while its job runs. -/
theorem Sound.busy_of_trap? (h : m.Sound) {trap : Trap} (htrap : m.line.trap? = some trap)
    (hcompletion : ∀ side : Side, trap ≠ side.completion) (hfatal : trap ≠ .fatal) :
    m.idle = false ∧ m.culprit? = none := by
  have hline := TrapLine.isIdle_eq_false htrap
  have hculprit : m.culprit? = none :=
    h.culprit_eq_none (by rw [htrap]; simpa using hfatal)
  exact ⟨h.busy hline (fun side hside => hcompletion side (by
    rw [htrap] at hside
    exact Option.some.inj hside)) hculprit, hculprit⟩

theorem Engaged.of_control (h : m.Engaged) (hcontrol : m'.idle = m.idle ∧ m'.current = m.current)
    (hlife : (m'.job m.current).life = (m.job m.current).life)
    (hboot : (m'.job m.current).boot = (m.job m.current).boot) : m'.Engaged := by
  obtain ⟨hidle, hrunnable, hbooted⟩ := h
  refine ⟨hcontrol.1.trans hidle, ?_, ?_⟩
  · rw [hcontrol.2, hlife]
    exact hrunnable
  · rw [hcontrol.2, hboot]
    exact hbooted

theorem Resting.of_control (h : m.Resting) (hidle : m'.idle = m.idle)
    (hsize : m'.jobs.size = m.jobs.size)
    (hpc : m'.hardware.cpu.regs.pc = m.hardware.cpu.regs.pc)
    (hlife : ∀ k < m.jobs.size, (m'.job k).life = (m.job k).life) : m'.Resting := by
  obtain ⟨i, hi, hwaiter⟩ := h.waiter
  refine ⟨hidle.trans h.idle, hpc.trans h.pc, fun k hk => ?_, i, hsize.symm ▸ hi, ?_⟩
  · rw [hlife k (hsize ▸ hk)]
    exact h.stopped k (hsize ▸ hk)
  · rw [hlife i hi]
    exact hwaiter

theorem Sound.engaged (h : m.Sound) (hidle : m.idle = false) : m.Engaged := by
  rcases h.scheduled with hengaged | hresting
  · exact hengaged
  · rw [hresting.idle] at hidle
    exact absurd hidle (by decide)

theorem Sound.resting (h : m.Sound) (hidle : m.idle = true) : m.Resting := by
  rcases h.scheduled with hengaged | hresting
  · rw [hengaged.1] at hidle
    exact absurd hidle (by decide)
  · exact hresting

/-- If `m'` only signals something, it keeps to its schedule. -/
theorem Signals.scheduled {line : TrapLine} {culprit? : Option Nat}
    (hsignals : m.Signals line culprit? m') (h : m.Sound) : m'.Engaged ∨ m'.Resting := by
  have hjob : ∀ k, (m'.job k).life = (m.job k).life ∧ (m'.job k).boot = (m.job k).boot := by
    intro k
    rw [← view_life, ← view_boot, hsignals.view]
    exact ⟨rfl, rfl⟩
  have hidle : m'.idle = m.idle := congrArg Control.idle hsignals.control
  have hcurrent : m'.current = m.current := congrArg Control.current hsignals.control
  rcases h.scheduled with hengaged | hresting
  · exact .inl (hengaged.of_control ⟨hidle, hcurrent⟩ (hjob _).1 (hjob _).2)
  · exact .inr (hresting.of_control hidle hsignals.size hsignals.pc fun k _ => (hjob k).1)

/-- `m₁` comes from `m` by changes to job `j` after which the processor is handed over. -/
structure Pauses (j : Nat) (m m₁ : Machine) : Prop where
  vacant : m₁.Vacant
  queued : m₁.Queued
  size : m₁.jobs.size = m.jobs.size
  config : m₁.config = m.config
  culprit : m₁.culprit? = none
  view : ∀ k, k ≠ j → m₁.view k = m.view k
  segments : (m₁.job j).segments = (m.job j).segments
  stopped : (m₁.job j).life ≠ .runnable
  opens : m.Opens m₁.hardware.files

theorem Pauses.segments_eq (h : m.Pauses j m₁) :
    ∀ k, (m₁.job k).segments = (m.job k).segments :=
  segments_eq_of_view h.view h.segments

/-- When the processor is handed over, job `j`, which made room, stays as it is. -/
theorem Pauses.turned {p : Progress} (h : m.Pauses j m₁) (hsubject : m.subject? = some j)
    (hhands : m₁.Hands p m') (hmove : m'.view j = m₁.view j → m.Move m' j) : m.Turned p m' := by
  have hsettles := hhands.settles
  obtain ⟨hscheduled, hover⟩ := hhands.scheduled
  have hopens : ∀ {files : Files}, m₁.Opens files → m.Opens files := fun hfiles =>
    h.opens.trans hfiles h.size h.config fun k _ => h.segments_eq k
  constructor
  case wired => exact hsettles.wired
  case size => exact hsettles.size.trans h.size
  case config => exact hsettles.config.trans h.config
  case opens => exact hopens hsettles.opens
  case lines => exact .calm hsettles.line (hsettles.culprit.trans h.culprit)
  case scheduled => exact hscheduled
  case finished => exact fun status hp k hk => hover status hp k (h.size.symm ▸ hk)
  case move =>
    intro k hk
    have hk₁ : k < m₁.jobs.size := h.size.symm ▸ hk
    by_cases hkj : k = j
    · subst hkj
      cases hhands.shift hk₁ with
      | stays hview => exact hmove hview
      -- the job has just stopped, so that the search does not come upon it
      | boots _ hlife => exact absurd hlife h.stopped
      | drops _ hlife => exact absurd hlife h.stopped
    · -- what the search does to any other job, it does to it as it was before the turn
      have hview := h.view k hkj
      have hboot : (m₁.job k).boot = (m.job k).boot := congrArg (fun v : View => v.job.boot) hview
      have hlife : (m₁.job k).life = (m.job k).life := congrArg (fun v : View => v.job.life) hview
      have hsource : m₁.hardware.source? k = m.hardware.source? k := congrArg View.source? hview
      have hpath : m₁.outputFile k ((m₁.job k).segments + 1) =
          m.outputFile k ((m.job k).segments + 1) := by
        rw [h.segments_eq]
        simp only [outputFile, h.config]
      refine .shifts (subject?_ne hsubject hkj) ?_
      cases hhands.shift hk₁ with
      | stays hsame => exact .stays (hsame.trans hview)
      | drops hfresh hrunnable hfiles hbarred hdropped =>
        refine .drops (hboot ▸ hfresh) (hlife ▸ hrunnable) (hopens hfiles) ?_ (hview ▸ hdropped)
        intro r image reader created hr
        rw [← hpath]
        exact hbarred r image reader created (hsource ▸ hr)
      | boots hfresh hrunnable hfirst hreader hnext hhealthy hfiles hcreate hstarted =>
        rw [hview] at hstarted
        exact .boots (hboot ▸ hfresh) (hlife ▸ hrunnable) (h.size ▸ hfirst)
          (fun r' hr' => hreader r' (hsource ▸ hr')) hnext hhealthy (hopens hfiles)
          (hpath ▸ hcreate) hstarted

/-! ## The turns -/

/-- When `m'` only signals something, no job changes. -/
theorem Signals.turned {line : TrapLine} {culprit? : Option Nat} (h : m.Sound)
    (hsignals : m.Signals line culprit? m') (hlines : m.Lines m')
    (hmove : ∀ k < m.jobs.size, m'.view k = m.view k → m.Move m' k) :
    m.Turned .running m' where
  wired := hsignals.wired
  size := hsignals.size
  config := congrArg Control.config hsignals.control
  move k hk := hmove k hk (hsignals.view k)
  opens := hsignals.files.symm ▸ .refl
  lines := hlines
  scheduled _ := hsignals.scheduled h
  finished _ hp := by simp at hp

theorem Steps.turned (h : m.Sound) (hline : m.line.isIdle = true) (hidle : m.idle = false)
    (hend : m.hardware.cpu.atEnd = false) (hsteps : m.Steps m') : m.Turned .running m' := by
  have hrun : m.runs m.current = true := by simp [runs, hidle]
  have hsubject : m.subject? = some m.current :=
    (subject?_of_isIdle hline).trans (running?_eq_some_iff.2 hrun)
  constructor
  case wired => exact hsteps.wired
  case size => exact congrArg Control.size hsteps.control
  case config => exact congrArg Control.config hsteps.control
  case opens => exact hsteps.files.symm ▸ .refl
  case lines => exact .steps hline hidle hend hsteps.cpu hsteps.control
  case finished => exact fun _ hp => by simp at hp
  case scheduled =>
    intro _
    refine .inl ((h.engaged hidle).of_control ⟨congrArg Control.idle hsteps.control,
      congrArg Control.current hsteps.control⟩ ?_ ?_)
    · rw [← view_life, hsteps.stepped]
      rfl
    · rw [← view_boot, hsteps.stepped]
      rfl
  case move =>
    exact fun k _ => move_of_view hsubject hsteps.view
      (.steps hline hrun hend hsteps.cpu hsteps.control hsteps.stepped) k

/-- The running job is the one whose segment ends by itself, with the outcome `o`. -/
theorem Sound.runs_of_stops (h : m.Sound) {o : Outcome} {status : Word}
    (hstops : m.Stops o status) :
    m.runs m.current = true ∧ m.culprit? = none ∧ m.subject? = some m.current := by
  rcases hstops with ⟨hline, hidle, _⟩ | ⟨htrap, _⟩
  · have hrun : m.runs m.current = true := by simp [runs, hidle]
    exact ⟨hrun, h.culprit_of_isIdle hline,
      (subject?_of_isIdle hline).trans (running?_eq_some_iff.2 hrun)⟩
  · obtain ⟨hidle, hculprit⟩ := h.busy_of_trap? htrap
      (fun side => side.completion_ne_halt.symm) (by decide)
    have hrun : m.runs m.current = true := by simp [runs, hidle]
    refine ⟨hrun, hculprit, ?_⟩
    rw [subject?_of_running (fun side => by simpa [htrap] using side.completion_ne_halt.symm)
      (by simp [htrap]), running?_eq_some_iff.2 hrun]

/-- Job `j` makes a move when it enters its next segment. -/
theorem Reloads.move {o : Outcome} {culprit? : Option Nat} {image : List Instruction}
    {reader : Reader} (hreloads : m.Reloads j o culprit? image reader m₁) (hcloses : m.Closes j o)
    (hsubject : m.subject? = some j) (hfiles : m'.hardware.files = m₁.hardware.files)
    (hview : ∀ k, m'.view k = m₁.view k) : m.Move m' k := by
  obtain ⟨r, hsource, hnext⟩ := hreloads.source
  obtain ⟨loc, hcreate, hentered⟩ := hreloads.entered
  rw [← hfiles] at hcreate
  rw [← hview, ← hfiles] at hentered
  exact move_of_view hsubject (fun i hi => (hview i).trans (hreloads.view i hi))
    (.reloads hcloses hsource hnext hreloads.healthy hcreate hentered) k

theorem Reloads.opens {o : Outcome} {culprit? : Option Nat} {image : List Instruction}
    {reader : Reader} (hreloads : m.Reloads j o culprit? image reader m₁) (hj : j < m.jobs.size)
    (hfiles : m'.hardware.files = m₁.hardware.files) : m.Opens m'.hardware.files := by
  obtain ⟨loc, hcreate, _⟩ := hreloads.entered
  rw [hfiles]
  exact .create hj .refl hcreate

/-- Job `j`, when it has entered a segment, can run, and is as booted as before. -/
theorem Reloads.engaged {o : Outcome} {culprit? : Option Nat} {image : List Instruction}
    {reader : Reader} (hreloads : m.Reloads j o culprit? image reader m') (h : m.Engaged) :
    m'.Engaged := by
  obtain ⟨hidle, hlife, hboot⟩ := h
  refine ⟨hreloads.idle.trans hidle, ?_⟩
  rw [hreloads.current]
  by_cases hk : m.current = j
  · obtain ⟨loc, _, hentered⟩ := hreloads.entered
    rw [hk, ← view_life, ← view_boot, hentered]
    exact ⟨rfl, hk ▸ hboot⟩
  · rw [← view_life, ← view_boot, hreloads.view _ hk]
    exact ⟨hlife, hboot⟩

/-- When job `j` has made a move and is loaded at once, the machine is as that move has left it. -/
theorem Installs.turned (hinstalls : m₁.Installs j m') (hsize : m₁.jobs.size = m.jobs.size)
    (hconfig : m₁.config = m.config) (hculprit : m₁.culprit? = none)
    (hopens : m.Opens m₁.hardware.files) (hlife : (m₁.job j).life = .runnable)
    (hboot : (m₁.job j).boot = .booted) (hmove : ∀ k < m.jobs.size, m.Move m' k) :
    m.Turned .running m' := by
  constructor
  case wired => exact hinstalls.wired
  case size => exact hinstalls.size.trans hsize
  case config => exact hinstalls.config.trans hconfig
  case opens => exact hinstalls.files.symm ▸ hopens
  case lines => exact .calm hinstalls.line (hinstalls.culprit.trans hculprit)
  case finished => exact fun _ hp => by simp at hp
  case move => exact hmove
  case scheduled =>
    refine fun _ => .inl ⟨hinstalls.busy, ?_, ?_⟩
    · rw [hinstalls.current, ← view_life, hinstalls.view]
      exact hlife
    · rw [hinstalls.current, ← view_boot, hinstalls.view]
      exact hboot

theorem Reloads.turned {o : Outcome} {status : Word} {image : List Instruction}
    {reader : Reader} (h : m.Sound) (hstops : m.Stops o status)
    (hreloads : m.Reloads m.current o m.culprit? image reader m') : m.Turned .running m' := by
  obtain ⟨hrun, hculprit, hsubject⟩ := h.runs_of_stops hstops
  constructor
  case wired => exact hreloads.wired
  case size => exact hreloads.size
  case config => exact congrArg Control.config hreloads.control
  case opens => exact hreloads.opens h.wired.current rfl
  case lines => exact .calm hreloads.line (hreloads.culprit.trans hculprit)
  case finished => exact fun _ hp => by simp at hp
  case scheduled =>
    exact fun _ => .inl (hreloads.engaged (h.engaged (runs_eq_true_iff.1 hrun).1))
  case move =>
    exact fun k _ => hreloads.move (.inl ⟨hrun, status, hstops⟩) hsubject rfl fun _ => rfl

/-- The jobs of `m` that have not been booted come after the job that runs. -/
theorem Sound.queued (h : m.Sound) : m.Queued := by
  intro f hf hboot hlife
  have hrunnable := ((h.job f hf).fresh hboot hlife).life
  refine ⟨?_, hrunnable⟩
  -- jobs are booted in the order of the table, and the one that runs has been booted
  rcases h.scheduled with hengaged | hresting
  · refine h.ordered m.current f h.wired.current hf hengaged.2.2 ?_
    rintro (hbooted | hover)
    · rw [hboot] at hbooted
      exact absurd hbooted (by decide)
    · exact hlife hover
  · exact absurd hrunnable (hresting.stopped f hf)

/-- The jobs that have not been booted still come after the job that runs when job `j` has
changed. -/
theorem Queued.of_view (h : m.Queued) (hsize : m₁.jobs.size = m.jobs.size)
    (hcurrent : m₁.current = m.current) (hview : ∀ k, k ≠ j → m₁.view k = m.view k)
    (hj : (m₁.job j).boot = .booted ∨ (m₁.job j).life = .finished) : m₁.Queued := by
  intro f hf hboot hlife
  have hne : f ≠ j := by
    rintro rfl
    rcases hj with hbooted | hover
    · rw [hboot] at hbooted
      exact absurd hbooted (by decide)
    · exact hlife hover
  rw [← view_boot, hview f hne] at hboot
  rw [← view_life, hview f hne] at hlife
  rw [hcurrent, ← view_life, hview f hne]
  exact h f (hsize ▸ hf) hboot hlife

/-- All images still fit after a change to job `j` that keeps its image. -/
theorem Sound.loadable_of_view (h : m.Sound) (hsize : m₁.jobs.size = m.jobs.size)
    (hview : ∀ k, k ≠ j → m₁.view k = m.view k) (himage : (m₁.job j).image = (m.job j).image) :
    m₁.Loadable := by
  intro k hk
  have hfits : (m.job k).image.size ≤ imageLimit := (h.job k (hsize ▸ hk)).fits
  by_cases hkj : k = j
  · rw [hkj, himage, ← hkj]
    exact hfits
  · rw [← view_image, hview k hkj]
    exact hfits

/-- If job `j` or none runs, there is room for another. -/
theorem current_of_room (hroom : (m.runs j || m.idle) = true) (hidle : m.idle = false) :
    m.current = j := by
  rw [hidle, Bool.or_false, runs_eq_true_iff] at hroom
  exact hroom.2

/-- Job `j`, when it is over, makes room for another. -/
theorem Retires.pauses {o : Outcome} {culprit? : Option Nat} (h : m.Sound) (hj : j < m.jobs.size)
    (hretires : m.Retires j o culprit? m₁) (hculprit : culprit? = none)
    (hcurrent : m.idle = false → m.current = j) : m.Pauses j m₁ := by
  have hlife : (m₁.job j).life = .finished := by
    rw [← view_life, hretires.dismissed]
    rfl
  refine ⟨⟨hretires.wired, h.loadable_of_view hretires.size hretires.view ?_, hretires.line,
      fun hidle => ?_⟩,
    h.queued.of_view hretires.size hretires.current hretires.view (.inr hlife), hretires.size,
    congrArg Control.config hretires.control, hretires.culprit.trans hculprit, hretires.view, ?_,
    by simp [hlife], hretires.files.opens hj⟩
  · rw [← view_image, hretires.dismissed]
    rfl
  · rw [hretires.current, hcurrent (hretires.idle.symm.trans hidle)]
    simp [hlife]
  · rw [← view_segments, hretires.dismissed]
    rfl

theorem Retires.turned {o : Outcome} {status : Word} {p : Progress} (h : m.Sound)
    (hstops : m.Stops o status) (hretires : m.Retires m.current o m.culprit? m₁)
    (hpass : m₁.passOn status = (p, m')) : m.Turned p m' := by
  obtain ⟨hrun, hculprit, hsubject⟩ := h.runs_of_stops hstops
  have hpauses := hretires.pauses h h.wired.current hculprit fun _ => rfl
  have hhands := passOn_hands hpauses.vacant hpauses.queued status
  rw [hpass] at hhands
  exact hpauses.turned hsubject hhands fun hview =>
    .retires (.inl ⟨hrun, status, hstops⟩) hretires.barred (hview.trans hretires.dismissed)

/-- An error that is charged to no job of `m` beforehand is served while a job runs. -/
theorem Sound.busy_of_fatal (h : m.Sound) (htrap : m.line.trap? = some .fatal)
    (hculprit : m.culprit? = none) : m.idle = false := by
  refine h.busy (TrapLine.isIdle_eq_false htrap) (fun side hside => ?_) hculprit
  rw [htrap, Option.some.injEq] at hside
  exact side.completion_ne_fatal hside.symm

/-- The job of `m` that an error is charged to has begun. -/
theorem Sound.charged_job (h : m.Sound) (htrap : m.line.trap? = some .fatal) :
    m.culprit?.getD m.current < m.jobs.size ∧ m.Begun (m.culprit?.getD m.current) := by
  cases hculprit : m.culprit? with
  | some j =>
    obtain ⟨hj, hbegun, _⟩ := h.charged.culprit j hculprit
    exact ⟨hj, hbegun⟩
  | none => exact ⟨h.wired.current, .inl (h.engaged (h.busy_of_fatal htrap hculprit)).2.2⟩

/-- Job `j`, if it has begun and still has its text, has been booted. -/
theorem Sound.booted_of_source (h : m.Sound) (hj : j < m.jobs.size) (hbegun : m.Begun j)
    {r : Reader} (hsource : m.hardware.source? j = some r) : (m.job j).boot = .booted := by
  rcases hbegun with hboot | hlife
  · exact hboot
  · rw [← view_source?, ((h.job j hj).finished hlife).source] at hsource
    simp at hsource

/-- Job `j`, if it has begun, can run when its next segment has been loaded. -/
theorem Reloads.able {o : Outcome} {culprit? : Option Nat} {image : List Instruction}
    {reader : Reader} (hreloads : m.Reloads j o culprit? image reader m₁) (h : m.Sound)
    (hj : j < m.jobs.size) (hbegun : m.Begun j) :
    (m₁.job j).life = .runnable ∧ (m₁.job j).boot = .booted := by
  obtain ⟨r, hsource, _⟩ := hreloads.source
  obtain ⟨loc, _, hentered⟩ := hreloads.entered
  rw [← view_life, ← view_boot, hentered]
  exact ⟨rfl, h.booted_of_source hj hbegun hsource⟩

/-- When no job is loaded, the job whose segment an error has ended goes on with the next one at
once. -/
theorem Reloads.resumes {image : List Instruction} {reader : Reader} (h : m.Sound)
    (htrap : m.line.trap? = some .fatal)
    (hreloads : m.Reloads (m.culprit?.getD m.current) (.fatal m.line.data) none image reader m₁)
    (hidle : m.idle = true) (status : Word) :
    ∃ m₂, m₁.resume (m.culprit?.getD m.current) status = (.running, m₂) ∧
      m₁.Installs (m.culprit?.getD m.current) m₂ := by
  obtain ⟨hj, hbegun⟩ := h.charged_job htrap
  exact resume_spec hreloads.wired (hreloads.size.symm ▸ hj) hreloads.line hreloads.fits
    (hreloads.idle.trans hidle) (hreloads.able h hj hbegun).2 status

theorem Reloads.turned_of_fatal {image : List Instruction} {reader : Reader} {p : Progress}
    (h : m.Sound) (htrap : m.line.trap? = some .fatal)
    (hreloads : m.Reloads (m.culprit?.getD m.current) (.fatal m.line.data) none image reader m₁)
    (hnext : (if m.idle then m₁.resume (m.culprit?.getD m.current) m.line.data
      else (.running, m₁)) = (p, m')) : m.Turned p m' := by
  obtain ⟨hj, hbegun⟩ := h.charged_job htrap
  have hresumes := fun hidle => hreloads.resumes h htrap hidle m.line.data
  generalize hculprit : m.culprit?.getD m.current = j at hreloads hnext hj hbegun hresumes
  have hcloses : m.Closes j (.fatal m.line.data) := .inr ⟨htrap, hculprit, rfl⟩
  have hsubject : m.subject? = some j := by rw [subject?_of_fatal htrap, hculprit]
  by_cases hidle : m.idle = true
  · -- no job runs, so that the job goes on at once
    rw [if_pos hidle] at hnext
    obtain ⟨hlife, hboot⟩ := hreloads.able h hj hbegun
    obtain ⟨m₂, hresume, hinstalls⟩ := hresumes hidle
    rw [hresume] at hnext
    obtain ⟨rfl, rfl⟩ := Prod.mk.inj hnext
    exact hinstalls.turned hreloads.size (congrArg Control.config hreloads.control)
      hreloads.culprit (hreloads.opens hj rfl) hlife hboot fun k _ =>
        hreloads.move hcloses hsubject hinstalls.files hinstalls.view
  · -- the running job, which may be another one, goes on
    rw [if_neg hidle] at hnext
    obtain ⟨rfl, rfl⟩ := Prod.mk.inj hnext
    constructor
    case wired => exact hreloads.wired
    case size => exact hreloads.size
    case config => exact congrArg Control.config hreloads.control
    case opens => exact hreloads.opens hj rfl
    case lines => exact .calm hreloads.line hreloads.culprit
    case finished => exact fun _ hp => by simp at hp
    case move => exact fun k _ => hreloads.move hcloses hsubject rfl fun _ => rfl
    case scheduled =>
      exact fun _ => .inl (hreloads.engaged (h.engaged (by simpa using hidle)))

theorem Retires.turned_of_fatal {p : Progress} (h : m.Sound) (htrap : m.line.trap? = some .fatal)
    (hretires : m.Retires (m.culprit?.getD m.current) (.fatal m.line.data) none m₁)
    (hnext : (if m.runs (m.culprit?.getD m.current) || m.idle then m₁.passOn m.line.data
      else (.running, m₁)) = (p, m')) : m.Turned p m' := by
  obtain ⟨hj, _⟩ := h.charged_job htrap
  generalize hculprit : m.culprit?.getD m.current = j at hretires hnext hj
  have hcloses : m.Closes j (.fatal m.line.data) := .inr ⟨htrap, hculprit, rfl⟩
  have hsubject : m.subject? = some j := by rw [subject?_of_fatal htrap, hculprit]
  by_cases hroom : (m.runs j || m.idle) = true
  · -- the job leaves the processor, or nothing was on it, so that the next job is searched for
    rw [if_pos hroom] at hnext
    have hpauses := hretires.pauses h hj rfl (current_of_room hroom)
    have hhands := passOn_hands hpauses.vacant hpauses.queued m.line.data
    rw [hnext] at hhands
    exact hpauses.turned hsubject hhands fun hview =>
      .retires hcloses hretires.barred (hview.trans hretires.dismissed)
  · -- another job runs and goes on
    rw [if_neg hroom] at hnext
    obtain ⟨rfl, rfl⟩ := Prod.mk.inj hnext
    simp only [Bool.or_eq_true, not_or, Bool.not_eq_true] at hroom
    have hother : m.current ≠ j := by
      intro hcurrent
      simp [runs, hroom.2, hcurrent] at hroom
    constructor
    case wired => exact hretires.wired
    case size => exact hretires.size
    case config => exact congrArg Control.config hretires.control
    case opens => exact hretires.files.opens hj
    case lines => exact .calm hretires.line hretires.culprit
    case finished => exact fun _ hp => by simp at hp
    case scheduled =>
      refine fun _ => .inl ((h.engaged hroom.2).of_control
        ⟨hretires.idle, hretires.current⟩ ?_ ?_)
      · rw [← view_life, hretires.view _ hother, view_life]
      · rw [← view_boot, hretires.view _ hother, view_boot]
    case move =>
      exact fun k _ => move_of_view hsubject hretires.view
        (.retires hcloses hretires.barred hretires.dismissed) k

/-- The running job makes room for another when it has asked for a transfer. -/
theorem Asks.pauses {side : Side} {value : Word} (h : m.Sound)
    (htrap : m.line.trap? = some side.request) (hasks : m.Asks side m.line.data value m₁) :
    m.Pauses m.current m₁ ∧ (m₁.job m.current).life = .waiting := by
  obtain ⟨hidle, hculprit⟩ := h.busy_of_trap? htrap
    side.request_ne_completion side.request_ne_fatal
  obtain ⟨pending?, target?, hjob⟩ :=
    View.job_asks (m.view m.current) m.current side m.line.data value
  have hlife : (m₁.job m.current).life = .waiting := by
    rw [← view_life, hasks.asked, hjob]
  have hboot : (m₁.job m.current).boot = .booted := by
    rw [← view_boot, hasks.asked, hjob]
    exact (h.engaged hidle).2.2
  have hsize : m₁.jobs.size = m.jobs.size := congrArg Control.size hasks.control
  have hcurrent : m₁.current = m.current := congrArg Control.current hasks.control
  -- the job waits from now on, which makes room for another
  refine ⟨⟨⟨hasks.wired, h.loadable_of_view hsize hasks.view ?_, ?_, ?_⟩,
    h.queued.of_view hsize hcurrent hasks.view (.inl hboot), hsize,
    congrArg Control.config hasks.control,
    (congrArg Control.culprit? hasks.control).trans hculprit, hasks.view, ?_, by simp [hlife],
    hasks.files.symm ▸ .refl⟩, hlife⟩
  · rw [← view_image, hasks.asked, hjob]
    rfl
  · rw [hasks.line]
    rfl
  · intro _
    rw [hcurrent, hlife]
    decide
  · rw [← view_segments, hasks.asked, hjob]
    rfl

theorem Asks.turned {side : Side} {value : Word} (h : m.Sound)
    (htrap : m.line.trap? = some side.request)
    (hregister : m.hardware.cpu.regs.get? m.line.data = some value)
    (hasks : m.Asks side m.line.data value m₁) : m.Turned .running m₁.giveWay := by
  obtain ⟨hidle, _⟩ := h.busy_of_trap? htrap side.request_ne_completion side.request_ne_fatal
  obtain ⟨hpauses, hlife⟩ := hasks.pauses h htrap
  have hhands := giveWay_hands hpauses.vacant hpauses.queued
    (hpauses.size.symm ▸ h.wired.current) hlife
  have hrun : m.runs m.current = true := by simp [runs, hidle]
  have hsubject : m.subject? = some m.current :=
    (subject?_of_request htrap).trans (running?_eq_some_iff.2 hrun)
  exact hpauses.turned hsubject hhands fun hview =>
    .asks hrun htrap hregister (hview.trans hasks.asked)

/-- What completes a transfer of job `j` is no error. -/
theorem Completes.trap?_ne_fatal {side : Side} (h : m.Completes j side) :
    m.line.trap? ≠ some .fatal := by
  obtain ⟨side', htrap⟩ := h.1
  simp [htrap]

/-- A turn that serves a completion is about job `j`, whose device it names. -/
theorem Completes.subject? {side : Side} (w : m.Wired) (hj : j < m.jobs.size)
    (h : m.Completes j side) : m.subject? = some j := by
  obtain ⟨⟨side', htrap⟩, hdata⟩ := h
  rw [subject?_of_completion htrap, completedBy?_number w hj hdata]
  rfl

theorem Fails.turned {side side' : Side} (h : m.Sound)
    (htrap : m.line.trap? = some side'.completion) (hj : j < m.jobs.size)
    (hdata : Word.index? m.line.data = some (side.number j)) (hstatus : m.line.status ≠ 0)
    (hfails : m.Fails side j m') : m.Turned .running m' := by
  have hcompletes : m.Completes j side := ⟨⟨side', htrap⟩, hdata⟩
  have hsubject := hcompletes.subject? h.wired hj
  -- the device that has failed is acknowledged, which no job sees
  have hjob : ∀ k, (m'.view k).job = (m.view k).job := by
    intro k
    by_cases hk : k = j
    · rw [hk, hfails.acknowledged]
      exact View.job_withDevice _ side _
    · rw [hfails.view k hk]
  have hsize : m'.jobs.size = m.jobs.size := congrArg Control.size hfails.control
  have hlife : ∀ k, (m'.job k).life = (m.job k).life := by
    intro k
    rw [← view_life, hjob, view_life]
  have hboot : ∀ k, (m'.job k).boot = (m.job k).boot := by
    intro k
    rw [← view_boot, hjob, view_boot]
  have hidle : m'.idle = m.idle := congrArg Control.idle hfails.control
  constructor
  case wired => exact hfails.wired
  case size => exact hsize
  case config => exact congrArg Control.config hfails.control
  case opens => exact hfails.files.symm ▸ .refl
  case lines => exact .fails hj hcompletes hstatus hfails.line hfails.control
  case finished => exact fun _ hp => by simp at hp
  case scheduled =>
    intro _
    rcases h.scheduled with hengaged | hresting
    · exact .inl (hengaged.of_control ⟨hidle, congrArg Control.current hfails.control⟩
        (hlife _) (hboot _))
    · exact .inr (hresting.of_control hidle hsize hfails.pc fun k _ => hlife k)
  case move =>
    exact fun k _ => move_of_view hsubject hfails.view
      (.fails hcompletes hstatus hfails.line (congrArg Control.culprit? hfails.control)
        hfails.acknowledged) k

theorem Collects.boot {side : Side} (hcollects : m.Collects side j m₁) :
    (m₁.job j).boot = (m.job j).boot := by
  rw [← view_boot, hcollects.collected]
  rfl

theorem Collects.life {side : Side} (hcollects : m.Collects side j m₁) :
    (m₁.job j).life = if (m.job j).life = .waiting then .runnable else (m.job j).life := by
  rw [← view_life, hcollects.collected]
  rfl

/-- The image of job `j`, whose transfer is done, fits. -/
theorem Collects.fits {side : Side} (hcollects : m.Collects side j m₁) (h : m.Sound)
    (hj : j < m.jobs.size) : (m₁.job j).image.size ≤ imageLimit := by
  rw [← view_image, hcollects.collected]
  exact ((h.job j hj).collected side).fits

/-- Job `j`, if it can run after its transfer while no job is loaded, has been booted. -/
theorem Collects.booted {side : Side} (hcollects : m.Collects side j m₁) (h : m.Sound)
    (hj : j < m.jobs.size) (hidle : m₁.idle = true) (hrunnable : (m₁.job j).life = .runnable) :
    (m₁.job j).boot = .booted := by
  have hresting := h.resting ((congrArg Control.idle hcollects.control).symm.trans hidle)
  rw [hcollects.boot]
  refine (h.job j hj).eq_booted ?_
  rw [view_life]
  -- no other job can run, so that this one has just been woken
  by_contra hwaiting
  rw [hcollects.life, if_neg hwaiting] at hrunnable
  exact hresting.stopped j hj hrunnable

/-- When no job is loaded, job `j`, if it can run after its transfer, goes on at once. -/
theorem Collects.resumes {side : Side} (h : m.Sound) (hj : j < m.jobs.size)
    (hcollects : m.Collects side j m₁) (hidle : m₁.idle = true)
    (hrunnable : (m₁.job j).life = .runnable) (status : Word) :
    ∃ m₂, m₁.resume j status = (.running, m₂) ∧ m₁.Installs j m₂ :=
  resume_spec hcollects.wired (hj.trans_eq (congrArg Control.size hcollects.control).symm)
    (hcollects.line ▸ TrapLine.isIdle_clear) (hcollects.fits h hj) hidle
    (hcollects.booted h hj hidle hrunnable) status

theorem Collects.turned {side side' : Side} {p : Progress} (h : m.Sound)
    (htrap : m.line.trap? = some side'.completion) (hj : j < m.jobs.size)
    (hdata : Word.index? m.line.data = some (side.number j)) (hstatus : m.line.status = 0)
    (hcollects : m.Collects side j m₁)
    (hnext : (if m₁.idle && (m₁.job j).isRunnable then m₁.resume j 0 else (.running, m₁)) =
      (p, m')) : m.Turned p m' := by
  have hcompletes : m.Completes j side := ⟨⟨side', htrap⟩, hdata⟩
  have hsubject := hcompletes.subject? h.wired hj
  have hsize : m₁.jobs.size = m.jobs.size := congrArg Control.size hcollects.control
  have hidle : m₁.idle = m.idle := congrArg Control.idle hcollects.control
  have hculprit : m₁.culprit? = none :=
    (congrArg Control.culprit? hcollects.control).trans (h.culprit_eq_none (by simp [htrap]))
  have hline : m₁.line.isIdle = true := by
    rw [hcollects.line]
    rfl
  have hboot := hcollects.boot
  have hlife := hcollects.life
  have hmove : (∀ k, m'.view k = m₁.view k) → ∀ k, m.Move m' k := fun hview =>
    move_of_view hsubject (fun k hk => (hview k).trans (hcollects.view k hk))
      (.collects hcompletes hstatus ((hview j).trans hcollects.collected))
  by_cases hroom : (m₁.idle && (m₁.job j).isRunnable) = true
  · -- the processor has waited for this job
    rw [if_pos hroom] at hnext
    simp only [Bool.and_eq_true, Job.isRunnable, decide_eq_true_eq] at hroom
    have hbooted := hcollects.booted h hj hroom.1 hroom.2
    obtain ⟨m₂, hresume, hinstalls⟩ := hcollects.resumes h hj hroom.1 hroom.2 0
    rw [hresume] at hnext
    obtain ⟨rfl, rfl⟩ := Prod.mk.inj hnext
    exact hinstalls.turned hsize (congrArg Control.config hcollects.control) hculprit
      (hcollects.files.symm ▸ .refl) hroom.2 hbooted fun k _ => hmove hinstalls.view k
  · rw [if_neg hroom] at hnext
    obtain ⟨rfl, rfl⟩ := Prod.mk.inj hnext
    constructor
    case wired => exact hcollects.wired
    case size => exact hsize
    case config => exact congrArg Control.config hcollects.control
    case opens => exact hcollects.files.symm ▸ .refl
    case lines => exact .calm hline hculprit
    case finished => exact fun _ hp => by simp at hp
    case move => exact fun k _ => hmove (fun _ => rfl) k
    case scheduled =>
      intro _
      -- at most the job itself has been woken
      have hkeeps : ∀ k, (m.job k).life ≠ .waiting ∨ k ≠ j →
          (m₁.job k).life = (m.job k).life := by
        intro k hk
        by_cases hkj : k = j
        · subst hkj
          rw [hlife, if_neg (hk.resolve_right fun hne => hne rfl)]
        · rw [← view_life, hcollects.view k hkj, view_life]
      have hboots : ∀ k, (m₁.job k).boot = (m.job k).boot := by
        intro k
        by_cases hkj : k = j
        · rw [hkj, hboot]
        · rw [← view_boot, hcollects.view k hkj, view_boot]
      rcases h.scheduled with hengaged | hresting
      · have hcurrent := hkeeps m.current (.inl (by simp [hengaged.2.1]))
        exact .inl (hengaged.of_control
          ⟨hidle, congrArg Control.current hcollects.control⟩ hcurrent (hboots _))
      · -- the job still cannot run, so that it did not wait
        have hj₁ : (m.job j).life ≠ .waiting := by
          intro hwaiting
          simp [Job.isRunnable, hlife, hwaiting, hidle, hresting.idle] at hroom
        refine .inr (hresting.of_control hidle hsize (hcollects.pc hresting.idle) fun k _ =>
          hkeeps k ?_)
        by_cases hkj : k = j
        · exact .inl (hkj ▸ hj₁)
        · exact .inr hkj

/-- A `trap` that is no request is not misused. -/
theorem not_misuses {trap : Trap} (htrap : m.line.trap? = some trap)
    (hrequest : ∀ side : Side, trap ≠ side.request) : ¬ m.Misuses := by
  rintro ⟨_, hnone | ⟨side, hside, _⟩⟩
  · rw [htrap] at hnone
    simp at hnone
  · rw [htrap, Option.some.injEq] at hside
    exact hrequest side hside

/-- A request that names a register is not misused either. -/
theorem not_misuses_of_register {side : Side} {value : Word}
    (htrap : m.line.trap? = some side.request)
    (hregister : m.hardware.cpu.regs.get? m.line.data = some value) : ¬ m.Misuses := by
  rintro ⟨_, hnone | ⟨_, _, hnone⟩⟩
  · rw [htrap] at hnone
    simp at hnone
  · rw [hregister] at hnone
    simp at hnone

/-- A trap of `m` that becomes an error is neither an error nor a completion before. -/
theorem Misuses.trap?_ne (h : m.Misuses) :
    m.line.trap? ≠ some .fatal ∧ ∀ side : Side, m.line.trap? ≠ some side.completion := by
  refine ⟨fun htrap => ?_, fun side htrap => ?_⟩
  · exact not_misuses htrap (fun side => side.request_ne_fatal.symm) h
  · exact not_misuses htrap (fun side' => (side'.request_ne_completion side).symm) h

/-- A trap of `m` that becomes an error is one of the running job. -/
theorem Misuses.subject? (h : m.Sound) (hmisuses : m.Misuses) :
    m.runs m.current = true ∧ m.subject? = some m.current := by
  obtain ⟨hfatal, hcompletion⟩ := hmisuses.trap?_ne
  have hidle := h.busy hmisuses.1 hcompletion (h.culprit_eq_none hfatal)
  have hrun : m.runs m.current = true := by simp [runs, hidle]
  exact ⟨hrun, by rw [subject?_of_running hcompletion hfatal, running?_eq_some_iff.2 hrun]⟩

/-- `Turn` does nothing else to a sound machine `m`. -/
theorem Turn.turned {p : Progress} (h : m.Sound) (hturn : m.Turn p m') : m.Turned p m' := by
  -- the turns that signal leave the line to no trap that could be charged to a job
  have hcalm : ∀ side : Side, m.line.trap? = some side.completion → m.culprit? = none :=
    fun side htrap => h.culprit_eq_none (by simp [htrap])
  cases hturn with
  | idles hline hidle hsignals =>
    have hculprit := h.culprit_of_isIdle hline
    have hsubject : m.subject? = none := by
      rw [subject?_of_isIdle hline]
      simp [running?, hidle]
    exact hsignals.turned h (.calm (hsignals.line.symm ▸ hline)
      ((congrArg Control.culprit? hsignals.control).trans hculprit)) fun k _ hview =>
        .shifts (by simp [hsubject]) (.stays hview)
  | steps hline hidle hend hsteps => exact hsteps.turned h hline hidle hend
  | reloads hstops hreloads => exact hreloads.turned h hstops
  | retires hstops hretires hpass => exact hretires.turned h hstops hpass
  | failsOver htrap hreloads hnext => exact hreloads.turned_of_fatal h htrap hnext
  | failsOut htrap hretires hnext => exact hretires.turned_of_fatal h htrap hnext
  | rejects hmisuses hsignals =>
    obtain ⟨hrun, hsubject⟩ := hmisuses.subject? h
    exact hsignals.turned h (.rejects hmisuses hsignals.line hsignals.control) fun k _ _ =>
      move_of_view hsubject (fun i _ => hsignals.view i)
        (.rejects hrun hmisuses hsignals.line hsignals.control (hsignals.view _)) k
  | asks htrap hregister hasks => exact hasks.turned h htrap hregister
  | ignores htrap hnone hsignals =>
    have hsubject : m.subject? = none := by
      rw [subject?_of_completion htrap, hnone]
      rfl
    exact hsignals.turned h (.calm (hsignals.line.symm ▸ rfl)
      ((congrArg Control.culprit? hsignals.control).trans (hcalm _ htrap))) fun k _ hview =>
        .shifts (by simp [hsubject]) (.stays hview)
  | fails htrap hj hdata hstatus hfails => exact hfails.turned h htrap hj hdata hstatus
  | collects htrap hj hdata hstatus hcollects hnext =>
    exact hcollects.turned h htrap hj hdata hstatus hnext

end Machine

end BatchMachine
