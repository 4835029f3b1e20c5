import BatchMachine.Proofs.Turns

/-!
# Handing the processor over

When the running job cannot go on, the jobs that can are tried one after the other, until one
starts; the others are given up. What this does to one job is little: it stays as it is, it is
booted, or it is given up.

* `Machine.Opens`: files in which output files of next segments have been created.
* `Machine.Hands`: the processor is handed over, or idles, or the machine exits.
* `Machine.Shift`, `Machine.Hands.shift`: what this does to one job.
* `Machine.passOn_hands`, `Machine.giveWay_hands`: passing on and giving way do nothing else.
-/

namespace BatchMachine

open JobText

namespace View

/-- Job `j` as `v` shows it, when it has been booted with the code `image`, which `reader` has
read. -/
def started (v : View) (j : Nat) (reader : Reader) (image : List Instruction) (s : Sink) : View :=
  let v := v.entered j reader image s
  { v with job := { v.job with boot := .booted } }

/-- The job that `v` shows when it has been given up. -/
def dropped (v : View) : View :=
  (v.withOutcome .bootFailed).dismissed

end View

namespace Machine

variable {m m₁ m' : Machine} {j k : Nat}

/-! ## Output files on the way -/

/-- Files that come from those of `m` by creating output files of next segments. -/
inductive Opens (m : Machine) : Files → Prop
  | refl : Opens m m.hardware.files
  | create {k : Nat} {files files' : Files} {loc : Location} : k < m.jobs.size → Opens m files →
      files.create (m.outputFile k ((m.job k).segments + 1)) = .ok (files', loc) →
      Opens m files'

/-- Output files of next segments are created one after the other. -/
theorem Opens.trans {files : Files} (h : m.Opens m₁.hardware.files) (h' : m₁.Opens files)
    (hsize : m₁.jobs.size = m.jobs.size) (hconfig : m₁.config = m.config)
    (hsegments : ∀ k < m.jobs.size, (m₁.job k).segments = (m.job k).segments) :
    m.Opens files := by
  induction h' with
  | refl => exact h
  | @create k files files' loc hk _ hcreate ih =>
    have hlt : k < m.jobs.size := hsize ▸ hk
    have hpath : m₁.outputFile k ((m₁.job k).segments + 1) =
        m.outputFile k ((m.job k).segments + 1) := by
      simp only [outputFile, hconfig, hsegments k hlt]
    rw [hpath] at hcreate
    exact .create hlt ih hcreate

theorem MayCreate.opens (h : m.MayCreate j m') (hj : j < m.jobs.size) :
    m.Opens m'.hardware.files := by
  rcases h with ⟨_, hsame⟩ | ⟨_, loc, hcreate⟩
  · rw [hsame]
    exact .refl
  · exact .create hj .refl hcreate

/-! ## The search for the next job -/

/-- `m'` comes from `m` by giving up jobs that cannot be booted. -/
structure Passes (m m' : Machine) : Prop where
  control : m'.control = m.control
  view : ∀ k < m.jobs.size, m'.view k = m.view k ∨
    ((m.job k).boot = .fresh ∧ (m.job k).life = .runnable ∧ m'.view k = (m.view k).dropped ∧
      m.Barred k m.hardware.files)
  files : m'.hardware.files = m.hardware.files

namespace Passes

theorem refl (m : Machine) : m.Passes m :=
  ⟨rfl, fun _ _ => .inl rfl, rfl⟩

theorem opens (h : m.Passes m') : m.Opens m'.hardware.files :=
  h.files.symm ▸ .refl

theorem size (h : m.Passes m') : m'.jobs.size = m.jobs.size :=
  congrArg Control.size h.control

theorem config (h : m.Passes m') : m'.config = m.config :=
  congrArg Control.config h.control

/-- Giving up jobs on the way from `m` to `m'` does not load a segment. -/
theorem segments (h : m.Passes m') (hk : k < m.jobs.size) :
    (m'.job k).segments = (m.job k).segments := by
  rw [← view_segments, ← view_segments]
  rcases h.view k hk with hview | ⟨_, _, hview, _⟩ <;> rw [hview]
  rfl

/-- If job `k` is left over it is as it was. -/
theorem view_of_ne_finished (h : m.Passes m') (hk : k < m.jobs.size)
    (hlife : (m'.job k).life ≠ .finished) : m'.view k = m.view k := by
  rcases h.view k hk with hview | ⟨_, _, hview, _⟩
  · exact hview
  · rw [← view_life, hview] at hlife
    exact absurd rfl hlife

theorem drop (h : m.Passes m₁) (hboot : (m₁.job j).boot = .fresh)
    (hlife : (m₁.job j).life = .runnable) (hdrop : m₁.Drops j m') : m.Passes m' where
  control := hdrop.control.trans h.control
  view k hk := by
    by_cases hkj : k = j
    · subst hkj
      have hview := h.view_of_ne_finished hk (by simp [hlife])
      rw [← view_boot, hview] at hboot
      rw [← view_life, hview] at hlife
      refine .inr ⟨hboot, hlife, by rw [hdrop.dropped, hview]; rfl, ?_⟩
      have hsource : m₁.hardware.source? k = m.hardware.source? k := congrArg View.source? hview
      have hpath : m₁.outputFile k ((m₁.job k).segments + 1) =
          m.outputFile k ((m.job k).segments + 1) := by
        rw [h.segments hk]
        simp only [outputFile, h.config]
      intro r image reader created hr
      rw [← hsource] at hr
      rw [← hpath, ← h.files]
      exact hdrop.barred r image reader created hr
    · rw [hdrop.view k hkj]
      exact h.view k hk
  files := hdrop.files.trans h.files

end Passes

/-- If job `j` is booted now, it comes before all others that have not been booted. -/
def Foremost (m : Machine) (j : Nat) : Prop :=
  (m.job j).boot = .fresh → ∀ f < m.jobs.size,
    (m.job f).boot = .fresh → (m.job f).life ≠ .finished → j ≤ f

/-- The jobs of `m` that have not been booted come after the job that ran last, and they can run. -/
def Queued (m : Machine) : Prop :=
  ∀ f < m.jobs.size, (m.job f).boot = .fresh → (m.job f).life ≠ .finished →
    m.current < f ∧ (m.job f).life = .runnable

theorem Passes.queued (h : m.Passes m₁) (hqueued : m.Queued) : m₁.Queued := by
  intro f hf hboot hlife
  have hf' : f < m.jobs.size := h.size ▸ hf
  have hview := h.view_of_ne_finished hf' hlife
  have hcurrent : m₁.current = m.current := congrArg Control.current h.control
  rw [← view_boot, hview] at hboot
  rw [← view_life, hview] at hlife
  rw [hcurrent, ← view_life, hview]
  exact hqueued f hf' hboot hlife

/-- The search starts after `m.current`, and so meets the jobs that have not been booted in their
order. -/
theorem foremost_of_nextRunnable? (hcurrent : m.current < m.jobs.size)
    (h : m.nextRunnable? = some j) (hqueued : m.Queued) : m.Foremost j := by
  intro hboot f hf hfboot hflife
  obtain ⟨hj, hjlife⟩ := lt_of_nextRunnable? h
  obtain ⟨hjcurrent, _⟩ := hqueued j hj hboot (by simp [hjlife])
  obtain ⟨hfcurrent, hfrunnable⟩ := hqueued f hf hfboot hflife
  by_contra hlt
  -- otherwise `f` would come before `j` on the way from the current job
  have hbetween := between_lt_of_nextRunnable? hcurrent h hf hfrunnable (by omega)
  rw [between, if_neg (by omega), between, if_pos hfcurrent] at hbetween
  omega

/-- The processor of `m` is handed over to the next job, or it idles as long as jobs wait, or the
machine exits. -/
inductive Hands (m : Machine) : Progress → Machine → Prop
  /-- Job `j` starts, after some have been given up. -/
  | starts {m₁ m' : Machine} {j : Nat} : m.Passes m₁ → j < m₁.jobs.size →
      (m₁.job j).life = .runnable → m₁.Foremost j → m₁.Starts j m' → Hands m .running m'
  /-- The processor idles. -/
  | rests {m₁ m' : Machine} : m.Passes m₁ → m₁.nextRunnable? = none → m₁.hasWaiter = true →
      m₁.Vacant → m₁.Unloads m' → Hands m .running m'
  /-- The machine exits with `status`. -/
  | exits {m₁ : Machine} {status : Word} {event : Event} : m.Passes m₁ →
      m₁.nextRunnable? = none → m₁.hasWaiter = false → m₁.Vacant →
      Hands m (.exited status) (m₁.note event)

/-- When a job has ended `passOn` hands the processor over. -/
theorem passOn_hands (h : m.Vacant) (hqueued : m.Queued) (status : Word) :
    m.Hands (m.passOn status).1 (m.passOn status).2 := by
  rcases passOn_cases (P := m.Passes)
    (fun _ hpass _ hboot hlife hdrop => hpass.drop hboot hlife hdrop) h (.refl m) status with
    ⟨m₁, j, m', heq, hvacant, hpass, hnext, hstart⟩ |
      ⟨m₁, m', heq, hvacant, hpass, hnext, hwait, hunload⟩ |
      ⟨m₁, heq, hvacant, hpass, hnext, hwait⟩
  · rw [heq]
    exact .starts hpass (lt_of_nextRunnable? hnext).1 (lt_of_nextRunnable? hnext).2
      (foremost_of_nextRunnable? hvacant.wired.current hnext (hpass.queued hqueued)) hstart
  · rw [heq]
    exact .rests hpass hnext hwait hvacant hunload
  · rw [heq]
    exact .exits hpass hnext hwait hvacant

/-- While job `j` waits `giveWay` hands the processor over. -/
theorem giveWay_hands (h : m.Vacant) (hqueued : m.Queued) (hj : j < m.jobs.size)
    (hwait : (m.job j).life = .waiting) : m.Hands .running m.giveWay := by
  rcases giveWay_cases (P := m.Passes)
    (fun _ hpass _ hboot hlife hdrop => hpass.drop hboot hlife hdrop) h (.refl m) with
    ⟨m₁, i, hvacant, hpass, hnext, hstart⟩ | ⟨m₁, hvacant, hpass, hnext, hunload⟩
  · exact .starts hpass (lt_of_nextRunnable? hnext).1 (lt_of_nextRunnable? hnext).2
      (foremost_of_nextRunnable? hvacant.wired.current hnext (hpass.queued hqueued)) hstart
  · refine .rests hpass hnext (hasWaiter_iff.2 ⟨j, hpass.size ▸ hj, ?_⟩) hvacant hunload
    -- a job that waits is not given up
    rcases hpass.view j hj with hview | ⟨_, hlife, _⟩
    · rw [← view_life, hview]
      exact hwait
    · rw [hwait] at hlife
      exact absurd hlife (by decide)

/-! ## What happens to one job -/

/-- What the search for the next job may do to job `k` on the way from `m` to `m'`. -/
inductive Shift (m m' : Machine) (k : Nat) : Prop
  /-- The job stays as it is. -/
  | stays : m'.view k = m.view k → Shift m m' k
  /-- The job is booted with the code `image`, before all others that have not been. Its output
  file, at `loc`, is the last one that is created. -/
  | boots {r reader : Reader} {image : List Instruction} {files : Files} {loc : Location} :
      (m.job k).boot = .fresh → (m.job k).life = .runnable →
      (∀ f < m.jobs.size, (m'.job f).boot = .fresh → (m'.job f).life ≠ .finished → k < f) →
      (∀ r', m.hardware.source? k = some r' → r' = r) →
      r.nextImage = (.ok (some image), reader) → reader.healthy = true → m.Opens files →
      files.create (m.outputFile k ((m.job k).segments + 1)) = .ok (m'.hardware.files, loc) →
      m'.view k = (m.view k).started k reader image (.ofFile m'.hardware.files loc) →
      Shift m m' k
  /-- The job is given up, since its first segment cannot be loaded. -/
  | drops {files : Files} : (m.job k).boot = .fresh → (m.job k).life = .runnable →
      m.Opens files → m.Barred k files → m'.view k = (m.view k).dropped → Shift m m' k

theorem Passes.shift (h : m.Passes m₁) (hk : k < m.jobs.size)
    (hsame : m'.view k = m₁.view k) : m.Shift m' k := by
  rcases h.view k hk with hview | ⟨hboot, hlife, hview, hbarred⟩
  · exact .stays (hsame.trans hview)
  · exact .drops hboot hlife .refl hbarred (hsame.trans hview)

theorem Hands.shift {p : Progress} (h : m.Hands p m') (hk : k < m.jobs.size) : m.Shift m' k := by
  cases h with
  | rests hpass _ _ _ hunload => exact hpass.shift hk (hunload.view k)
  | exits hpass => exact hpass.shift hk rfl
  | @starts m₁ _ j hpass _ hlife hforemost hstart =>
    rcases hstart with ⟨_, hinstall⟩ | ⟨hboot, m₂, image, reader, hboots, hinstall⟩
    · exact hpass.shift hk (hinstall.view k)
    · by_cases hkj : k = j
      · subst hkj
        have hview := hpass.view_of_ne_finished hk (by simp [hlife])
        have hsource : m₁.hardware.source? k = m.hardware.source? k := congrArg View.source? hview
        have hpath : m₁.outputFile k ((m₁.job k).segments + 1) =
            m.outputFile k ((m.job k).segments + 1) := by
          rw [hpass.segments hk]
          simp only [outputFile, hpass.config]
        obtain ⟨r, hr, hnextImage⟩ := hboots.source
        obtain ⟨loc, hcreate, hentered⟩ := hboots.entered
        -- booting `k` takes it off the fresh jobs, of which it was the foremost
        have hfirst : ∀ f < m.jobs.size, (m'.job f).boot = .fresh →
            (m'.job f).life ≠ .finished → k < f := by
          intro f hf hfboot hflife
          have hne : f ≠ k := by
            rintro rfl
            rw [← view_boot, hinstall.view, hentered] at hfboot
            simp at hfboot
          rw [← view_boot, hinstall.view, hboots.view f hne, view_boot] at hfboot
          rw [← view_life, hinstall.view, hboots.view f hne, view_life] at hflife
          exact lt_of_le_of_ne (hforemost hboot f (hpass.size.symm ▸ hf) hfboot hflife) hne.symm
        rw [← view_boot, hview] at hboot
        rw [← view_life, hview] at hlife
        rw [hpath, ← hinstall.files] at hcreate
        rw [hview, ← hinstall.files] at hentered
        refine .boots hboot hlife hfirst (fun r' hr' => hr r' (hsource ▸ hr')) hnextImage
          hboots.healthy hpass.opens hcreate ?_
        rw [hinstall.view, hentered]
        rfl
      · exact hpass.shift hk ((hinstall.view k).trans (hboots.view k hkj))

/-- What handing the processor over does to the rest of the machine, from `m` to `m'`. -/
structure Settles (m m' : Machine) : Prop where
  wired : m'.Wired
  size : m'.jobs.size = m.jobs.size
  config : m'.config = m.config
  culprit : m'.culprit? = m.culprit?
  line : m'.line.isIdle = true
  opens : m.Opens m'.hardware.files

theorem Hands.settles {p : Progress} (h : m.Hands p m') : m.Settles m' := by
  cases h with
  | rests hpass _ _ hvacant hunload =>
    exact ⟨hunload.wired, hunload.size.trans hpass.size, hunload.config.trans hpass.config,
      hunload.culprit.trans (congrArg Control.culprit? hpass.control),
      hunload.line.symm ▸ hvacant.line, hunload.files.symm ▸ hpass.opens⟩
  | exits hpass _ _ hvacant =>
    exact ⟨(agrees_note _).wired hvacant.wired, hpass.size, hpass.config,
      congrArg Control.culprit? hpass.control, hvacant.line, hpass.opens⟩
  | @starts m₁ _ j hpass hj _ _ hstart =>
    rcases hstart with ⟨_, hinstall⟩ | ⟨_, m₂, image, reader, hboots, hinstall⟩
    · exact ⟨hinstall.wired, hinstall.size.trans hpass.size, hinstall.config.trans hpass.config,
        hinstall.culprit.trans (congrArg Control.culprit? hpass.control), hinstall.line,
        hinstall.files.symm ▸ hpass.opens⟩
    · have hconfig : m₂.config = m₁.config := congrArg Control.config hboots.control
      have hculprit : m₂.culprit? = m₁.culprit? := congrArg Control.culprit? hboots.control
      obtain ⟨loc, hcreate, _⟩ := hboots.entered
      have hopens : m₁.Opens m'.hardware.files := by
        rw [hinstall.files]
        exact .create hj .refl hcreate
      exact ⟨hinstall.wired, (hinstall.size.trans hboots.size).trans hpass.size,
        (hinstall.config.trans hconfig).trans hpass.config,
        (hinstall.culprit.trans hculprit).trans (congrArg Control.culprit? hpass.control),
        hinstall.line, hpass.opens.trans hopens hpass.size hpass.config
          fun _ hk => hpass.segments hk⟩

/-- The processor of `m` has been handed over to a booted job that can run. -/
def Engaged (m : Machine) : Prop :=
  m.idle = false ∧ (m.job m.current).life = .runnable ∧ (m.job m.current).boot = .booted

/-- The processor of `m` idles since no job can run, but some wait. -/
structure Resting (m : Machine) : Prop where
  idle : m.idle = true
  pc : m.hardware.cpu.regs.pc = Registers.idlePc
  stopped : ∀ j < m.jobs.size, (m.job j).life ≠ .runnable
  waiter : ∃ j < m.jobs.size, (m.job j).life = .waiting

/-- When job `j` has started it runs. -/
theorem Starts.engaged (hlife : (m.job j).life = .runnable) (h : m.Starts j m') : m'.Engaged := by
  rcases h with ⟨hboot, hinstall⟩ | ⟨_, m₁, image, reader, hboots, hinstall⟩
  · refine ⟨hinstall.busy, ?_, ?_⟩
    · rw [hinstall.current, ← view_life, hinstall.view]
      exact hlife
    · rw [hinstall.current, ← view_boot, hinstall.view]
      exact hboot
  · obtain ⟨loc, _, hentered⟩ := hboots.entered
    refine ⟨hinstall.busy, ?_, ?_⟩
    · rw [hinstall.current, ← view_life, hinstall.view, hentered]
      rfl
    · rw [hinstall.current, ← view_boot, hinstall.view, hentered]

/-- After the processor has been handed over a job runs, or the processor idles, or, if `p` is an
exit, every job is over. -/
theorem Hands.scheduled {p : Progress} (h : m.Hands p m') :
    (p = .running → m'.Engaged ∨ m'.Resting) ∧
      ∀ status, p = .exited status → ∀ k < m.jobs.size, (m'.job k).life = .finished := by
  cases h with
  | starts hpass _ hlife _ hstart =>
    exact ⟨fun _ => .inl (hstart.engaged hlife), by simp⟩
  | @rests m₁ _ hpass hnext hwait hvacant hunload =>
    refine ⟨fun _ => .inr ⟨hunload.idle, hunload.pc, ?_, ?_⟩, by simp⟩
    · intro j hj
      rw [← view_life, hunload.view]
      exact not_runnable_of_nextRunnable? hnext (hunload.size ▸ hj)
    · obtain ⟨j, hj, hlife⟩ := hasWaiter_iff.1 hwait
      refine ⟨j, hunload.size.symm ▸ hj, ?_⟩
      rw [← view_life, hunload.view]
      exact hlife
  | @exits m₁ _ _ hpass hnext hwait hvacant =>
    refine ⟨by simp, fun _ _ k hk => ?_⟩
    have hk₁ : k < m₁.jobs.size := hpass.size.symm ▸ hk
    have hstopped := not_runnable_of_nextRunnable? hnext hk₁
    -- the machine exits only when nothing is runnable and nothing waits
    have hnone : (m₁.job k).life ≠ .waiting := by
      intro hlife
      rw [hasWaiter_iff.2 ⟨k, hk₁, hlife⟩] at hwait
      exact absurd hwait (by decide)
    change (m₁.job k).life = .finished
    cases hlife : (m₁.job k).life with
    | finished => rfl
    | runnable => exact absurd hlife hstopped
    | waiting => exact absurd hlife hnone

end Machine

end BatchMachine
