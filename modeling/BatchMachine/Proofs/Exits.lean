import BatchMachine.Proofs.Charges

/-!
# When the machine exits

The machine exits in the tick that leaves no job to go on. Such a tick ends the last segment of a
job, and if other jobs are still to be booted, none of them can be. The exit status is that of the
job whose segment has ended, and the jobs that cannot be booted do not change it.

* `Machine.EndsSegment`: what is served ends a segment of a job.
* `Machine.Turn.exits`: a turn that exits retires a job.
* `Machine.ExitsWith`: what a tick that exits does.
* `Machine.exits_iff_finished`: a tick of a run exits if and only if all jobs are over after it.
-/

namespace BatchMachine

open JobText

namespace Machine

variable {m m₀ m₁ m' : Machine} {j k : Nat} {p : Progress} {s status : Word} {o : Outcome}

/-- What the tick of a machine serves ends a segment of job `j`, with an outcome and the status that
goes with it. -/
inductive EndsSegment (m : Machine) (j : Nat) : Outcome → Word → Prop
  /-- Job `j` halts. The status is the word in the register that the trap names, and zero if there
  is no such register. -/
  | halts : m.line.trap? = some .halt → m.running? = some j →
      EndsSegment m j (.halted (((m.regsOf j).get? m.line.data).getD 0))
        (((m.regsOf j).get? m.line.data).getD 0)
  /-- Job `j` is at the end of its image. -/
  | completes : m.activity = .ended → m.running? = some j → EndsSegment m j .completed 0
  /-- An error is charged to job `j`. The status is the word that goes with the error. -/
  | fails : m.line.trap? = some .fatal → m.charged? = some j →
      EndsSegment m j (.fatal m.line.data) m.line.data

/-- The tick of `m` exits with the status `s`. -/
structure ExitsWith (m : Machine) (s : Word) (m' : Machine) : Prop where
  /-- A segment ends with the status `s`, and it has been the last one of a job that was not
  over. -/
  retires : ∃ j < m.jobs.size, ∃ o, m.EndsSegment j o s ∧ (m.job j).life ≠ .finished ∧
    (m'.job j).life = .finished ∧ (m'.job j).outcome? = some o ∧
    -- all other jobs were over already, or they were to be booted next and cannot be
    ∀ k < m.jobs.size, k ≠ j →
      ((m.job k).life = .finished ∧ (m'.job k).outcome? = (m.job k).outcome?) ∨
        ((m.job k).boot = .fresh ∧ (m.job k).life = .runnable ∧
          (m'.job k).life = .finished ∧ (m'.job k).outcome? = some .bootFailed)

/-! ## Turns that exit -/

/-- `passOn` exits with the status `s` of the segment that has ended. -/
theorem eq_of_passOn (h : m.passOn status = (.exited s, m')) : s = status := by
  unfold passOn at h
  split at h
  · simp at h
  · split at h
    · simp at h
    · exact (Progress.exited.inj (congrArg Prod.fst h)).symm

/-- When the last segment of job `j` has ended and the processor is passed on, the job keeps its
outcome `o`, and the others go on as before or are given up. -/
theorem Retires.passOn (h : m.Sound) (hj : j < m.jobs.size) (hretires : m.Retires j o none m₁)
    (hcurrent : m.idle = false → m.current = j) (hpass : m₁.passOn status = (p, m')) :
    (m'.job j).outcome? = some o ∧ ∀ k < m.jobs.size, k ≠ j →
      ((m'.job k).life = (m.job k).life ∧ (m'.job k).outcome? = (m.job k).outcome?) ∨
        ((m.job k).boot = .fresh ∧ (m.job k).life = .runnable ∧ (m'.job k).life = .finished ∧
          (m'.job k).outcome? = some .bootFailed) := by
  have hpauses := hretires.pauses h hj rfl hcurrent
  have hhands := passOn_hands hpauses.vacant hpauses.queued status
  rw [hpass] at hhands
  have hsize : ∀ {k}, k < m.jobs.size → k < m₁.jobs.size := fun hk => hpauses.size.symm ▸ hk
  -- the search comes after the end of the segment, and what it does it does to that state
  constructor
  · have houtcome : (m₁.job j).outcome? = some o := by
      rw [← view_outcome?, hretires.dismissed]
      rfl
    rcases (hhands.shift (hsize hj)).spares with ⟨_, hsame⟩ | ⟨_, hrunnable, _⟩
    · exact hsame.trans houtcome
    · -- a job that is over is not tried
      exact absurd hrunnable hpauses.stopped
  · intro k hk hne
    have hview := hpauses.view k hne
    have hspares := (hhands.shift (hsize hk)).spares
    rw [← view_life (m := m₁), ← view_outcome? (m := m₁), ← view_boot, hview] at hspares
    exact hspares

/-- A turn that exits with the status `s` ends the last segment of a job. -/
theorem Turn.exits (h : m.Sound) (hturn : m.Turn (.exited s) m') :
    ∃ j < m.jobs.size, ∃ o m₁, (m.idle = false → m.current = j) ∧ m.Retires j o none m₁ ∧
      m₁.passOn s = (.exited s, m') ∧
      ((j = m.current ∧ m.Stops o s) ∨ (m.line.trap? = some .fatal ∧
        m.culprit?.getD m.current = j ∧ o = .fatal m.line.data ∧ s = m.line.data)) := by
  cases hturn with
  | @retires o status m₁ _ _ hstops hretires hpass =>
    obtain rfl := eq_of_passOn hpass
    rw [(h.runs_of_stops hstops).2.1] at hretires
    exact ⟨m.current, h.wired.current, o, m₁, fun _ => rfl, hretires, hpass, .inl ⟨rfl, hstops⟩⟩
  | @failsOut m₁ _ _ htrap hretires hnext =>
    obtain ⟨hj, _⟩ := h.charged_job htrap
    by_cases hroom : (m.runs (m.culprit?.getD m.current) || m.idle) = true
    · -- the processor is passed on, from the job itself or from idling
      rw [if_pos hroom] at hnext
      obtain rfl := eq_of_passOn hnext
      exact ⟨_, hj, _, m₁, current_of_room hroom, hretires, hnext, .inr ⟨htrap, rfl, rfl, rfl⟩⟩
    · rw [if_neg hroom] at hnext
      simp at hnext
  | @failsOver image reader m₁ _ _ htrap hreloads hnext =>
    -- the job goes on with its next segment
    split at hnext
    · rename_i hidle
      obtain ⟨_, hresume, _⟩ := hreloads.resumes h htrap hidle m.line.data
      rw [hresume] at hnext
      simp at hnext
    · simp at hnext
  | @collects side _ j m₁ _ _ htrap hj hdata hstatus hcollects hnext =>
    -- the job goes on after its transfer
    split at hnext
    · rename_i hroom
      simp only [Bool.and_eq_true, Job.isRunnable, decide_eq_true_eq] at hroom
      obtain ⟨_, hresume, _⟩ := hcollects.resumes h hj hroom.1 hroom.2 0
      rw [hresume] at hnext
      simp at hnext
    · simp at hnext

/-- A segment that ends by itself, with the outcome `o`, is one of the running job. -/
theorem Sound.endsSegment_of_stops (h : m.Sound) (hstops : m.Stops o s) :
    m.EndsSegment m.current o s := by
  obtain ⟨hrun, _, _⟩ := h.runs_of_stops hstops
  have hrunning := running?_eq_some_iff.2 hrun
  rcases hstops with ⟨hline, hidle, hend, rfl, rfl⟩ | ⟨htrap, rfl, rfl⟩
  · refine .completes ?_ hrunning
    rcases h.activity_cases with ⟨hbusy, _⟩ | ⟨_, hresting, _⟩ | ⟨_, _, _, heq⟩ | ⟨_, _, hbusy, _⟩
    case inr.inr.inl => exact heq
    all_goals simp_all
  · have hregs : m.hardware.cpu.regs = m.regsOf m.current := by simp [regsOf, hrun]
    rw [hregs]
    exact .halts htrap hrunning

theorem Offers.stops (h : m.Offers m₀) : m₀.Stops o s ↔ m.Stops o s := by
  unfold Stops
  rw [h.line, h.cpu, show m₀.idle = m.idle from congrArg Control.idle h.control]

/-! ## Ticks that exit -/

/-- If job `j` was over before its last segment ended, some other job would be left. -/
theorem Sound.life_of_exit (h : m.Sound) (hj : j < m.jobs.size)
    (hcurrent : m.idle = false → m.current = j)
    (hothers : ∀ k < m.jobs.size, k ≠ j → (m.job k).life ≠ .waiting) :
    (m.job j).life ≠ .finished := by
  intro hlife
  rcases h.scheduled with hengaged | hresting
  · have hrunnable := hengaged.2.1
    rw [hcurrent hengaged.1, hlife] at hrunnable
    exact absurd hrunnable (by decide)
  · obtain ⟨i, hi, hwaits⟩ := hresting.waiter
    refine hothers i hi ?_ hwaits
    rintro rfl
    rw [hlife] at hwaits
    exact absurd hwaits (by decide)

/-- A tick of a sound machine `m` exits like this. -/
theorem Sound.exitsWith (h : m.Sound) (htick : m.tick = (.exited s, m')) : m.ExitsWith s m' := by
  obtain ⟨m₀, hoffers, hsound₀, hturn⟩ := h.turn
  rw [progress_of_tick htick] at hturn
  obtain ⟨j, hj₀, o, m₁, hcurrent, hretires, hpass, hcause⟩ := hturn.exits hsound₀
  obtain ⟨houtcome, hothers⟩ := hretires.passOn hsound₀ hj₀ hcurrent hpass
  have hover := (hturn.turned hsound₀).finished s rfl
  have hj : j < m.jobs.size := hoffers.size ▸ hj₀
  have hafter := h.unmoved_of_tick htick
  -- a job that waits is left as it is, and would not be over
  have hwaits : ∀ k < m₀.jobs.size, k ≠ j → (m₀.job k).life ≠ .waiting := by
    intro k hk hne hlife
    rcases hothers k hk hne with ⟨hsame, _⟩ | ⟨_, hrunnable, _⟩
    · rw [hover k hk, hlife] at hsame
      exact absurd hsame (by decide)
    · rw [hlife] at hrunnable
      exact absurd hrunnable (by decide)
  refine ⟨j, hj, o, ?_, ?_, ?_, ?_, fun k hk hne => ?_⟩
  · -- the segment ends already in the machine before the requests are offered
    rcases hcause with ⟨rfl, hstops⟩ | ⟨htrap, hcharged, rfl, rfl⟩
    · have hsame : m₀.current = m.current := congrArg Control.current hoffers.control
      rw [hsame]
      exact h.endsSegment_of_stops (hoffers.stops.1 hstops)
    · rw [hoffers.line] at htrap ⊢
      rw [hoffers.culprit?, show m₀.current = m.current from
        congrArg Control.current hoffers.control] at hcharged
      exact .fails htrap (hcharged ▸ h.charged?_eq htrap)
  · rw [← (hoffers.unmoved hj).life]
    exact hsound₀.life_of_exit hj₀ hcurrent hwaits
  · rw [(hafter j).life]
    exact hover j hj₀
  · rw [(hafter j).outcome]
    exact houtcome
  · have hk₀ : k < m₀.jobs.size := hoffers.size.symm ▸ hk
    have hbefore := hoffers.unmoved hk
    rw [(hafter k).life, (hafter k).outcome]
    rcases hothers k hk₀ hne with ⟨hlife, hsame⟩ | ⟨hboot, hrunnable, hfinished, hfailed⟩
    · exact .inl ⟨hbefore.life.symm.trans (hlife.symm.trans (hover k hk₀)),
        hsame.trans hbefore.outcome⟩
    · exact .inr ⟨hbefore.boot.symm.trans hboot, hbefore.life.symm.trans hrunnable, hfinished,
        hfailed⟩

section Launch

variable {jobs : List (Job × Option Reader)} {config : Config} {files : Files} {journal : Journal}
  {first : Machine}

/-- A tick of a run, from `m` to `m'`, exits if and only if all jobs are over after it. It then has
ended the last segment of a job, with whose status it exits. As long as a job can run or waits the
machine goes on. -/
theorem exits_iff_finished (hlaunch : Launches jobs config files journal first)
    {past : List Machine} (hrun : Run first .running past m) (htick : m.tick = (p, m')) :
    ((∃ s, p = .exited s) ↔ ∀ k < jobs.length, (m'.job k).life = .finished) ∧
      (∀ s, p = .exited s → m.ExitsWith s m') ∧
      ((∃ k < jobs.length, (m'.job k).life = .runnable ∨ (m'.job k).life = .waiting) →
        p = .running) := by
  have hsound := (hrun.sound hlaunch.sound).2 rfl
  have hsize := hrun.size hlaunch
  have hsize' := (hrun.tick htick).size hlaunch
  have hfinished : ∀ s, p = .exited s → ∀ k < jobs.length, (m'.job k).life = .finished := by
    rintro s rfl k hk
    obtain ⟨j, _, _, _, _, hlife, _, hothers⟩ := (hsound.exitsWith htick).retires
    by_cases hkj : k = j
    · rw [hkj]
      exact hlife
    · rcases hothers k (hsize.symm ▸ hk) hkj with ⟨hover, _⟩ | ⟨_, _, hgiven, _⟩
      · exact ((hsound.lasts htick (hsize.symm ▸ hk)).2 hover).1
      · exact hgiven
  have hunfinished : p = .running → ∃ k < jobs.length, (m'.job k).life ≠ .finished := by
    rintro rfl
    have hsound' := hsound.tick htick
    -- either a job runs, or some job waits
    rcases hsound'.scheduled with hengaged | hresting
    · exact ⟨m'.current, hsize' ▸ hsound'.wired.current, by simp [hengaged.2.1]⟩
    · obtain ⟨i, hi, hwaits⟩ := hresting.waiter
      exact ⟨i, hsize' ▸ hi, by simp [hwaits]⟩
  refine ⟨⟨?_, fun hall => ?_⟩, ?_, ?_⟩
  · rintro ⟨s, hs⟩
    exact hfinished s hs
  · cases p with
    | exited s => exact ⟨s, rfl⟩
    | running =>
      obtain ⟨k, hk, hlife⟩ := hunfinished rfl
      exact absurd (hall k hk) hlife
  · rintro s rfl
    exact hsound.exitsWith htick
  · rintro ⟨k, hk, hlife⟩
    cases p with
    | running => rfl
    | exited s =>
      rw [hfinished s rfl k hk] at hlife
      simp at hlife

/-- A job that halts with the word in a register, and a job whose text is empty. -/
def haltJobs : List (Job × Option Reader) :=
  [(.new 0 "halts" none, some (.ofText "halts" "$JOB halts\n2 1 7\nf 1 1\n")),
    (.new 1 "empty" none, some (.ofText "empty" ""))]

/-- The machine after their start. -/
def haltFirst : Machine :=
  (new haltJobs .standard .empty (.new none)).start.2

theorem launches_halt : Launches haltJobs .standard .empty (.new none) haltFirst :=
  launches_of_isOk (by decide +kernel) (by decide +kernel)

/-- The third tick after the start exits with the word in the register, although the second job has
been tried after the first one. -/
theorem exits_iff_finished_halt :
    (tickUpTo 2 haltFirst).2.tick.1 = .exited 7 ∧
      ((tickUpTo 2 haltFirst).2.tick.2.job 1).outcome? = some .bootFailed := by
  have hstate : (tickUpTo 2 haltFirst).1 = none ∧
      (tickUpTo 2 haltFirst).2.tick.1 = .exited 7 ∧
      (tickUpTo 2 haltFirst).2.line.trap? = some .halt ∧
      ((tickUpTo 2 haltFirst).2.job 1).life = .runnable ∧
      (tickUpTo 2 haltFirst).2.running? = some 0 ∧
      1 < (tickUpTo 2 haltFirst).2.jobs.size := by decide +kernel
  obtain ⟨hnone, hexit, htrap, hlife, hrunning, hsize⟩ := hstate
  obtain ⟨past, hrun, _⟩ := run_of_tickUpTo (m := haltFirst) (n := 2) hnone
  obtain ⟨j, _, o, hends, _, _, _, hothers⟩ :=
    ((exits_iff_finished launches_halt hrun rfl).2.1 7 hexit).retires
  have hj : j = 0 := by
    generalize (7 : Word) = s at hends
    cases hends with
    | halts _ hj => exact Option.some.inj (hj.symm.trans hrunning)
    | completes _ hj => exact Option.some.inj (hj.symm.trans hrunning)
    | fails hfatal _ => simp [htrap] at hfatal
  refine ⟨hexit, ?_⟩
  rcases hothers 1 hsize (by simp [hj]) with ⟨hover, _⟩ | ⟨_, _, _, hfailed⟩
  · simp [hlife] at hover
  · exact hfailed

end Launch

end Machine

end BatchMachine
