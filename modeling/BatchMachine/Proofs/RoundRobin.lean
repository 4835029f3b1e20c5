import BatchMachine.Proofs.Finality

/-!
# Round robin

The search for the next job starts after the job that ran last and goes once around the job table.
Whenever the processor changes hands, a job that can run but is not the one that is found has fewer
jobs before it than it had. So no other job gets the processor a second time before it, whether jobs
are given up in a search, go on with a next segment, or are woken while the processor idles.

* `Machine.Activates`: a job gets the processor.
* `Machine.Assigns`, `Machine.Turn.assigns`, `Machine.Sound.assigns`: who has the processor after a
  turn, and after a tick.
* `Machine.Queues`: a job that can run, and has at most so many jobs before it.
* `Machine.Queues.tick`, `Machine.Run.queues`: what becomes of it.
* `Machine.Condemns`: the error that is served is charged to a job.
* `Machine.round_robin`: what happens to the others until a job gets the processor again.
* `Machine.forged_completion_bypasses`: a job that could run is passed over, since its device has
  failed after another job had raised the completion of that device.
-/

namespace BatchMachine

open JobText

namespace Machine

variable {m m₁ m₂ m₃ m' : Machine} {b i j k : Nat} {p : Progress}

/-! ## Who gets the processor -/

/-- `m'` comes from `m` by a change in which job `j` is loaded into the processor. -/
def Activates (j : Nat) (m m' : Machine) : Prop :=
  m'.runs j = true ∧ m'.switches = m.switches + 1

instance (j : Nat) (m m' : Machine) : Decidable (m.Activates j m') :=
  inferInstanceAs (Decidable (_ ∧ _))

/-- Only one job gets the processor at a time, `i` or `j`. -/
theorem Activates.eq (h : m.Activates i m') (h' : m.Activates j m') : i = j :=
  (runs_eq_true_iff.1 h.1).2.symm.trans (runs_eq_true_iff.1 h'.1).2

/-- What the tick of `m` serves is an error that is charged to job `k`. -/
def Condemns (m : Machine) (k : Nat) : Prop :=
  m.line.trap? = some .fatal ∧ m.culprit? = some k

instance (m : Machine) (k : Nat) : Decidable (m.Condemns k) :=
  inferInstanceAs (Decidable (_ ∧ _))

/-- Who has the processor after a change from `m` to `m'`. -/
inductive Assigns (m m' : Machine) : Prop
  /-- No job is loaded. The running job runs on, or the processor idles. -/
  | keeps : m'.current = m.current → m'.switches = m.switches → Assigns m m'
  /-- Job `i` is loaded. Every other job `k` that can run has fewer jobs before it than it had. -/
  | picks {i : Nat} : m.Activates i m' →
      (∀ k < m.jobs.size, (m'.job k).life = .runnable → k ≠ i →
        between m.jobs.size i k < between m.jobs.size m.current k) → Assigns m m'

theorem assigns_of_control {culprit? : Option Nat}
    (h : m'.control = { m.control with culprit? }) : m.Assigns m' :=
  .keeps (congrArg Control.current h) (congrArg Control.switches h)

/-- What goes before `m₁` and leaves the processor to the same job does not matter. -/
theorem Assigns.of_control {culprit? : Option Nat} (h : m₁.Assigns m')
    (hcontrol : m₁.control = { m.control with culprit? }) : m.Assigns m' := by
  have hsize : m₁.jobs.size = m.jobs.size := congrArg Control.size hcontrol
  have hcurrent : m₁.current = m.current := congrArg Control.current hcontrol
  have hswitches : m₁.switches = m.switches := congrArg Control.switches hcontrol
  cases h with
  | keeps hsame hcount => exact .keeps (hsame.trans hcurrent) (hcount.trans hswitches)
  | picks hactivates hbetween =>
    rw [hsize, hcurrent] at hbetween
    exact .picks ⟨hactivates.1, by rw [hactivates.2, hswitches]⟩ hbetween

theorem Installs.activates (h : m.Installs j m') : m.Activates j m' :=
  ⟨runs_eq_true_iff.2 ⟨h.busy, h.current⟩, h.switches⟩

/-- While no job is loaded no job can run, so that job `j`, when it is loaded then, is put before
nobody. -/
theorem Installs.assigns {culprit? : Option Nat} (hinstalls : m₁.Installs j m')
    (hcontrol : m₁.control = { m.control with culprit? })
    (hview : ∀ k, k ≠ j → m₁.view k = m.view k) (hresting : m.Resting) : m.Assigns m' := by
  have hsize : m₁.jobs.size = m.jobs.size := congrArg Control.size hcontrol
  refine Assigns.of_control (.picks hinstalls.activates fun k hk hlife hne => ?_) hcontrol
  rw [← view_life, hinstalls.view, hview k hne, view_life] at hlife
  exact absurd hlife (hresting.stopped k (hsize ▸ hk))

/-- Job `j` gets the processor when it starts, and the others stay as they are. -/
theorem Starts.activates (h : m.Starts j m') :
    m.Activates j m' ∧ ∀ k, k ≠ j → m'.view k = m.view k := by
  rcases h with ⟨_, hinstalls⟩ | ⟨_, m₁, image, reader, hboots, hinstalls⟩
  · exact ⟨hinstalls.activates, fun k _ => hinstalls.view k⟩
  · have hswitches : m₁.switches = m.switches := congrArg Control.switches hboots.control
    obtain ⟨hrun, hcount⟩ := hinstalls.activates
    exact ⟨⟨hrun, by rw [hcount, hswitches]⟩,
      fun k hk => (hinstalls.view k).trans (hboots.view k hk)⟩

/-- Job `j`, if `nextRunnable?` finds it, is the first one on the way around the table. -/
theorem Starts.assigns (h : m.Starts j m') (hvacant : m.Vacant)
    (hnext : m.nextRunnable? = some j) : m.Assigns m' := by
  obtain ⟨hactivates, hview⟩ := h.activates
  refine .picks hactivates fun k hk hlife hne => ?_
  rw [← view_life, hview k hne, view_life] at hlife
  exact between_lt_of_nextRunnable? hvacant.wired.current hnext hk hlife hne

theorem Unloads.assigns (h : m.Unloads m') : m.Assigns m' :=
  .keeps h.current h.switches

/-- `passOn` gives up jobs on the way, which does not move the place where the search has
started. -/
theorem passOn_assigns (h : m.Vacant) (status : Word) : m.Assigns (m.passOn status).2 := by
  rcases passOn_cases (P := fun x => x.control = m.control)
    (fun _ hsame _ _ _ hdrop => hdrop.control.trans hsame) h rfl status with
    ⟨m₁, j, m', heq, hvacant, hsame, hnext, hstarts⟩ | ⟨m₁, m', heq, _, hsame, _, _, hunloads⟩ |
      ⟨m₁, heq, _, hsame, _⟩
  · rw [heq]
    exact (hstarts.assigns hvacant hnext).of_control hsame
  · rw [heq]
    exact hunloads.assigns.of_control hsame
  · rw [heq]
    exact assigns_of_control hsame

theorem giveWay_assigns (h : m.Vacant) : m.Assigns m.giveWay := by
  rcases giveWay_cases (P := fun x => x.control = m.control)
    (fun _ hsame _ _ _ hdrop => hdrop.control.trans hsame) h rfl with
    ⟨m₁, j, hvacant, hsame, hnext, hstarts⟩ | ⟨m₁, _, hsame, _, hunloads⟩
  · exact (hstarts.assigns hvacant hnext).of_control hsame
  · exact hunloads.assigns.of_control hsame

/-- Whatever a turn from `m` to `m'` is about, a job gets the processor only as the first one on the
way around the table, or when no other can run. -/
theorem Turn.assigns (h : m.Sound) (hturn : m.Turn p m') : m.Assigns m' := by
  cases hturn with
  | idles _ _ hsignals => exact assigns_of_control hsignals.control
  | steps _ _ _ hsteps => exact assigns_of_control hsteps.control
  | reloads _ hreloads => exact assigns_of_control hreloads.control
  | @retires _ status m₁ _ _ hstops hretires hpass =>
    obtain ⟨_, hculprit, _⟩ := h.runs_of_stops hstops
    have hpauses := hretires.pauses h h.wired.current hculprit fun _ => rfl
    have hassigns := passOn_assigns hpauses.vacant status
    rw [hpass] at hassigns
    exact hassigns.of_control hretires.control
  | @failsOver _ _ m₁ _ _ htrap hreloads hnext =>
    by_cases hidle : m.idle = true
    · -- the job goes on with its next segment at once
      obtain ⟨m₂, hresume, hinstalls⟩ := hreloads.resumes h htrap hidle m.line.data
      rw [if_pos hidle, hresume] at hnext
      obtain ⟨rfl, rfl⟩ := Prod.mk.inj hnext
      exact hinstalls.assigns hreloads.control hreloads.view (h.resting hidle)
    · rw [if_neg hidle] at hnext
      obtain ⟨rfl, rfl⟩ := Prod.mk.inj hnext
      exact assigns_of_control hreloads.control
  | @failsOut m₁ _ _ htrap hretires hnext =>
    by_cases hroom : (m.runs (m.culprit?.getD m.current) || m.idle) = true
    · -- no other job runs, so that the next one is searched for
      have hpauses := hretires.pauses h (h.charged_job htrap).1 rfl (current_of_room hroom)
      have hassigns := passOn_assigns hpauses.vacant m.line.data
      rw [if_pos hroom] at hnext
      rw [hnext] at hassigns
      exact hassigns.of_control hretires.control
    · rw [if_neg hroom] at hnext
      obtain ⟨rfl, rfl⟩ := Prod.mk.inj hnext
      exact assigns_of_control hretires.control
  | rejects _ hsignals => exact assigns_of_control hsignals.control
  | asks htrap _ hasks =>
    have hassigns := giveWay_assigns (hasks.pauses h htrap).1.vacant
    exact hassigns.of_control hasks.control
  | ignores _ _ hsignals => exact assigns_of_control hsignals.control
  | fails _ _ _ _ hfails => exact assigns_of_control hfails.control
  | @collects _ _ i m₁ _ _ _ hi _ _ hcollects hnext =>
    by_cases hroom : (m₁.idle && (m₁.job i).isRunnable) = true
    · -- the processor has waited for this job
      rw [if_pos hroom] at hnext
      simp only [Bool.and_eq_true, Job.isRunnable, decide_eq_true_eq] at hroom
      obtain ⟨m₂, hresume, hinstalls⟩ := hcollects.resumes h hi hroom.1 hroom.2 0
      rw [hresume] at hnext
      obtain ⟨rfl, rfl⟩ := Prod.mk.inj hnext
      have hidle : m.idle = true := (congrArg Control.idle hcollects.control).symm.trans hroom.1
      exact hinstalls.assigns hcollects.control hcollects.view (h.resting hidle)
    · rw [if_neg hroom] at hnext
      obtain ⟨rfl, rfl⟩ := Prod.mk.inj hnext
      exact assigns_of_control hcollects.control

/-- The offers before the turn and the devices after it leave the processor alone, so that the same
holds of a tick. -/
theorem Sound.assigns (h : m.Sound) (htick : m.tick = (p, m')) : m.Assigns m' := by
  obtain ⟨m₀, hoffers, hsound₀, hturn⟩ := h.turn
  have hassigns := (hturn.assigns hsound₀).of_control hoffers.control
  have hcontrol := h.control_of_tick htick
  have hcurrent : m'.current = m.served.current := congrArg Control.current hcontrol
  have hswitches : m'.switches = m.served.switches := congrArg Control.switches hcontrol
  cases hassigns with
  | keeps hsame hcount => exact .keeps (hcurrent.trans hsame) (hswitches.trans hcount)
  | picks hactivates hbetween =>
    refine .picks ⟨(runs_congr hcontrol).trans hactivates.1, hswitches.trans hactivates.2⟩
      fun k hk hlife => hbetween k hk ?_
    rwa [← (h.unmoved_of_tick htick k).life]

/-! ## A job that waits for its turn -/

/-- Job `k`, which can run but does not run, can still run after a turn, or it is over: it has been
given up, or an error was charged to it. -/
theorem Move.able (h : m.Sound) (hmove : m.Move m' k) (hable : (m.job k).life = .runnable)
    (hstopped : m.runs k = false) :
    (m'.job k).life = .runnable ∨ ((m'.job k).life = .finished ∧
      ((m'.job k).outcome? = some .bootFailed ∨ m.Condemns k)) := by
  show (m'.view k).job.life = .runnable ∨ ((m'.view k).job.life = .finished ∧
    ((m'.view k).job.outcome? = some .bootFailed ∨ m.Condemns k))
  have hlife : (m.view k).job.life = .runnable := hable
  cases hmove with
  | shifts _ hshift =>
    cases hshift with
    | stays hview => exact .inl (hview ▸ hlife)
    | boots _ _ _ _ _ _ _ _ hview => exact .inl (hview ▸ rfl)
    | drops _ _ _ _ hview => exact .inr (hview ▸ ⟨rfl, .inl rfl⟩)
  -- these are turns of the job that runs
  | steps _ hrun | rejects hrun | asks hrun =>
    rw [hstopped] at hrun
    exact absurd hrun (by decide)
  | reloads _ _ _ _ _ hview => exact .inl (hview ▸ rfl)
  | retires hcloses _ hview =>
    obtain ⟨htrap, hculprit, _⟩ := h.culprit_of_closes hcloses hstopped
    exact .inr ⟨hview ▸ rfl, .inr ⟨htrap, hculprit⟩⟩
  | fails _ _ _ _ hview =>
    rw [hview, View.acknowledged, View.job_withDevice]
    exact .inl hlife
  | collects _ _ hview =>
    rw [hview]
    exact .inl (by simp [View.collected, hable])

/-- A job that can run, while another job runs or has run last, and at most `b` jobs come before it
on the way around the table. -/
structure Queues (k b : Nat) (m : Machine) : Prop where
  able : (m.job k).life = .runnable
  other : m.current ≠ k
  between : between m.jobs.size m.current k ≤ b

/-- Job `k`, if it does not get the processor in a tick, queues on with no more jobs before it, or
it is over. -/
theorem Queues.tick (hqueues : m.Queues k b) (h : m.Sound) (hk : k < m.jobs.size)
    (htick : m.tick = (p, m')) (hpassed : ¬ m.Activates k m') :
    m'.Queues k b ∨ ((m'.job k).life = .finished ∧
      ((m'.job k).outcome? = some .bootFailed ∨ m.Condemns k)) := by
  obtain ⟨m₀, hoffers, hsound₀, hmove⟩ := h.move_of_tick
  have hafter := h.unmoved_of_tick htick k
  have hstopped : m₀.runs k = false := by
    rw [runs_congr hoffers.control]
    simp [runs, hqueues.other]
  have hable := (hmove k hk).able hsound₀ ((hoffers.unmoved hk).life.trans hqueues.able) hstopped
  rw [← hafter.life, ← hafter.outcome, Condemns, hoffers.line, hoffers.culprit?] at hable
  refine hable.imp_left fun hable => ?_
  have hsize := (h.lasts htick hk).1
  -- the job that is picked stands before `k` on the way around, and the way gets shorter
  cases h.assigns htick with
  | keeps hcurrent =>
    refine ⟨hable, hcurrent ▸ hqueues.other, ?_⟩
    rw [hsize, hcurrent]
    exact hqueues.between
  | @picks i hactivates hbetween =>
    have hne : k ≠ i := by
      rintro rfl
      exact hpassed hactivates
    have hcurrent : m'.current = i := (runs_eq_true_iff.1 hactivates.1).2
    refine ⟨hable, hcurrent ▸ hne.symm, ?_⟩
    rw [hsize, hcurrent]
    exact (hbetween k hk hable hne).le.trans hqueues.between

section Launch

variable {jobs : List (Job × Option Reader)} {config : Config} {files : Files} {journal : Journal}
  {first : Machine} {past later : List Machine}

/-- As long as nobody forges a completion for job `k`, no error is charged to it unless it waits. -/
theorem Run.not_condemns (hlaunch : Launches jobs config files journal first)
    (hfew : 2 * jobs.length < 2 ^ 31) (hk : k < jobs.length) (hrun : Run first p past m)
    (hhonest : ∀ x ∈ past, ¬ x.Forges k) (hlife : (m.job k).life ≠ .waiting) :
    ¬ m.Condemns k :=
  fun hcondemns => hlife ((hrun.tidy hlaunch hfew hk hhonest).charged hcondemns.2)

/-- A job `k` that does not get the processor in the part `later` of a run queues on, or it is over:
it has been given up, or an error was charged to it. -/
theorem Run.queues (hlaunch : Launches jobs config files journal first) (hk : k < jobs.length)
    (hpast : Run first .running past m₁) (hqueues : m₁.Queues k b) (hrun : Run m₁ p later m₂)
    (hpassed : ∀ x ∈ later, ¬ x.Activates k x.tick.2) :
    m₂.Queues k b ∨ ((m₂.job k).life = .finished ∧
      ((m₂.job k).outcome? = some .bootFailed ∨
        ∃ x ∈ later, x.Condemns k ∧ (x.job k).life ≠ .waiting)) := by
  induction hrun with
  | start => exact .inl hqueues
  | @tick later m m' _ hrun htick ih =>
    have hwhole := hpast.trans hrun
    have hsound := (hwhole.sound hlaunch.sound).2 rfl
    have hk' : k < m.jobs.size := hwhole.size hlaunch ▸ hk
    -- the induction is on the run: the job queues until it is over
    rcases ih fun x hx => hpassed x (List.mem_cons_of_mem _ hx) with hstill | ⟨hover, hcause⟩
    · have hpassed' := hpassed m List.mem_cons_self
      rw [htick] at hpassed'
      refine (hstill.tick hsound hk' htick hpassed').imp_right fun ⟨hover, hcause⟩ => ⟨hover, ?_⟩
      exact hcause.imp_right fun hcondemns =>
        ⟨m, List.mem_cons_self, hcondemns, by simp [hstill.able]⟩
    · -- once the job is over it stays so, and its outcome is changed by errors only
      refine .inr ⟨((hsound.lasts htick hk').2 hover).1, ?_⟩
      by_cases hcondemns : m.Condemns k
      · exact .inr ⟨m, List.mem_cons_self, hcondemns, by simp [hover]⟩
      · have hsame := hsound.outcome_tick hk' htick hover
        unfold Condemns at hcondemns
        rw [if_neg hcondemns] at hsame
        rw [hsame]
        exact hcause.imp_right fun ⟨x, hx, hx'⟩ => ⟨x, List.mem_cons_of_mem _ hx, hx'⟩

/-- While job `j` runs, from the tick on in which it has got the processor, another job `k` can run.
When `j` gets the processor again, in the tick of `m₂`, whatever has happened in the meantime, `k`
has got it in between, or it cannot run any more since it is over. Then it has been given up because
it could not be booted, or a tick in between has served an error that was charged to it although it
did not wait. As long as no program raises a completion for `k` while it waits, the latter never
happens. (The word that names a device has room for its number if there are fewer than `2 ^ 30`
jobs.) -/
theorem round_robin (hlaunch : Launches jobs config files journal first)
    (hpast : Run first .running past m₁) (hruns : m₁.runs j = true) (hk : k < jobs.length)
    (hne : k ≠ j) (hable : (m₁.job k).life = .runnable) (hrun : Run m₁ .running later m₂)
    (htick : m₂.tick = (p, m₃)) (hagain : m₂.Activates j m₃) :
    (∃ x ∈ later, x.Activates k x.tick.2) ∨
      ((m₃.job k).life = .finished ∧
        ((m₃.job k).outcome? = some .bootFailed ∨
          ∃ x ∈ m₂ :: later, x.Condemns k ∧ (x.job k).life ≠ .waiting) ∧
        (2 * jobs.length < 2 ^ 31 → (∀ x ∈ m₂ :: later ++ past, ¬ x.Forges k) →
          (m₃.job k).outcome? = some .bootFailed)) := by
  refine or_iff_not_imp_left.2 fun hnone => ?_
  have hpassed : ∀ x ∈ later, ¬ x.Activates k x.tick.2 := fun x hx hactivates =>
    hnone ⟨x, hx, hactivates⟩
  have hpassed' : ∀ x ∈ m₂ :: later, ¬ x.Activates k x.tick.2 := by
    refine List.forall_mem_cons.2 ⟨fun hactivates => ?_, hpassed⟩
    rw [htick] at hactivates
    exact hne (hactivates.eq hagain)
  have hcurrent : m₁.current = j := (runs_eq_true_iff.1 hruns).2
  -- the bound is what `j` itself would leave before the other job if it got the processor
  have hqueues : m₁.Queues k (between m₁.jobs.size j k) :=
    ⟨hable, hcurrent ▸ hne.symm, hcurrent ▸ le_rfl⟩
  have hwhole := hpast.trans hrun
  have hsound := (hwhole.sound hlaunch.sound).2 rfl
  have hk' : k < m₂.jobs.size := hwhole.size hlaunch ▸ hk
  rcases Run.queues hlaunch hk hpast hqueues (.tick hrun htick) hpassed' with
    hstill | ⟨hover, hcause⟩
  · exfalso
    rcases Run.queues hlaunch hk hpast hqueues hrun hpassed with hbefore | ⟨hover, _⟩
    · -- there were at most as many jobs before it as when `j` ran, and now there are fewer
      cases hsound.assigns htick with
      | keeps _ hsame =>
        have hcount := hagain.2
        omega
      | picks hactivates hbetween =>
        obtain rfl := hactivates.eq hagain
        have hfewer := hbetween k hk' hstill.able hne
        have hmost := hbefore.between
        rw [(hwhole.size hlaunch).trans (hpast.size hlaunch).symm] at hfewer hmost
        omega
    · have hover' := ((hsound.lasts htick hk').2 hover).1
      rw [hstill.able] at hover'
      exact absurd hover' (by decide)
  · refine ⟨hover, hcause, fun hfew hhonest => hcause.resolve_right ?_⟩
    rintro ⟨x, hx, hcondemns, hlife⟩
    obtain ⟨past', hpast', hrun'⟩ := (hpast.trans (.tick hrun htick)).run_of_mem
      (List.mem_append_left past hx)
    exact hrun'.not_condemns hlaunch hfew hk (fun y hy => hhonest y (hpast' y hy)) hlife hcondemns

/-! ## An example -/

/-- A job that writes two words, a job without a segment, and a job that writes one word. -/
def turnJobs : List (Job × Option Reader) :=
  [(.new 0 "writer" none, some (.ofText "writer" "$JOB writer\nf 3 1\nf 3 1\n")),
    (.new 1 "blank" none, some (.ofText "blank" "f 3 1\n")),
    (.new 2 "other" none, some (.ofText "other" "$JOB other\nf 3 1\n"))]

/-- The machine of `turnJobs` after their start. -/
def turnFirst : Machine :=
  (new turnJobs .standard .empty (.new none)).start.2

/-- The machine before the tick in which the first job gets the processor again. -/
def turnLater : Machine :=
  (tickUpTo 12 turnFirst).2

theorem launches_turn : Launches turnJobs .standard .empty (.new none) turnFirst :=
  launches_of_isOk (by decide +kernel) (by decide +kernel)

/-- Both other jobs can run when the first job runs for the first time. When it gets the processor
again the second job has been given up, and the third job has run. -/
theorem round_robin_turn :
    turnFirst.runs 0 = true ∧ (turnFirst.job 1).life = .runnable ∧
      (turnFirst.job 2).life = .runnable ∧ turnLater.Activates 0 turnLater.tick.2 ∧
      (turnLater.tick.2.job 1).outcome? = some .bootFailed ∧
      ∃ later, Run turnFirst .running later turnLater ∧ ∃ x ∈ later, x.Activates 2 x.tick.2 := by
  have hstate : (tickUpTo 12 turnFirst).1 = none ∧ turnFirst.runs 0 = true ∧
      ((turnFirst.job 1).life = .runnable ∧ (turnFirst.job 2).life = .runnable) ∧
      turnLater.Activates 0 turnLater.tick.2 ∧ (turnLater.tick.2.job 2).life ≠ .finished ∧
      (∀ i < 13, ¬ (tickUpTo i turnFirst).2.Forges 1) ∧
      ∀ i < 12, ¬ (tickUpTo i turnFirst).2.Activates 1 (tickUpTo i turnFirst).2.tick.2 := by
    decide +kernel
  obtain ⟨hnone, hruns, ⟨hblank, hother⟩, hagain, hunfinished, hhonest, hpassed⟩ := hstate
  obtain ⟨later, hrun, hlater⟩ := run_of_tickUpTo (m := turnFirst) (n := 12) hnone
  refine ⟨hruns, hblank, hother, hagain, ?_, later, hrun, ?_⟩
  · -- the second job cannot be booted, so it is never activated
    rcases round_robin launches_turn .start hruns (k := 1) (by decide) (by decide) hblank hrun rfl
      hagain with ⟨x, hx, hactivates⟩ | ⟨_, hcause⟩
    · obtain ⟨i, hi, rfl⟩ := hlater x hx
      exact absurd hactivates (hpassed i hi)
    · refine hcause.2 (by decide) fun x hx hforges => ?_
      rw [List.append_nil] at hx
      rcases List.mem_cons.1 hx with rfl | hmem
      · exact hhonest 12 (by decide) hforges
      · obtain ⟨i, hi, rfl⟩ := hlater x hmem
        exact hhonest i (Nat.lt_succ_of_lt hi) hforges
  · -- the third job is not over, so it has been activated
    refine (round_robin launches_turn .start hruns (k := 2) (by decide) (by decide) hother hrun rfl
      hagain).resolve_right ?_
    rintro ⟨hover, _⟩
    exact hunfinished hover

end Launch

/-! ## A job that is passed over -/

/-- A job that asks for a word of an empty input, a job that raises the completion of the first
one's input device, and a job that does nothing for a while and writes a word. -/
def bypassJobs : List (Job × Option Reader) :=
  [(.new 0 "reader" none, some (.ofText "reader" "$JOB reader\nf 2 1\nf 1 1\n")),
    (.new 1 "forger" none, some (.ofText "forger" "$JOB forger\nf 42 1\n")),
    (.new 2 "runner" none,
      some (.ofText "runner" "$JOB runner\n0\n0\n0\n0\n0\n0\n0\nf 3 1\nf 1 1\n"))]

/-- The machine of `bypassJobs` after their start. -/
def bypassFirst : Machine :=
  (new bypassJobs .standard .empty (.new none)).start.2

/-- `bypassAt n`: the machine `n` ticks later. -/
def bypassAt (n : Nat) : Machine :=
  (tickUpTo n bypassFirst).2

/-- The third job gets the processor in the fifth tick and in the 27th. In between the first job can
run until in the 14th tick it is stopped by the failure of its device, without having got the
processor and without having failed to start. -/
theorem forged_completion_bypasses :
    Launches bypassJobs .standard .empty (.new none) bypassFirst ∧
      (tickUpTo 27 bypassFirst).1 = none ∧
      ((bypassAt 4).Activates 2 (bypassAt 5) ∧ ((bypassAt 5).job 0).life = .runnable) ∧
      ((bypassAt 26).Activates 2 (bypassAt 27) ∧ ((bypassAt 27).job 0).life = .finished) ∧
      (∀ i, 5 ≤ i → i < 27 → ¬ (bypassAt i).Activates 0 (bypassAt (i + 1))) ∧
      (∀ i, 5 ≤ i → i < 14 → ((bypassAt i).job 0).life = .runnable) ∧
      (∀ i, 14 ≤ i → i < 28 → ((bypassAt i).job 0).outcome? = some (.fatal 1)) := by
  have hpassed : ∀ i < 27, 5 ≤ i → ¬ (bypassAt i).Activates 0 (bypassAt (i + 1)) := by
    decide +kernel
  have hable : ∀ i < 14, 5 ≤ i → ((bypassAt i).job 0).life = .runnable := by decide +kernel
  have hfatal : ∀ i < 28, 14 ≤ i → ((bypassAt i).job 0).outcome? = some (.fatal 1) := by
    decide +kernel
  exact ⟨launches_of_isOk (by decide +kernel) (by decide +kernel), by decide +kernel,
    by decide +kernel, by decide +kernel, fun i hmin hmax => hpassed i hmax hmin,
    fun i hmin hmax => hable i hmax hmin, fun i hmin hmax => hfatal i hmax hmin⟩

end Machine

end BatchMachine
