import BatchMachine.Proofs.Origins

/-!
# Errors are charged to the right jobs

An error on the processor's line is served one tick after its cause. If a failed transfer is the
cause, the machine remembers whose it was, and this is the only use of that memory. Else the cause
is an instruction of the job that runs, and the job still runs when the error is served. To serve it
ends a segment of the job that is charged, and does little to the others.

* `Machine.charged?`: the job that is charged.
* `Machine.Errs`: what a job has done when an error is charged to it because it runs.
* `Machine.WellCharged`: what is on the line has its cause where the machine looks for it.
* `Machine.ServesFatal`: what it means to serve an error.
* `Machine.faults_charged`: the errors of a run are charged to the right jobs.
-/

namespace BatchMachine

open JobText

namespace Machine

variable {m m₀ m₁ m₂ m' : Machine} {j k c : Nat} {p : Progress}

/-! ## Whose error it is -/

/-- The job that an error on the line of `m` is charged to: the one whose transfer has failed, or
else the one that runs. -/
def charged? (m : Machine) : Option Nat :=
  m.culprit?.or m.running?

/-- What job `c` has done, in the machines of the past with the latest first, when an error on the
line of `m` is charged to it because it runs. -/
inductive Errs (m : Machine) (c : Nat) : List Machine → Prop
  /-- An instruction of the job has failed, with the given `fault`. -/
  | faults {m₁ : Machine} {past : List Machine} {fault : Fault} : m₁.running? = some c →
      m₁.activity = .stepped (.error fault) → Errs m c (m₁ :: past)
  /-- The job has raised the error by the trap instruction `i`. -/
  | raises {m₁ : Machine} {past : List Machine} {i : Instruction} : m₁.Raised m c i →
      i.first = Trap.fatal.code → Errs m c (m₁ :: past)
  /-- The job has raised an unknown trap or a request that names no register by `i`, and to serve
  this has made it an error. -/
  | misuses {m₁ m₂ : Machine} {past : List Machine} {i : Instruction} : m₂.Raised m₁ c i →
      m₁.Misuses → Errs m c (m₁ :: m₂ :: past)

/-- In a machine `m` with the given `past`, latest first, what is on the line has its cause where
the machine looks for it. -/
structure WellCharged (m : Machine) (past : List Machine) : Prop where
  /-- The machine remembers a job in `culprit?` only while the error of one of its failed transfers
  is on the line. -/
  culprit : ∀ j, m.culprit? = some j → j < m.jobs.size ∧ m.line.trap? = some .fatal ∧
    ∃ m₁ m₂ past', past = m₁ :: m₂ :: past' ∧ m₂.FailedTransfer m₁ m j
  /-- Whenever a failure has been signalled that names a device of a job, it remembers this job. -/
  blames : ∀ m₁ past', past = m₁ :: past' → ∀ side : Side, ∀ j < m.jobs.size,
    m₁.Completes j side → m₁.line.status ≠ 0 → m.culprit? = some j
  /-- An error that no job is remembered for is one of the job that runs. -/
  errs : m.line.trap? = some .fatal → m.culprit? = none →
    ∃ c < m.jobs.size, m.running? = some c ∧ m.Errs c past
  /-- A halt or a request on the line has been put there by the job that runs. -/
  raised : ∀ trap, m.line.trap? = some trap → trap = .halt ∨ (∃ side : Side, trap = side.request) →
    ∃ c < m.jobs.size, m.running? = some c ∧
      ∃ m₁ past' i, past = m₁ :: past' ∧ m₁.Raised m c i
  /-- The processor is at the end of an image only if a job runs. -/
  ended : m.activity = .ended → ∃ c < m.jobs.size, m.running? = some c

section Launch

variable {jobs : List (Job × Option Reader)} {config : Config} {files : Files} {journal : Journal}
  {first : Machine}

/-- An error that no job is remembered for is one of the job `c` that runs. -/
theorem Run.errs (hlaunch : Launches jobs config files journal first) {past : List Machine}
    (hrun : Run first .running past m) (htrap : m.line.trap? = some .fatal)
    (hculprit : m.culprit? = none) : ∃ c, m.running? = some c ∧ m.Errs c past := by
  obtain ⟨m₁, past₁, rfl, hrun₁, hsound₁, horigin⟩ :=
    hrun.origin hlaunch (TrapLine.isIdle_eq_false htrap)
  cases horigin with
  -- an instruction puts an error on the line only by naming it
  | traps hrunning hactivity hopcode hline hrunning' =>
    refine ⟨_, hrunning', .raises ⟨hrunning, hactivity, hopcode, hline, hrunning'⟩ ?_⟩
    have hnumber := TrapLine.number_eq htrap
    rw [hline] at hnumber
    exact hnumber
  | faults hrunning hactivity _ hrunning' => exact ⟨_, hrunning', .faults hrunning hactivity⟩
  | @rejects c hrunning hmisuses _ hrunning' =>
    -- the trap that was misused has been raised one tick earlier, by the same job
    obtain ⟨hfatal, hcompletion⟩ := hmisuses.trap?_ne
    obtain ⟨m₂, past₂, c', i, rfl, hraised⟩ :=
      hrun₁.raised hlaunch hmisuses.1 hfatal hcompletion
    obtain rfl : c = c' := Option.some.inj (hrunning.symm.trans hraised.2.2.2.2)
    exact ⟨c, hrunning', .misuses hraised hmisuses⟩
  | fails _ _ _ _ hsome =>
    rw [hculprit] at hsome
    simp at hsome
  -- a device signals a completion
  | @signals side i t hi htransfers hline =>
    rw [hline, htransfers.trap?_eq hsound₁ hi] at htrap
    simp at htrap

/-- A failure that has been signalled makes the machine remember the job `j` that it names. -/
theorem Completes.culprit?_of_tick {side : Side} (h : m.Sound) (hj : j < m.jobs.size)
    (hcompletes : m.Completes j side) (hstatus : m.line.status ≠ 0)
    (htick : m.tick = (.running, m')) : m'.culprit? = some j := by
  obtain ⟨m₀, hoffers, hsound₀, hmove⟩ := h.move_of_tick
  rw [← hoffers.line] at hstatus
  have hj₀ : j < m₀.jobs.size := hoffers.size.symm ▸ hj
  rcases (hoffers.completes.2 hcompletes).move_cases hsound₀ hj₀ (hmove j hj) with
    ⟨_, _, hserved⟩ | ⟨hok, _⟩
  · exact (congrArg Control.culprit? (h.control_of_tick htick)).trans hserved
  · exact absurd hok hstatus

/-- In a run, what is on the line of `m` has its cause where the machine looks for it. -/
theorem Run.wellCharged (hlaunch : Launches jobs config files journal first)
    {past : List Machine} (hrun : Run first .running past m) : m.WellCharged past := by
  have hsound := (hrun.sound hlaunch.sound).2 rfl
  have hcurrent : ∀ {c}, m.running? = some c → c < m.jobs.size := by
    intro c hrunning
    rw [← (runs_eq_true_iff.1 (running?_eq_some_iff.1 hrunning)).2]
    exact hsound.wired.current
  constructor
  case culprit =>
    intro j hculprit
    obtain ⟨hj, hfailed⟩ := hrun.failedTransfer hlaunch hculprit
    exact ⟨hj, (hsound.charged.culprit j hculprit).2.2, hfailed⟩
  case blames =>
    rintro m₁ past' rfl side j hj hcompletes hstatus
    cases hrun with
    | tick hrun₁ htick =>
      have hsound₁ := (hrun₁.sound hlaunch.sound).2 rfl
      have hsize := (hsound₁.lasts htick hsound₁.wired.current).1
      exact hcompletes.culprit?_of_tick hsound₁ (hsize ▸ hj) hstatus htick
  case errs =>
    intro htrap hculprit
    obtain ⟨c, hrunning, herrs⟩ := hrun.errs hlaunch htrap hculprit
    exact ⟨c, hcurrent hrunning, hrunning, herrs⟩
  case raised =>
    intro trap htrap hkind
    -- neither the machine nor a device puts such a trap on the line
    have hother : trap ≠ .fatal ∧ ∀ side : Side, trap ≠ side.completion := by
      rcases hkind with rfl | ⟨side, rfl⟩
      · exact ⟨by decide, fun side => side.completion_ne_halt.symm⟩
      · exact ⟨side.request_ne_fatal, side.request_ne_completion⟩
    obtain ⟨m₁, past', c, i, hpast, hraised⟩ :=
      hrun.raised hlaunch (TrapLine.isIdle_eq_false htrap) (by rw [htrap]; simpa using hother.1)
        (fun side => by rw [htrap]; simpa using hother.2 side)
    have hrunning := hraised.2.2.2.2
    exact ⟨c, hcurrent hrunning, hrunning, m₁, past', i, hpast, hraised⟩
  case ended =>
    intro hactivity
    rcases hsound.activity_cases with ⟨_, heq⟩ | ⟨_, _, heq⟩ | ⟨_, hidle, _⟩ | ⟨_, _, _, heq⟩
    case inr.inr.inl =>
      have hrunning : m.running? = some m.current := by simp [running?, hidle]
      exact ⟨_, hcurrent hrunning, hrunning⟩
    all_goals
      rw [hactivity] at heq
      simp at heq

end Launch

/-! ## What it means to serve an error -/

/-- What the tick of a machine that serves an error does, if the error is charged to job `j`. -/
structure ServesFatal (m m' : Machine) (j : Nat) : Prop where
  /-- The segment of job `j` has ended with the error. -/
  outcome : (m'.job j).outcome? = some (.fatal m.line.data)
  /-- The job is over, or it goes on with its next segment. -/
  ends : (m'.job j).life = .finished ∨
    ((m'.job j).life = .runnable ∧ (m'.job j).segments = (m.job j).segments + 1)
  /-- All other jobs keep their registers, wherever these are kept. -/
  registers : ∀ k < m.jobs.size, k ≠ j → m'.regsOf k = m.regsOf k
  /-- They also keep their outcomes and go on as before, unless one is given up because it is to
  run next and cannot be booted. -/
  others : ∀ k < m.jobs.size, k ≠ j →
    ((m'.job k).life = (m.job k).life ∧ (m'.job k).outcome? = (m.job k).outcome?) ∨
      ((m.job k).boot = .fresh ∧ (m.job k).life = .runnable ∧ (m'.job k).life = .finished ∧
        (m'.job k).outcome? = some .bootFailed)

/-- The search for the next job leaves the registers of job `k` as they are. -/
theorem Shift.regsOf (h : (m.view k).Sound k) (hshift : m.Shift m' k) :
    m'.regsOf k = m.regsOf k := by
  show (m'.view k).job.registers = (m.view k).job.registers
  cases hshift with
  | stays hview => rw [hview]
  | drops _ _ _ _ hview =>
    rw [hview]
    rfl
  | boots hboot hlife _ _ _ _ _ _ hview =>
    -- all registers are zero, and so is the program counter at the start of the first segment
    have hzero : (m.view k).job.registers = .zero :=
      (h.fresh hboot (by rw [view_life, hlife]; decide)).registers
    have hstart : (m'.view k).job.registers = (m.view k).job.registers.setPc 0 := by
      rw [hview]
      rfl
    rw [hstart, hzero]
    decide

/-- If job `k` is not given up, it keeps its outcome and goes on as before. -/
theorem Shift.spares (hshift : m.Shift m' k) :
    ((m'.job k).life = (m.job k).life ∧ (m'.job k).outcome? = (m.job k).outcome?) ∨
      ((m.job k).boot = .fresh ∧ (m.job k).life = .runnable ∧ (m'.job k).life = .finished ∧
        (m'.job k).outcome? = some .bootFailed) := by
  show ((m'.view k).job.life = (m.view k).job.life ∧
      (m'.view k).job.outcome? = (m.view k).job.outcome?) ∨
    ((m.job k).boot = .fresh ∧ (m.job k).life = .runnable ∧ (m'.view k).job.life = .finished ∧
      (m'.view k).job.outcome? = some .bootFailed)
  cases hshift with
  | stays hview =>
    rw [hview]
    exact .inl ⟨rfl, rfl⟩
  | boots _ hlife _ _ _ _ _ _ hview =>
    rw [hview]
    exact .inl ⟨hlife.symm, rfl⟩
  | drops hboot hlife _ _ hview =>
    rw [hview]
    exact .inr ⟨hboot, hlife, rfl, rfl⟩

/-- An error ends a segment of job `k` if it is charged to it, and else the job is not concerned. -/
theorem Move.of_fatal (htrap : m.line.trap? = some .fatal) (hmove : m.Move m' k) :
    (m.culprit?.getD m.current ≠ k ∧ m.Shift m' k) ∨
      (m.culprit?.getD m.current = k ∧ (m'.job k).outcome? = some (.fatal m.line.data) ∧
        ((m'.job k).life = .finished ∨
          ((m'.job k).life = .runnable ∧ (m'.job k).segments = (m.job k).segments + 1))) := by
  -- with an error on the line a segment ends by this error alone
  have hcloses : ∀ {o}, m.Closes k o → m.culprit?.getD m.current = k ∧ o = .fatal m.line.data := by
    rintro o (⟨_, _, ⟨hline, _⟩ | ⟨hhalt, _⟩⟩ | ⟨_, hcharged, ho⟩)
    · exact absurd hline (TrapLine.not_isIdle htrap)
    · rw [hhalt] at htrap
      exact absurd htrap (by decide)
    · exact ⟨hcharged, ho⟩
  show _ ∨ (_ ∧ (m'.view k).job.outcome? = _ ∧ ((m'.view k).job.life = _ ∨
    ((m'.view k).job.life = _ ∧ (m'.view k).job.segments = _)))
  cases hmove with
  | shifts hsubject hshift =>
    refine .inl ⟨fun hcharged => hsubject ?_, hshift⟩
    rw [subject?_of_fatal htrap, hcharged]
  | reloads hends _ _ _ _ hview =>
    obtain ⟨hcharged, rfl⟩ := hcloses hends
    rw [hview]
    exact .inr ⟨hcharged, rfl, .inr ⟨rfl, rfl⟩⟩
  | retires hends _ hview =>
    obtain ⟨hcharged, rfl⟩ := hcloses hends
    rw [hview]
    exact .inr ⟨hcharged, rfl, .inl rfl⟩
  | rejects _ hmisuses => exact absurd htrap hmisuses.trap?_ne.1
  | fails hcompletes | collects hcompletes => exact absurd htrap hcompletes.trap?_ne_fatal
  | steps hline =>
    exact absurd hline (TrapLine.not_isIdle htrap)
  | @asks side _ _ hrequest =>
    simp [hrequest] at htrap

/-- Some job is there for every error to be charged to: `m.charged?` is not `none`. -/
theorem Sound.charged?_eq (h : m.Sound) (htrap : m.line.trap? = some .fatal) :
    m.charged? = some (m.culprit?.getD m.current) := by
  unfold charged?
  cases hculprit : m.culprit? with
  | some i => rfl
  | none => simp [running?, h.busy_of_fatal htrap hculprit]

/-- An error on the line of `m` is served by ending a segment of the job `j` that it is charged
to. -/
theorem Sound.servesFatal (h : m.Sound) (htick : m.tick = (p, m'))
    (htrap : m.line.trap? = some .fatal) :
    ∃ j < m.jobs.size, m.charged? = some j ∧ m.ServesFatal m' j := by
  obtain ⟨m₀, hoffers, hsound₀, hmove⟩ := h.move_of_tick
  have htrap₀ : m₀.line.trap? = some .fatal := by rw [hoffers.line, htrap]
  have hcurrent : m₀.current = m.current := congrArg Control.current hoffers.control
  obtain ⟨hj, _⟩ := h.charged_job htrap
  have hcharged := h.charged?_eq htrap
  generalize hj' : m.culprit?.getD m.current = j at hj hcharged
  have hj₀ : m₀.culprit?.getD m₀.current = j := by rw [hoffers.culprit?, hcurrent, hj']
  refine ⟨j, hj, hcharged, ?_⟩
  -- all other jobs are involved in the search for the next job, at most
  have hshift : ∀ k < m.jobs.size, k ≠ j → m₀.Shift m.served k := fun k hk hne =>
    (((hmove k hk).of_fatal htrap₀).resolve_right fun hself => hne (hself.1.symm.trans hj₀)).2
  obtain ⟨_, houtcome, hends⟩ :=
    ((hmove j hj).of_fatal htrap₀).resolve_left fun hother => hother.1 hj₀
  have hafter := h.unmoved_of_tick htick
  constructor
  case outcome => rw [(hafter j).outcome, houtcome, hoffers.line]
  case ends =>
    rw [(hafter j).life, (hafter j).segments, ← (hoffers.unmoved hj).segments]
    exact hends
  case registers =>
    intro k hk hne
    calc m'.regsOf k
      _ = m.served.regsOf k := (hafter k).registers
      _ = m₀.regsOf k := (hshift k hk hne).regsOf (hsound₀.job k (hoffers.size.symm ▸ hk))
      _ = m.regsOf k := (hoffers.unmoved hk).registers
  case others =>
    intro k hk hne
    have hspares := (hshift k hk hne).spares
    have hbefore := hoffers.unmoved hk
    rw [hbefore.life, hbefore.outcome, hbefore.boot] at hspares
    rw [(hafter k).life, (hafter k).outcome]
    exact hspares

/-- The errors of a run are charged to the right jobs: `m` remembers a job only for the error of its
failed transfer, any other error is one of the job that runs, and to serve an error ends a segment
of just the job that it is charged to. -/
theorem faults_charged {jobs : List (Job × Option Reader)} {config : Config} {files : Files}
    {journal : Journal} {first : Machine} (hlaunch : Launches jobs config files journal first)
    {past : List Machine} (hrun : Run first .running past m) (htick : m.tick = (p, m')) :
    m.WellCharged past ∧
      (m.line.trap? = some .fatal → ∃ j < m.jobs.size, m.charged? = some j ∧ m.ServesFatal m' j) :=
  ⟨hrun.wellCharged hlaunch, ((hrun.sound hlaunch.sound).2 rfl).servesFatal htick⟩

/-- A job that asks for a word of an empty input, and a job that works in the meantime. -/
def starveJobs : List (Job × Option Reader) :=
  [(.new 0 "reader" none, some (.ofText "reader" "$JOB reader\nf 2 1\n$RUN\n$END\n")),
    (.new 1 "worker" none,
      some (.ofText "worker" "$JOB worker\n2 1 1\n2 1 2\n2 1 3\n2 1 4\n"))]

/-- The machine after their start, with devices that need one tick. -/
def starveFirst : Machine :=
  (new starveJobs { Config.standard with deviceDelay := 1 } .empty (.new none)).start.2

theorem launches_starve :
    Launches starveJobs { Config.standard with deviceDelay := 1 } .empty (.new none)
      starveFirst :=
  launches_of_isOk (by decide +kernel) (by decide +kernel)

/-- Four ticks after the start the second job runs, and the error on the line is charged to the
first one, which waits. -/
theorem faults_charged_starve :
    (tickUpTo 4 starveFirst).2.running? = some 1 ∧
      ((tickUpTo 4 starveFirst).2.tick.2.job 0).outcome? = some (.fatal 1) := by
  have hstate : (tickUpTo 4 starveFirst).1 = none ∧
      (tickUpTo 4 starveFirst).2.running? = some 1 ∧
      (tickUpTo 4 starveFirst).2.line.trap? = some .fatal ∧
      (tickUpTo 4 starveFirst).2.line.data = 1 ∧
      (tickUpTo 4 starveFirst).2.charged? = some 0 := by decide +kernel
  obtain ⟨hnone, hrunning, htrap, hdata, hcharged⟩ := hstate
  obtain ⟨past, hrun, _⟩ := run_of_tickUpTo (m := starveFirst) (n := 4) hnone
  obtain ⟨j, _, hj, hserves⟩ := (faults_charged launches_starve hrun rfl).2 htrap
  obtain rfl : 0 = j := Option.some.inj (hcharged.symm.trans hj)
  exact ⟨hrunning, hdata ▸ hserves.outcome⟩

end Machine

end BatchMachine
