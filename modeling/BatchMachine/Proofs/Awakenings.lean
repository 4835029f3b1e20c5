import BatchMachine.Proofs.Origins

/-!
# What ends a wait

A job that waits for a device goes on when a completion names one of its devices, or when an error
is charged to it. The machine does not know who has put the completion on the processor's line. It
may be a device of the job, which signals its transfer, but a trap instruction of any other job can
do the same, and then the job goes on without its transfer.

* `Machine.Wakes`: what ends the wait of a job.
* `Machine.Move.wakes`: a turn of the processor does so in this case and in no other.
* `Machine.waiting_ends_iff`: the wait of a job in a run, and who can end it.
* `Machine.forged_completion_wakes`: a job whose wait ends although its device still counts down.
-/

namespace BatchMachine

open JobText

namespace Machine

variable {m m₀ m₁ m' : Machine} {j k : Nat} {p : Progress}

/-- What is on the line of `m` ends the wait of job `j`: it is a completion without an error, which
names a device of the job, or an error that is charged to the job. -/
def Wakes (m : Machine) (j : Nat) : Prop :=
  (∃ side, m.Completes j side ∧ m.line.status = 0) ∨
    (m.line.trap? = some .fatal ∧ m.culprit? = some j)

theorem Offers.wakes (h : m.Offers m₀) : m₀.Wakes j ↔ m.Wakes j := by
  unfold Wakes Completes
  rw [h.line, h.culprit?]

/-- A turn that ends the wait of job `j` is about this job. -/
theorem Wakes.subject? (w : m.Wired) (hj : j < m.jobs.size) (h : m.Wakes j) :
    m.subject? = some j := by
  rcases h with ⟨side, hcompletes, _⟩ | ⟨htrap, hculprit⟩
  · exact hcompletes.subject? w hj
  · rw [subject?_of_fatal htrap, hculprit]
    rfl

/-- If job `k` cannot run it does not run. -/
theorem Sound.runs_of_ne_runnable (h : m.Sound) (hlife : (m.job k).life ≠ .runnable) :
    m.runs k = false := by
  rw [Bool.eq_false_iff]
  exact fun hrun => hlife (h.of_runs hrun).1

/-- If job `k` waits it does not run. -/
theorem Sound.runs_of_waiting (h : m.Sound) (hwaits : (m.job k).life = .waiting) :
    m.runs k = false :=
  h.runs_of_ne_runnable (by simp [hwaits])

/-- If job `k` does not run, its segment ends only by an error that is charged to the job. -/
theorem Sound.culprit_of_closes (h : m.Sound) {o : Outcome} (hcloses : m.Closes k o)
    (hstopped : m.runs k = false) :
    m.line.trap? = some .fatal ∧ m.culprit? = some k ∧ o = .fatal m.line.data := by
  rcases hcloses with ⟨hrun, _⟩ | ⟨htrap, hcharged, ho⟩
  · rw [hstopped] at hrun
    exact absurd hrun (by decide)
  refine ⟨htrap, ?_, ho⟩
  cases hculprit : m.culprit? with
  | some i =>
    rw [hculprit] at hcharged
    exact congrArg some hcharged
  | none =>
    -- else the error would be one of the running job
    rw [hculprit] at hcharged
    have hrun := runs_eq_true_iff.2 ⟨h.busy_of_fatal htrap hculprit, hcharged⟩
    rw [hstopped] at hrun
    exact absurd hrun (by decide)

/-- A turn from `m` to `m'` ends the wait of job `k` if what is on the line says so. Else the job
waits on, and its registers stay as they are. -/
theorem Move.wakes (h : m.Sound) (hk : k < m.jobs.size) (hmove : m.Move m' k)
    (hwaits : (m.job k).life = .waiting) :
    (m.Wakes k ∧ (m'.job k).life ≠ .waiting) ∨
      (¬ m.Wakes k ∧ (m'.job k).life = .waiting ∧ m'.regsOf k = m.regsOf k) := by
  have hstopped := h.runs_of_waiting hwaits
  show (m.Wakes k ∧ (m'.view k).job.life ≠ .waiting) ∨
    (¬ m.Wakes k ∧ (m'.view k).job.life = .waiting ∧
      (m'.view k).job.registers = (m.view k).job.registers)
  cases hmove with
  | shifts hsubject hshift =>
    cases hshift with
    | stays hview =>
      -- a turn that is about another job serves nothing that names this one
      refine .inr ⟨fun hwakes => hsubject (hwakes.subject? h.wired hk), ?_, ?_⟩
      · rw [hview]
        exact hwaits
      · rw [hview]
    | boots _ hrunnable | drops _ hrunnable =>
      rw [hwaits] at hrunnable
      exact absurd hrunnable (by decide)
  -- only a job that runs does one of these
  | steps _ hrun | rejects hrun | asks hrun =>
    rw [hstopped] at hrun
    exact absurd hrun (by decide)
  | reloads hcloses _ _ _ _ hview =>
    obtain ⟨htrap, hculprit, _⟩ := h.culprit_of_closes hcloses hstopped
    refine .inl ⟨.inr ⟨htrap, hculprit⟩, ?_⟩
    rw [hview]
    simp [View.entered, View.attached, Job.enter]
  | retires hcloses _ hview =>
    obtain ⟨htrap, hculprit, _⟩ := h.culprit_of_closes hcloses hstopped
    refine .inl ⟨.inr ⟨htrap, hculprit⟩, ?_⟩
    rw [hview]
    simp [View.dismissed]
  -- the job waits on, for the error that will be charged to it in the next turn
  | fails hcompletes hstatus _ _ hview =>
    refine .inr ⟨?_, ?_, ?_⟩
    · rintro (⟨_, _, hok⟩ | ⟨htrap, _⟩)
      · exact hstatus hok
      · exact hcompletes.trap?_ne_fatal htrap
    · rw [hview, View.acknowledged, View.job_withDevice]
      exact hwaits
    · rw [hview, View.acknowledged, View.job_withDevice]
  | collects hcompletes hstatus hview =>
    refine .inl ⟨.inl ⟨_, hcompletes, hstatus⟩, ?_⟩
    rw [hview]
    simp [View.collected, hwaits]

section Launch

variable {jobs : List (Job × Option Reader)} {config : Config} {files : Files} {journal : Journal}
  {first : Machine}

/-- The wait of job `j` ends in just those ticks that serve a completion which names one of its
devices, or an error which is charged to it, and no other tick writes its registers. What is served
has been put on the line by the tick before: by a device that has made its transfer, by the failure
of one, or by a trap instruction of another job. -/
theorem waiting_ends_iff (hlaunch : Launches jobs config files journal first)
    {past : List Machine} (hrun : Run first .running past m) (htick : m.tick = (p, m'))
    (hj : j < jobs.length) (hwaits : (m.job j).life = .waiting) :
    ((m'.job j).life ≠ .waiting ↔ m.Wakes j) ∧
      (m'.regsOf j ≠ m.regsOf j → m.Wakes j) ∧
      (m.Wakes j → ∃ m₁ past', past = m₁ :: past' ∧
        ((∃ t, m₁.Signalled m j t ∧ t.error? = none) ∨
          (∃ m₂ past'', past' = m₂ :: past'' ∧ m₂.FailedTransfer m₁ m j) ∨
          ∃ c i, c ≠ j ∧ m₁.Raised m c i)) := by
  have hsound := (hrun.sound hlaunch.sound).2 rfl
  have hk : j < m.jobs.size := hrun.size hlaunch ▸ hj
  obtain ⟨m₀, hoffers, hsound₀, hmove⟩ := hsound.move_of_tick
  have hserved := (hmove j hk).wakes hsound₀ (hoffers.size.symm ▸ hk)
    ((hoffers.unmoved hk).life.trans hwaits)
  have hafter := hsound.unmoved_of_tick htick j
  -- what comes before the turn and after it changes neither the line nor the job
  rw [hoffers.wakes, (hoffers.unmoved hk).registers, ← hafter.life, ← hafter.registers] at hserved
  refine ⟨?_, ?_, fun hwakes => ?_⟩
  · constructor
    · intro hends
      exact (hserved.resolve_right fun hstays => hends hstays.2.1).1
    · intro hwakes
      exact (hserved.resolve_right fun hstays => hstays.1 hwakes).2
  · intro hwrites
    exact (hserved.resolve_right fun hstays => hwrites hstays.2.2).1
  · -- the completion has its cause one tick earlier, and the error has it two ticks earlier
    rcases hwakes with ⟨side, hcompletes, hstatus⟩ | ⟨_, hculprit⟩
    · obtain ⟨m₁, past', hpast, _, ⟨t, hsignalled, hok⟩ | ⟨c, i, hraised⟩⟩ :=
        hrun.completion hlaunch hcompletes
      · exact ⟨m₁, past', hpast, .inl ⟨t, hsignalled, by simpa using hok.2 hstatus⟩⟩
      · refine ⟨m₁, past', hpast, .inr (.inr ⟨c, i, ?_, hraised⟩)⟩
        -- the job that has raised it still runs
        rintro rfl
        have hrunning := running?_eq_some_iff.1 hraised.2.2.2.2
        rw [hsound.runs_of_waiting hwaits] at hrunning
        exact absurd hrunning (by decide)
    · obtain ⟨_, m₁, m₂, past'', hpast, hfailed⟩ := hrun.failedTransfer hlaunch hculprit
      exact ⟨m₁, m₂ :: past'', hpast, .inr (.inl ⟨m₂, past'', rfl, hfailed⟩)⟩

end Launch

/-! ## A forged completion -/

/-- A job that puts a word into a register and asks for another one from its input, and a job that
raises the completion of the first one's input device. -/
def forgeJobs : List (Job × Option Reader) :=
  [(.new 0 "reader" none,
      some (.ofText "reader" "$JOB reader\n2 1 5\nf 2 1\nf 1 1\n$RUN\n7\n$END\n")),
    (.new 1 "forger" none, some (.ofText "forger" "$JOB forger\nf 42 1\n"))]

/-- The machine after their start. -/
def forgeFirst : Machine :=
  (new forgeJobs .standard .empty (.new none)).start.2

theorem launches_forge : Launches forgeJobs .standard .empty (.new none) forgeFirst :=
  launches_of_isOk (by decide +kernel) (by decide +kernel)

/-- What the fourth and the fifth tick after the start come to. -/
theorem forge_ticks :
    (tickUpTo 4 forgeFirst).1 = none ∧
      ((tickUpTo 4 forgeFirst).2.job 0).life = .waiting ∧
      ((tickUpTo 4 forgeFirst).2.regsOf 0).get? 1 = some 5 ∧
      (tickUpTo 4 forgeFirst).2.tick.1 = .running ∧
      ((tickUpTo 4 forgeFirst).2.tick.2.job 0).life = .runnable ∧
      ((tickUpTo 5 forgeFirst).2.job 0).life = .runnable ∧
      ((tickUpTo 5 forgeFirst).2.regsOf 0).get? 1 = some 0 ∧
      ((tickUpTo 5 forgeFirst).2.hardware.device? 1).map Device.timer = some 8 := by
  decide +kernel

/-- Four ticks after the start the first job waits, and what is on the line ends its wait. -/
theorem waiting_ends_iff_forge :
    ((tickUpTo 4 forgeFirst).2.job 0).life = .waiting ∧ (tickUpTo 4 forgeFirst).2.Wakes 0 := by
  obtain ⟨hnone, hwaits, _, hrunning, hends, _⟩ := forge_ticks
  obtain ⟨past, hrun, _⟩ := run_of_tickUpTo (m := forgeFirst) (n := 4) hnone
  have htick : (tickUpTo 4 forgeFirst).2.tick = (.running, (tickUpTo 4 forgeFirst).2.tick.2) :=
    Prod.ext hrunning rfl
  refine ⟨hwaits, (waiting_ends_iff launches_forge hrun htick (by decide) hwaits).1.1 ?_⟩
  rw [hends]
  decide

/-- The fifth tick after the start ends the wait of the first job and overwrites the register that
it has named, although no device has made a transfer in the fourth tick, and the job's input device
still counts down. -/
theorem forged_completion_wakes :
    Launches forgeJobs .standard .empty (.new none) forgeFirst ∧
      ((tickUpTo 4 forgeFirst).2.job 0).life = .waiting ∧
      ((tickUpTo 5 forgeFirst).2.job 0).life = .runnable ∧
      ((tickUpTo 4 forgeFirst).2.regsOf 0).get? 1 = some 5 ∧
      ((tickUpTo 5 forgeFirst).2.regsOf 0).get? 1 = some 0 ∧
      (∀ side t, ¬ (tickUpTo 3 forgeFirst).2.Transfers side 0 t) ∧
      ((tickUpTo 5 forgeFirst).2.hardware.device? 1).map Device.timer = some 8 := by
  obtain ⟨_, hwaits, hbefore, _, _, hwoken, hafter, htimer⟩ := forge_ticks
  refine ⟨launches_forge, hwaits, hwoken, hbefore, hafter, fun side t htransfers => ?_, htimer⟩
  -- at its turn neither device of the first job has anything to transfer
  have hnone : ((tickUpTo 3 forgeFirst).2.served.tickFirst
      (side.number 0 - 1)).transfer? (side.number 0) |>.isNone := by
    cases side <;> decide +kernel
  exact absurd (htransfers ▸ hnone) (by simp)

end Machine

end BatchMachine
