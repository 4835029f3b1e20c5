import BatchMachine.Proofs.Exits
import BatchMachine.Proofs.FailedActivations
import BatchMachine.Proofs.Finality
import BatchMachine.Proofs.Tallies

/-!
# What the report of a run says

A run ticks on from where the machine stands, until a tick exits or the budget is used up; ticks
that were made before count towards the budget. Its report puts together what is kept in different
places: how the run has ended, the clock, the counts of the processor, and the job table. At the end
all devices are released.

* `Machine.Unbound`, `Machine.Equipped.unbound_releaseAll`: no device is bound to anything.
* `Machine.Run.over`, `Machine.Sound.exists_unfinished`: the jobs at either end.
* `Machine.Run.counts`: the counts at any point of a run.
* `Machine.report_consistent`: what the report says.
-/

namespace BatchMachine

open JobText

namespace Machine

variable {m m' first : Machine} {j k n dev : Nat} {p : Progress} {past : List Machine}

/-! ## How a run ends -/

/-- The ticks of `tickUpTo n m`, if none of them exits, are all made. -/
theorem run_of_tickUpTo_none (h : (tickUpTo n m).1 = none) :
    ∃ past, Run m .running past (tickUpTo n m).2 ∧ past.length = n := by
  obtain ⟨p, past, hrun, _, ⟨rfl, _, hall⟩ | ⟨s, _, hsome⟩⟩ := exists_run_of_tickUpTo n m
  · exact ⟨past, hrun, hall⟩
  · simp [h] at hsome

/-- A sound machine `m`, which has not exited, has a job that is not over. -/
theorem Sound.exists_unfinished (h : m.Sound) :
    ∃ k < m.jobs.size, (m.job k).life ≠ .finished := by
  rcases h.scheduled with hengaged | hresting
  · exact ⟨m.current, h.wired.current, by simp [hengaged.2.1]⟩
  · obtain ⟨i, hi, hwaits⟩ := hresting.waiter
    exact ⟨i, hi, by simp [hwaits]⟩

/-- After an exit with the status `s` all jobs of `m` are over, and their outcomes are known. -/
theorem Run.over {s : Word} (hfirst : first.Sound) (hrun : Run first (.exited s) past m) :
    ∀ k < m.jobs.size, (m.job k).life = .finished ∧ (m.job k).outcome?.isSome = true := by
  cases hrun with
  | @tick past m₁ _ _ hbefore htick =>
    have hsound := (hbefore.sound hfirst).2 rfl
    obtain ⟨m₀, hoffers, hsound₀, hturn⟩ := hsound.turn
    rw [progress_of_tick htick] at hturn
    have hturned := hturn.turned hsound₀
    rw [eq_of_tick_exited htick]
    -- the end of the tick leaves the job table as the turn has left it
    intro k hk
    change k < m₁.served.jobs.size at hk
    change (m₁.served.job k).life = .finished ∧ (m₁.served.job k).outcome?.isSome = true
    rw [hturned.size] at hk
    have hlife := hturned.finished s rfl k hk
    exact ⟨hlife, (((hturned.move k hk).sound hsound₀ hk).finished hlife).outcome⟩

/-! ## Released devices -/

/-- Whatever stands at the number `dev` is bound to nothing. -/
def UnboundAt (m : Machine) (dev : Nat) : Prop :=
  ∀ d, m.hardware.device? dev = some d → d.job? = none ∧ d.sink? = none

/-- No device of `m` is bound to anything. -/
def Unbound (m : Machine) : Prop :=
  ∀ dev, m.UnboundAt dev

/-- `release` leaves the device bound to nothing, and one that is bound to nothing stays so. -/
theorem unboundAt_release {e : Nat} (hdev : dev ≠ 0) (h : e = dev ∨ m.UnboundAt e) :
    (m.release dev).UnboundAt e := by
  intro d hd
  rw [device?_release hdev] at hd
  split at hd
  · obtain ⟨d', _, rfl⟩ := Option.map_eq_some_iff.1 hd
    exact ⟨Device.job?_release, Device.sink?_release⟩
  · rename_i hne
    exact (h.resolve_left hne) d hd

theorem unboundAt_releaseJob {side : Side} (h : j = k ∨ m.UnboundAt (side.number j)) :
    (m.releaseJob k).UnboundAt (side.number j) := by
  have hin : inputNumber k ≠ 0 := Side.input.number_ne_zero k
  have hout : outputNumber k ≠ 0 := Side.output.number_ne_zero k
  unfold releaseJob
  rcases h with rfl | h
  · cases side with
    | input => exact unboundAt_release hout (.inr (unboundAt_release hin (.inl rfl)))
    | output => exact unboundAt_release hout (.inl rfl)
  · exact unboundAt_release hout (.inr (unboundAt_release hin (.inr h)))

/-- The machine after the devices of the first `n` jobs have been released. -/
def releaseFirst (m : Machine) (n : Nat) : Machine :=
  Nat.fold n (fun j _ m => m.releaseJob j) m

theorem releaseFirst_succ (m : Machine) (n : Nat) :
    m.releaseFirst (n + 1) = (m.releaseFirst n).releaseJob n :=
  Nat.fold_succ ..

theorem unboundAt_releaseFirst (side : Side) (hj : j < n) :
    (m.releaseFirst n).UnboundAt (side.number j) := by
  induction n with
  | zero => exact absurd hj (Nat.not_lt_zero _)
  | succ n ih =>
    rw [releaseFirst_succ]
    apply unboundAt_releaseJob
    rcases Nat.lt_succ_iff_lt_or_eq.1 hj with hlt | heq
    · exact .inr (ih hlt)
    · exact .inl heq

theorem size_devices_releaseFirst (m : Machine) (n : Nat) :
    (m.releaseFirst n).hardware.devices.size = m.hardware.devices.size := by
  have hrelease : ∀ (m : Machine) (dev : Nat),
      (m.release dev).hardware.devices.size = m.hardware.devices.size := by
    intro m dev
    unfold release Hardware.release
    cases m.hardware.device? dev <;> simp [Hardware.setDevice, noteAll]
  induction n with
  | zero => rfl
  | succ n ih =>
    rw [releaseFirst_succ]
    exact ((hrelease _ _).trans (hrelease _ _)).trans ih

theorem tally_releaseFirst (m : Machine) (n : Nat) : (m.releaseFirst n).tally = m.tally := by
  induction n with
  | zero => rfl
  | succ n ih => rw [releaseFirst_succ, tally_releaseJob, ih]

/-- Every device is one of a job, so that none stays bound after `releaseAll`. -/
theorem Equipped.unbound_releaseAll (h : m.Equipped) : m.releaseAll.Unbound := by
  intro dev d hd
  have hdevice : dev ≠ 0 ∧ dev - 1 < 2 * m.jobs.size := by
    rw [← h.devices, ← size_devices_releaseFirst m m.jobs.size]
    have hd' := hd
    unfold Hardware.device? at hd'
    split at hd'
    · simp at hd'
    · rename_i hne
      exact ⟨hne, (Array.getElem?_eq_some_iff.1 hd').1⟩
  obtain ⟨j, hj⟩ : ∃ j, ownerOf? dev = some j := by
    simp [ownerOf?, hdevice.1]
  obtain ⟨side, rfl⟩ := Side.exists_number hj
  refine unboundAt_releaseFirst side ?_ d hd
  have hlt := hdevice.2
  cases side <;> simp only [Side.number, inputNumber, outputNumber] at hlt <;> omega

/-! ## The report -/

/-- The report `r` tells how a run has ended, by `status?`, and what is in `last`, the machine that
it has come to. -/
structure Reports (r : Report) (status? : Option Word) (last : Machine) : Prop where
  status : r.status = status?.getD 0
  exhausted : r.budgetExhausted = status?.isNone
  ticks : r.ticks = last.clock
  instructions : r.instructions = last.hardware.cpu.cycles
  idleTicks : r.idleTicks = last.hardware.cpu.idleTicks
  jobs : r.jobs = last.jobReports

/-- What `run` reports, and what it leaves. -/
theorem reports_run {status? : Option Word} {last : Machine}
    (h : tickUpTo (m.config.maxTicks - m.clock) m = (status?, last)) :
    Reports m.run.1 status? last ∧ m.run.2.jobs = last.jobs ∧
      (last.Equipped → m.run.2.Unbound) := by
  unfold run
  rw [h]
  simp only
  generalize hnoted : (if status?.isNone = true then
    last.note (.budgetExhausted last.config.maxTicks) else last) = noted
  -- the note of the end shows in the journal only
  have hagrees : last.Agrees noted ∧ noted.tally = last.tally := by
    rw [← hnoted]
    split
    · exact ⟨agrees_note _, tally_note _⟩
    · exact ⟨⟨rfl, rfl, rfl⟩, rfl⟩
  have htally : noted.releaseAll.tally = last.tally :=
    (tally_releaseFirst noted noted.jobs.size).trans hagrees.2
  have hjobs : noted.releaseAll.jobs = last.jobs := (jobs_releaseAll noted).trans hagrees.1.jobs
  simp only [tally, Tally.mk.injEq] at htally
  obtain ⟨hclock, hcycles, hidle, _⟩ := htally
  refine ⟨⟨rfl, rfl, hclock, hcycles, hidle, ?_⟩, hjobs, fun hequipped => ?_⟩
  · rw [jobReports, hjobs, jobReports]
  · apply Equipped.unbound_releaseAll
    constructor
    · rw [hagrees.1.hardware, hagrees.1.jobs]
      exact hequipped.devices
    · rw [hagrees.1.hardware]
      exact hequipped.number

theorem mem_jobReports {r : JobReport} :
    r ∈ m.jobReports ↔ ∃ k < m.jobs.size, r = (m.job k).report := by
  simp only [jobReports, List.mem_map, Array.mem_toList_iff, Array.mem_iff_getElem]
  constructor
  · rintro ⟨_, ⟨k, hk, rfl⟩, rfl⟩
    exact ⟨k, hk, by simp [job, hk]⟩
  · rintro ⟨k, hk, rfl⟩
    exact ⟨m.jobs[k], ⟨k, hk, rfl⟩, by simp [job, hk]⟩

section Launch

variable {jobs : List (Job × Option Reader)} {config : Config} {files : Files} {journal : Journal}

/-- `first`, when it has started, has not counted anything. -/
theorem Launches.tally (hlaunch : Launches jobs config files journal first) :
    first.tally = ⟨0, 0, 0, config⟩ := by
  have hstart := tally_start (m := new jobs config files journal)
  rw [hlaunch.2] at hstart
  exact hstart

/-- Every tick of a run from `first` to `m` has been counted. -/
theorem Run.counts (hlaunch : Launches jobs config files journal first)
    (hrun : Run first p past m) :
    m.clock = past.length ∧ m.hardware.cpu.cycles = past.countP (·.activity.executes) ∧
      m.hardware.cpu.idleTicks = past.countP (·.activity.idles) ∧ m.config = config := by
  have hfirst := hlaunch.tally
  have hcounted := hrun.tally
  simp only [Machine.tally, Tally.mk.injEq] at hfirst hcounted
  obtain ⟨hclock₀, hcycles₀, hidle₀, hconfig₀⟩ := hfirst
  obtain ⟨hclock, hcycles, hidle, hconfig⟩ := hcounted
  refine ⟨?_, ?_, ?_, hconfig.trans hconfig₀⟩
  · rw [hclock, hclock₀, Nat.zero_add]
  · rw [hcycles, hcycles₀, Nat.zero_add]
  · rw [hidle, hidle₀, Nat.zero_add]

/-- The report of a run that follows any ticks after the start, as long as these are within the
budget and none of them has exited. `later` are the machines that the run ticks, and `p` is what
its last tick comes to. -/
theorem report_consistent (hlaunch : Launches jobs config files journal first)
    (hrun : Run first .running past m) (hbudget : past.length ≤ config.maxTicks) :
    ∃ p later last, Run m p later last ∧
      -- the ticks, which stay within the budget
      m.run.1.ticks = past.length + later.length ∧ m.run.1.ticks ≤ config.maxTicks ∧
      -- the two ends
      (m.run.1.budgetExhausted = false ↔ ∃ s, p = .exited s) ∧
      (∀ s, p = .exited s → m.run.1.status = s ∧
        ∀ r ∈ m.run.1.jobs, r.life = .finished ∧ r.outcome?.isSome = true) ∧
      (m.run.1.budgetExhausted = true → m.run.1.status = 0 ∧ m.run.1.ticks = config.maxTicks ∧
        ∃ r ∈ m.run.1.jobs, r.life ≠ .finished) ∧
      -- the counts, which include the ticks before the run
      m.run.1.instructions = (later ++ past).countP (·.activity.executes) ∧
      m.run.1.idleTicks = (later ++ past).countP (·.activity.idles) ∧
      m.run.1.instructions + m.run.1.idleTicks +
        (later ++ past).countP (·.activity.dispatches) = m.run.1.ticks ∧
      -- the jobs and the devices after the run
      m.run.1.jobs.length = jobs.length ∧ m.run.2.jobReports = m.run.1.jobs ∧
      m.run.2.Unbound := by
  obtain ⟨p, later, hlater, hlength, hends⟩ :=
    exists_run_of_tickUpTo (m.config.maxTicks - m.clock) m
  rcases hresult : tickUpTo (m.config.maxTicks - m.clock) m with ⟨status?, last⟩
  rw [hresult] at hlater hends
  simp only at hlater hends
  obtain ⟨hreports, hjobs, hunbound⟩ := reports_run hresult
  have hall := hrun.trans hlater
  -- what has been counted so far, and what is counted at the end
  obtain ⟨hclock, _, _, hconfig⟩ := hrun.counts hlaunch
  obtain ⟨hclock', hcycles', hidle', _⟩ := hall.counts hlaunch
  have hmax : m.config.maxTicks = config.maxTicks := by rw [hconfig]
  have hticks : m.run.1.ticks = past.length + later.length := by
    rw [hreports.ticks, hclock', List.length_append, Nat.add_comm]
  have hsize : last.jobs.size = jobs.length := hall.size hlaunch
  have hinstructions := hreports.instructions.trans hcycles'
  have hidles := hreports.idleTicks.trans hidle'
  have hkinds := countP_kinds (later ++ past)
  rw [List.length_append] at hkinds
  refine ⟨p, later, last, hlater, hticks, by omega, ?_, ?_, ?_, hinstructions, hidles, by omega,
    ?_, ?_, hunbound (hall.equipped hlaunch).1⟩
  · rw [hreports.exhausted]
    rcases hends with ⟨rfl, hnone, _⟩ | ⟨s, rfl, hsome⟩
    · simp [hnone]
    · simp [hsome]
  · rintro s rfl
    rcases hends with ⟨hp, _⟩ | ⟨s', hs', hsome⟩
    · simp at hp
    · cases hs'
      refine ⟨by rw [hreports.status, hsome]; rfl, fun r hr => ?_⟩
      rw [hreports.jobs, mem_jobReports] at hr
      obtain ⟨k, hk, rfl⟩ := hr
      exact hall.over hlaunch.sound k hk
  · intro hexhausted
    rw [hreports.exhausted] at hexhausted
    rcases hends with ⟨rfl, hnone, hcount⟩ | ⟨s, _, hsome⟩
    · obtain ⟨k, hk, hlife⟩ := ((hall.sound hlaunch.sound).2 rfl).exists_unfinished
      refine ⟨by rw [hreports.status, hnone]; rfl, by omega, (last.job k).report, ?_, hlife⟩
      rw [hreports.jobs, mem_jobReports]
      exact ⟨k, hk, rfl⟩
    · simp [hsome] at hexhausted
  · rw [hreports.jobs, jobReports, List.length_map, Array.length_toList, hsize]
  · rw [hreports.jobs, jobReports, hjobs, jobReports]

/-- The standard configuration with a budget of `n` ticks. -/
def budgeted (n : Nat) : Config :=
  { Config.standard with maxTicks := n }

/-- The jobs of `haltJobs` after their start, with a budget. -/
def haltWithin (n : Nat) : Machine :=
  (new haltJobs (budgeted n) .empty (.new none)).start.2

theorem launches_haltWithin
    (h : (new haltJobs (budgeted n) .empty (.new none)).start.1.isOk = true) :
    Launches haltJobs (budgeted n) .empty (.new none) (haltWithin n) :=
  launches_of_isOk (by decide +kernel) h

/-- A run after one tick. The third tick exits, within a budget of three ticks, on the last one of
them; a budget of two ticks is used up before. -/
theorem report_consistent_halt :
    ((tickUpTo 1 (haltWithin 3)).2.run.1.budgetExhausted = false ∧
      (tickUpTo 1 (haltWithin 3)).2.run.1.status = 7 ∧
      (tickUpTo 1 (haltWithin 3)).2.run.1.ticks = 3 ∧
      (∀ r ∈ (tickUpTo 1 (haltWithin 3)).2.run.1.jobs,
        r.life = .finished ∧ r.outcome?.isSome = true) ∧
      (tickUpTo 1 (haltWithin 3)).2.run.2.Unbound) ∧
    ((tickUpTo 1 (haltWithin 2)).2.run.1.budgetExhausted = true ∧
      (tickUpTo 1 (haltWithin 2)).2.run.1.status = 0 ∧
      (tickUpTo 1 (haltWithin 2)).2.run.1.ticks = 2 ∧
      (∃ r ∈ (tickUpTo 1 (haltWithin 2)).2.run.1.jobs, r.life ≠ .finished) ∧
      (tickUpTo 1 (haltWithin 2)).2.run.2.Unbound) := by
  have hexits : (tickUpTo 1 (haltWithin 3)).1 = none ∧
      (tickUpTo 1 (haltWithin 3)).2.run.1.budgetExhausted = false ∧
      (tickUpTo 1 (haltWithin 3)).2.run.1.status = 7 ∧
      (tickUpTo 1 (haltWithin 3)).2.run.1.ticks = 3 := by decide +kernel
  have hstops : (tickUpTo 1 (haltWithin 2)).1 = none ∧
      (tickUpTo 1 (haltWithin 2)).2.run.1.budgetExhausted = true := by decide +kernel
  obtain ⟨hnone, hwithin, hstatus, hticks⟩ := hexits
  obtain ⟨hnone', hexhausted⟩ := hstops
  have hlaunch : Launches haltJobs (budgeted 3) .empty (.new none) (haltWithin 3) :=
    launches_haltWithin (by decide +kernel)
  have hlaunch' : Launches haltJobs (budgeted 2) .empty (.new none) (haltWithin 2) :=
    launches_haltWithin (by decide +kernel)
  -- one tick has been made before each of the two runs
  obtain ⟨past, hrun, hlength⟩ := run_of_tickUpTo_none hnone
  obtain ⟨past', hrun', hlength'⟩ := run_of_tickUpTo_none hnone'
  have hbudget : past.length ≤ (budgeted 3).maxTicks := by
    rw [hlength]
    decide
  have hbudget' : past'.length ≤ (budgeted 2).maxTicks := by
    rw [hlength']
    decide
  obtain ⟨p, _, _, _, _, _, hfalse, hover, _, _, _, _, _, _, hunbound⟩ :=
    report_consistent hlaunch hrun hbudget
  obtain ⟨_, _, _, _, _, _, _, _, hspent, _, _, _, _, _, hunbound'⟩ :=
    report_consistent hlaunch' hrun' hbudget'
  obtain ⟨s, hs⟩ := hfalse.1 hwithin
  obtain ⟨hzero, hall, hunfinished⟩ := hspent hexhausted
  exact ⟨⟨hwithin, hstatus, hticks, (hover s hs).2, hunbound⟩,
    ⟨hexhausted, hzero, hall, hunfinished, hunbound'⟩⟩

end Launch

end Machine

end BatchMachine
