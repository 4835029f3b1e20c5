import BatchMachine.Proofs.Origins

/-!
# No interrupt is lost

The processor's line holds one trap at a time. What is on it is served in the next turn of the
processor, and until then nothing takes it away: held requests do not reach the line, a device
signals only if the line is free, and a turn that leaves a trap on the line has put it there without
touching the schedule. The lines that are saved with the registers of the jobs are always free, so
that loading a job neither takes a trap away nor brings one back.

* `Machine.Turn.of_busy`: a turn that leaves a trap on the line.
* `Machine.KeepsTraps`: what a tick does with the traps on the line.
* `Machine.no_trap_lost`: the ticks of a run do so.
-/

namespace BatchMachine

open JobText

namespace Machine

variable {m m₀ m₁ m' : Machine} {j k n : Nat} {p : Progress}

/-! ## Turns that leave a trap on the line -/

/-- Where a segment of job `k` ends nothing is left on the line. -/
theorem Lines.calm_of_closes {o : Outcome} (hlines : m.Lines m') (hcloses : m.Closes k o) :
    m'.line.isIdle = true := by
  cases hlines with
  | calm hline => exact hline
  | rejects hmisuses => exact absurd hcloses hmisuses.not_closes
  | fails _ hcompletes => exact absurd hcloses hcompletes.not_closes
  | steps hline _ hend => exact absurd hcloses (not_closes_of_isIdle hline hend)

/-- A turn that leaves a trap on the line of `m'` executes an instruction, or makes an error of what
was on the line. -/
theorem Turn.of_busy (h : m.Sound) (hturn : m.Turn p m') (hbusy : m'.line.isIdle = false) :
    m.Steps m' ∨ m.Signals (.raise .fatal 0) m.culprit? m' ∨ ∃ side j, m.Fails side j m' := by
  have hlines := (hturn.turned h).lines
  have hfull : ¬ m'.line.isIdle = true := by simp [hbusy]
  -- where a segment ends the line is free after the turn
  have hcloses : ∀ {k o}, ¬ m.Closes k o := fun hcloses => hfull (hlines.calm_of_closes hcloses)
  have hstops : ∀ {o status}, ¬ m.Stops o status := fun hstops =>
    hcloses (.inl ⟨(h.runs_of_stops hstops).1, _, hstops⟩)
  have hfatal : m.line.trap? ≠ some .fatal := fun htrap => hcloses (.inr ⟨htrap, rfl, rfl⟩)
  cases hturn with
  | steps _ _ _ hsteps => exact .inl hsteps
  | rejects _ hsignals => exact .inr (.inl hsignals)
  | fails _ _ _ _ hfails => exact .inr (.inr ⟨_, _, hfails⟩)
  | idles hline _ hsignals => exact absurd (hsignals.line ▸ hline) hfull
  | reloads hstops' | retires hstops' => exact absurd hstops' hstops
  | failsOver htrap | failsOut htrap => exact absurd htrap hfatal
  | ignores _ _ hsignals => exact absurd (hsignals.line ▸ rfl) hfull
  -- a request is taken off the line, and so is a completion
  | @asks side value _ htrap hregister =>
    cases hlines with
    | calm hline => exact absurd hline hfull
    | steps hline => exact absurd hline (TrapLine.not_isIdle htrap)
    | rejects hmisuses => exact absurd hmisuses (not_misuses_of_register htrap hregister)
    | fails _ hcompletes =>
      obtain ⟨side', htrap'⟩ := hcompletes.1
      simp [htrap] at htrap'
  | collects htrap hj hdata hstatus =>
    have hcompletes : m.Completes _ _ := ⟨⟨_, htrap⟩, hdata⟩
    cases hlines with
    | calm hline => exact absurd hline hfull
    | steps hline => exact absurd hline (TrapLine.not_isIdle htrap)
    | rejects hmisuses => exact absurd hmisuses hcompletes.not_misuses
    | fails _ _ hfailed => exact absurd hstatus hfailed

/-- Such a turn leaves the schedule alone: no job is loaded, none stops to run, and no segment is
loaded. -/
theorem Turn.settled (h : m.Sound) (hturn : m.Turn p m') (hbusy : m'.line.isIdle = false) :
    m'.switches = m.switches ∧ m'.running? = m.running? ∧
      ∀ k, (m'.job k).segments = (m.job k).segments := by
  -- none of the three turns that leave a trap on the line calls the scheduler
  rcases hturn.of_busy h hbusy with hsteps | hsignals | ⟨side, j, hfails⟩
  · exact ⟨congrArg Control.switches hsteps.control, running?_congr hsteps.control,
      hsteps.segments_eq⟩
  · exact ⟨congrArg Control.switches hsignals.control, running?_congr hsignals.control,
      hsignals.segments_eq⟩
  · refine ⟨congrArg Control.switches hfails.control, ?_, hfails.segments_eq⟩
    unfold running?
    rw [show m'.idle = m.idle from congrArg Control.idle hfails.control,
      show m'.current = m.current from congrArg Control.current hfails.control]

/-! ## Errors that are raised in a turn -/

/-- A trap that becomes an error leaves the error on the line. -/
theorem Misuses.line_of_move (h : m.Sound) (hmisuses : m.Misuses)
    (hmove : m.Move m' m.current) : m'.line = .raise .fatal 0 := by
  cases hmove with
  | rejects _ _ hline => exact hline
  | shifts hsubject => exact absurd (hmisuses.subject? h).2 hsubject
  | reloads hcloses | retires hcloses => exact absurd hcloses hmisuses.not_closes
  | fails hcompletes | collects hcompletes => exact absurd hmisuses hcompletes.not_misuses
  | steps hline =>
    rw [hmisuses.1] at hline
    exact absurd hline (by decide)
  | asks _ htrap hregister => exact absurd hmisuses (not_misuses_of_register htrap hregister)

/-! ## Ticks -/

/-- What the tick of `m` does with the traps on the processor's line. -/
structure KeepsTraps (m : Machine) (p : Progress) (m' : Machine) : Prop where
  /-- The line stays as it is while the held requests are offered, one after the other. -/
  offers : ∀ n, (m.openTick.offerFirst n).line = m.line
  /-- A trap that is pending when the tick begins is the one that the turn of the processor
  serves. -/
  serves : m.line.number ≠ 0 → ∃ m₁, m.ready.tickProcessor = (.interrupted, m₁) ∧
    m₁.line = m.line ∧ m.ready.stepProcessor = m₁.serveTrap
  /-- An instruction is executed only if the line is free, and what it puts there stays until the
  devices tick. -/
  steps : ∀ r, m.activity = .stepped r → m.ready.line.number = 0 ∧
    m.ready.hardware.cpu.step.1 = r ∧ m.served.line = m.ready.hardware.cpu.step.2.trap
  /-- A trap that the turn leaves on the line is not the one that it has served, but that of an
  instruction, or an error. -/
  raises : m.served.line.number ≠ 0 → (∃ r, m.activity = .stepped r) ∨ m.Misuses ∨
    ∃ (side : Side), ∃ j < m.jobs.size, m.Completes j side ∧ m.line.status ≠ 0
  /-- An error that is made of a trap of the running job stays until the devices tick. -/
  rejects : m.Misuses → m.served.line = .raise .fatal 0
  /-- So does an error that is made of the signal of a failed transfer. -/
  fails : ∀ (side : Side), ∀ j < m.jobs.size, m.Completes j side → m.line.status ≠ 0 →
    m.served.line = .raise .fatal m.line.data
  /-- If the turn of the processor leaves a trap on the line, no job has been loaded or unloaded in
  it, and no segment. -/
  settles : m.served.line.number ≠ 0 → m.served.switches = m.switches ∧
    m.served.running? = m.running? ∧
    ∀ k < m.jobs.size, (m.served.job k).segments = (m.job k).segments
  /-- The tick of a device leaves a trap that is on the line as it is. -/
  holds : ∀ n, (m.served.tickFirst n).line.number ≠ 0 →
    (m.served.tickFirst (n + 1)).line = (m.served.tickFirst n).line
  /-- A device makes its transfer only if the line is free, and its signal is then on the line. -/
  signals : ∀ n t, (m.served.tickFirst n).transfer? (n + 1) = some t →
    (m.served.tickFirst n).line.number = 0 ∧ (m.served.tickFirst (n + 1)).line = t.line ∧
      t.line.number ≠ 0
  /-- After the tick the line of `m'` is as the last device has left it. -/
  ends : p = .running → m'.line = (m.served.tickFirst m.served.hardware.devices.size).line
  /-- Nothing is on the lines that are saved with the registers of the jobs, neither before the
  turn of the processor, nor while the devices tick. -/
  saved : ∀ k < m.jobs.size, (m.job k).trap.number = 0 ∧ (m.ready.job k).trap.number = 0 ∧
    ∀ n, ((m.served.tickFirst n).job k).trap.number = 0

theorem number_eq_zero_iff {line : TrapLine} : line.number = 0 ↔ line.isIdle = true := by
  simp [TrapLine.isIdle]

theorem number_ne_zero_iff {line : TrapLine} : line.number ≠ 0 ↔ line.isIdle = false := by
  simp [TrapLine.isIdle]

namespace Sound

/-- What the processor does in a tick depends on the line as it is after the offers, on
`m.ready.line`. -/
theorem tickProcessor_ready (h : m.Sound) :
    (m.ready.line.isIdle = false ∧ ∃ m₁, m.ready.tickProcessor = (.interrupted, m₁) ∧
        m.ready.Agrees m₁) ∨
      (m.ready.line.isIdle = true ∧ ∀ r, m.ready.tickProcessor.1 = .stepped r →
        m.ready.hardware.cpu.step.1 = r ∧
          m.ready.stepProcessor.2.line = m.ready.hardware.cpu.step.2.trap) := by
  have hsound := h.offers h.offers_ready
  rcases tickProcessor_cases (m := m.ready) fun hidle => (hsound.resting hidle).pc with
    hinterrupted | ⟨hclear, ⟨_, m₁, hcase, _⟩ | ⟨_, _, m₁, hcase, _⟩ | ⟨_, _, m₁, hcase, hagrees⟩⟩
  · exact .inl hinterrupted
  -- of the turns on a free line only one executes an instruction
  case inr.inr.inr =>
    refine .inr ⟨hclear, fun r hactivity => ?_⟩
    rw [hcase, Activity.stepped.injEq] at hactivity
    refine ⟨hactivity, ?_⟩
    unfold stepProcessor
    rw [hcase]
    exact hagrees.line
  all_goals
    refine .inr ⟨hclear, fun r hactivity => ?_⟩
    rw [hcase] at hactivity
    simp at hactivity

/-- A trap that is pending on the line of `m` when the tick begins is the one that the turn
serves. -/
theorem serves_of_busy (h : m.Sound) (hbusy : m.line.isIdle = false) :
    ∃ m₁, m.ready.tickProcessor = (.interrupted, m₁) ∧ m₁.line = m.line ∧
      m.ready.stepProcessor = m₁.serveTrap := by
  rcases h.tickProcessor_ready with ⟨_, m₁, hinterrupted, hagrees⟩ | ⟨hclear, _⟩
  · refine ⟨m₁, hinterrupted, hagrees.line.trans h.offers_ready.line, ?_⟩
    unfold stepProcessor
    rw [hinterrupted]
    rfl
  · rw [h.offers_ready.line, hbusy] at hclear
    exact absurd hclear (by decide)

/-- A trap that the turn leaves on the line of `m.served` is that of an instruction, or an error. -/
theorem raised_of_busy (h : m.Sound) (hbusy : m.served.line.isIdle = false) :
    (∃ r, m.activity = .stepped r) ∨ m.Misuses ∨
      ∃ (side : Side), ∃ j < m.jobs.size, m.Completes j side ∧ m.line.status ≠ 0 := by
  obtain ⟨m₀, hoffers, hsound₀, hturn⟩ := h.turn
  cases (hturn.turned hsound₀).lines with
  | calm hline =>
    rw [hbusy] at hline
    exact absurd hline (by decide)
  | rejects hmisuses => exact .inr (.inl (hoffers.misuses.1 hmisuses))
  | fails hj hcompletes hstatus =>
    rw [hoffers.line] at hstatus
    exact .inr (.inr ⟨_, _, hoffers.size ▸ hj, hoffers.completes.1 hcompletes, hstatus⟩)
  | steps hline hidle hend =>
    rw [hoffers.line] at hline
    rw [show m₀.idle = m.idle from congrArg Control.idle hoffers.control] at hidle
    rw [hoffers.cpu] at hend
    exact .inl ⟨_, h.activity_eq_stepped hline hidle hend⟩

/-- What a device signals by its transfer `t` is a trap. -/
theorem isIdle_line_of_transfer (h : m.Sound) {n : Nat} {t : Device.Tick}
    (hwired : (m.served.tickFirst n).Wired)
    (hsize : (m.served.tickFirst n).jobs.size = m.jobs.size)
    (htransfer : (m.served.tickFirst n).transfer? (n + 1) = some t) : t.line.isIdle = false := by
  obtain ⟨d, hd, _⟩ := transfer?_eq_some htransfer
  -- the device belongs to a job, and so its signal is a completion
  obtain ⟨j, hj, side, hnumber, _⟩ := hwired.exists_device hd
  have htransfers : m.Transfers side j t := by
    unfold Transfers
    rw [← hnumber]
    exact htransfer
  rw [htransfers.line_eq h (hsize ▸ hj)]
  cases side <;> rfl

/-- A tick of a sound machine `m` loses no trap. -/
theorem keepsTraps (h : m.Sound) (htick : m.tick = (p, m')) : m.KeepsTraps p m' := by
  obtain ⟨m₀, hoffers, hsound₀, hturn⟩ := h.turn
  have hturned := hturn.turned hsound₀
  have hsize : ∀ n, (m.served.tickFirst n).jobs.size = m.jobs.size := fun n =>
    (congrArg Control.size (hturned.wired.tickFirst n).2.1).trans
      (hturned.size.trans hoffers.size)
  constructor
  case offers => exact fun n => congrArg Processor.trap (m.openTick.offerFirst_eq n).1
  case serves => exact fun hbusy => h.serves_of_busy (number_ne_zero_iff.1 hbusy)
  case steps =>
    intro r hactivity
    rcases h.tickProcessor_ready with ⟨_, m₁, hinterrupted, _⟩ | ⟨hclear, hstepped⟩
    · have hactivity' : m.ready.tickProcessor.1 = .stepped r := hactivity
      rw [hinterrupted] at hactivity'
      simp at hactivity'
    · exact ⟨number_eq_zero_iff.2 hclear, hstepped r hactivity⟩
  case raises => exact fun hbusy => h.raised_of_busy (number_ne_zero_iff.1 hbusy)
  case rejects =>
    intro hmisuses
    exact (hoffers.misuses.2 hmisuses).line_of_move hsound₀ (hturned.move _ hsound₀.wired.current)
  case fails =>
    intro side j hj hcompletes hstatus
    have hj₀ : j < m₀.jobs.size := hoffers.size.symm ▸ hj
    rw [← hoffers.line] at hstatus ⊢
    rcases (hoffers.completes.2 hcompletes).move_cases hsound₀ hj₀ (hturned.move j hj₀) with
      ⟨_, hline, _⟩ | ⟨hok, _⟩
    · exact hline
    · exact absurd hok hstatus
  case settles =>
    intro hbusy
    obtain ⟨hswitches, hrunning, hsegments⟩ :=
      hturn.settled hsound₀ (number_ne_zero_iff.1 hbusy)
    refine ⟨hswitches.trans (congrArg Control.switches hoffers.control),
      hrunning.trans hoffers.running?, fun k hk => ?_⟩
    exact (hsegments k).trans (hoffers.unmoved hk).segments
  case holds =>
    intro n hbusy
    rw [tickFirst_succ]
    exact line_tickDevice_of_busy (number_ne_zero_iff.1 hbusy) _
  case signals =>
    intro n t htransfer
    obtain ⟨_, _, _, hclear, _⟩ := transfer?_eq_some htransfer
    refine ⟨number_eq_zero_iff.2 hclear, ?_, number_ne_zero_iff.2
      (h.isIdle_line_of_transfer (hturned.wired.tickFirst n).1 (hsize n) htransfer)⟩
    rw [tickFirst_succ, line_tickDevice, htransfer]
    rfl
  case ends =>
    rintro rfl
    rw [eq_of_tick_running htick, agrees_closeTick.line]
  case saved =>
    intro k hk
    have hready := h.offers_ready
    refine ⟨number_eq_zero_iff.2 (h.wired.saved k hk), number_eq_zero_iff.2
      ((h.offers hready).wired.saved k (hready.size.symm ▸ hk)), fun n => ?_⟩
    exact number_eq_zero_iff.2 ((hturned.wired.tickFirst n).1.saved k ((hsize n).symm ▸ hk))

end Sound

/-- In every run no trap on the line of `m` is lost: it is the one that the next tick serves,
nothing takes its place before, and loading a job cannot bring back another one. -/
theorem no_trap_lost {jobs : List (Job × Option Reader)} {config : Config} {files : Files}
    {journal : Journal} {first : Machine} (hlaunch : Launches jobs config files journal first)
    {past : List Machine} (hrun : Run first .running past m) (htick : m.tick = (p, m')) :
    m.KeepsTraps p m' :=
  ((hrun.sound hlaunch.sound).2 rfl).keepsTraps htick

/-- After one tick a request is on the line, and the second tick serves it. -/
theorem no_trap_lost_echo :
    (tickUpTo 1 echoFirst).2.line.number = 2 ∧
      ∃ m₁ : Machine, (tickUpTo 1 echoFirst).2.ready.stepProcessor = m₁.serveTrap ∧
        m₁.line.number = 2 := by
  obtain ⟨past, hrun, _⟩ := run_of_tickUpTo (m := echoFirst) (n := 1) (by decide +kernel)
  have hnumber : (tickUpTo 1 echoFirst).2.line.number = 2 := by decide +kernel
  obtain ⟨m₁, _, hline, hserves⟩ := (no_trap_lost launches_echo hrun rfl).serves (by
    rw [hnumber]
    decide)
  exact ⟨hnumber, m₁, hserves, hline ▸ hnumber⟩

end Machine

end BatchMachine
