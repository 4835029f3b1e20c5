import BatchMachine.Proofs.Reachability

/-!
# What puts a trap on the processor's line

In a tick the held requests are offered, the processor has its turn, and the devices tick one after
the other. Nothing but the processor's turn and the transfer of a device puts a trap on the
processor's line, and a device waits with its transfer until the line is free. So a trap that is on
the line between two ticks tells what has happened in the first of them.

* `Machine.ready`, `Machine.activity`, `Machine.served`, `Machine.tickFirst`: the parts of a tick.
* `Machine.Transfers`: a device makes its transfer in a tick.
* `Machine.Completes.move_cases`: what the turn does that serves a completion.
* `Machine.Origin`, `Machine.Run.origin`: what puts a trap on the line.
* `Machine.FailedTransfer`, `Machine.Run.failedTransfer`: the two ticks before an error that is
  charged to a job.
-/

namespace BatchMachine

open JobText

namespace Machine

variable {m m₀ m₁ m₂ m' : Machine} {j k n dev : Nat} {p : Progress}

/-! ## The parts of a tick -/

/-- The machine after the held requests of the first `n` jobs have been offered. -/
def offerFirst (m : Machine) (n : Nat) : Machine :=
  Nat.fold n (fun j _ m => m.offer j) m

/-- The machine when the turn of the processor comes: the tick of `m` has begun and all held
requests have been offered. -/
def ready (m : Machine) : Machine := m.openTick.offerHeld

/-- What the processor does in the tick of `m`. -/
def activity (m : Machine) : Activity := m.ready.tickProcessor.1

/-- The machine after the turn of the processor, when the devices are to tick. -/
def served (m : Machine) : Machine := m.ready.stepProcessor.2

/-- The machine after the ticks of the first `n` devices, in the order of their numbers. -/
def tickFirst (m : Machine) (n : Nat) : Machine :=
  Nat.fold n (fun i _ m => m.tickDevice (i + 1)) m

theorem tickFirst_succ (m : Machine) (n : Nat) :
    m.tickFirst (n + 1) = (m.tickFirst n).tickDevice (n + 1) :=
  Nat.fold_succ ..

/-- `tick` is the turn of the processor and, unless the machine exits, the ticks of all devices. -/
theorem tick_eq (m : Machine) :
    m.tick = match m.ready.stepProcessor.1 with
      | .exited status => (.exited status, m.served.closeTick)
      | .running => (.running, (m.served.tickFirst m.served.hardware.devices.size).closeTick) := by
  unfold tick served
  rw [show m.openTick.offerHeld = m.ready from rfl]
  rcases m.ready.stepProcessor with ⟨_ | status, m₁⟩ <;> rfl

theorem progress_of_tick (h : m.tick = (p, m')) : m.ready.stepProcessor.1 = p := by
  rw [tick_eq] at h
  cases hp : m.ready.stepProcessor.1 <;> rw [hp] at h <;> exact congrArg Prod.fst h

/-- If `m` goes on, all devices have ticked after the processor. -/
theorem eq_of_tick_running (h : m.tick = (.running, m')) :
    m' = (m.served.tickFirst m.served.hardware.devices.size).closeTick := by
  have hp := progress_of_tick h
  rw [tick_eq, hp] at h
  exact (congrArg Prod.snd h).symm

/-- After an exit with `status` no device ticks. -/
theorem eq_of_tick_exited {status : Word} (h : m.tick = (.exited status, m')) :
    m' = m.served.closeTick := by
  have hp := progress_of_tick h
  rw [tick_eq, hp] at h
  exact (congrArg Prod.snd h).symm

/-- `offer` does not reach the processor. -/
theorem cpu_offer (m : Machine) (j : Nat) : (m.offer j).hardware.cpu = m.hardware.cpu := by
  unfold offer
  split
  · rfl
  · split
    · rfl
    · split <;> rfl

theorem idle_offer (m : Machine) (j : Nat) : (m.offer j).idle = m.idle := by
  unfold offer
  split
  · rfl
  · split
    · rfl
    · split <;> rfl

theorem offerFirst_eq (m : Machine) (n : Nat) :
    (m.offerFirst n).hardware.cpu = m.hardware.cpu ∧ (m.offerFirst n).idle = m.idle := by
  -- job by job, in the order of the offers
  induction n with
  | zero => exact ⟨rfl, rfl⟩
  | succ n ih =>
    have hsucc : m.offerFirst (n + 1) = (m.offerFirst n).offer n := Nat.fold_succ ..
    rw [hsucc]
    exact ⟨(cpu_offer _ n).trans ih.1, (idle_offer _ n).trans ih.2⟩

/-- What the processor does in a tick of `m` depends on the processor, and on whether a job is
loaded. -/
theorem activity_eq (m : Machine) : m.activity = (m.hardware.cpu.tick (!m.idle)).1 := by
  obtain ⟨hcpu, hidle⟩ := m.openTick.offerFirst_eq m.openTick.jobs.size
  change (m.ready.hardware.cpu.tick (!m.ready.idle)).1 = _
  rw [show m.ready.hardware.cpu = m.hardware.cpu from hcpu,
    show m.ready.idle = m.idle from hidle]

/-- The processor of a sound machine `m` is interrupted if a trap is pending, and else it idles, is
at the end of its image, or executes an instruction. -/
theorem Sound.activity_cases (h : m.Sound) :
    (m.line.isIdle = false ∧ m.activity = .interrupted) ∨
      (m.line.isIdle = true ∧ m.idle = true ∧ m.activity = .idled) ∨
      (m.line.isIdle = true ∧ m.idle = false ∧ m.hardware.cpu.atEnd = true ∧
        m.activity = .ended) ∨
      (m.line.isIdle = true ∧ m.idle = false ∧ m.hardware.cpu.atEnd = false ∧
        m.activity = .stepped m.hardware.cpu.step.1) := by
  rw [activity_eq]
  unfold Processor.tick
  cases hline : m.line.isIdle with
  | false =>
    have htrap : m.hardware.cpu.trap.isIdle = false := hline
    simp [htrap]
  | true =>
    have htrap : m.hardware.cpu.trap.isIdle = true := hline
    cases hidle : m.idle with
    | true =>
      -- the program counter says that there is nothing to run
      have hregs : m.hardware.cpu.regs.isIdle = true := by
        rw [Registers.isIdle, (h.resting hidle).pc]
        rfl
      simp [htrap, hregs]
    | false => cases hend : m.hardware.cpu.atEnd <;> simp [htrap]

theorem Sound.activity_eq_stepped (h : m.Sound) (hline : m.line.isIdle = true)
    (hidle : m.idle = false) (hend : m.hardware.cpu.atEnd = false) :
    m.activity = .stepped m.hardware.cpu.step.1 := by
  rcases h.activity_cases with ⟨hbusy, _⟩ | ⟨_, hidle', _⟩ | ⟨_, _, hend', _⟩ | ⟨_, _, _, heq⟩
  · rw [hline] at hbusy
    exact absurd hbusy (by decide)
  · rw [hidle] at hidle'
    exact absurd hidle' (by decide)
  · rw [hend] at hend'
    exact absurd hend' (by decide)
  · exact heq

/-- `m.ready` comes from `m` by offering held requests. -/
theorem Sound.offers_ready (h : m.Sound) : m.Offers m.ready :=
  offers_openTick h.wired fun j hj => (h.job j hj).owns

/-- The parts of a tick of a sound machine `m`: what the turn of the processor starts from, and what
it comes to. -/
theorem Sound.turn (h : m.Sound) :
    ∃ m₀, m.Offers m₀ ∧ m₀.Sound ∧ m₀.Turn m.ready.stepProcessor.1 m.served := by
  have hoffers := h.offers_ready
  have hready := h.offers hoffers
  obtain ⟨m₀, hagrees, hturn⟩ := turn_stepProcessor hready.wired
    (fun j hj => (hready.charged.culprit j hj).1) fun hidle => (hready.resting hidle).pc
  exact ⟨m₀, hoffers.agrees hagrees, hready.agrees hagrees, hturn⟩

theorem Sound.served_wired (h : m.Sound) :
    m.served.Wired ∧ m.served.jobs.size = m.jobs.size := by
  obtain ⟨m₀, hoffers, hsound₀, hturn⟩ := h.turn
  have hturned := hturn.turned hsound₀
  exact ⟨hturned.wired, hturned.size.trans hoffers.size⟩

/-- `m.served` is sound, if the machine goes on. -/
theorem Sound.served_sound (h : m.Sound) (htick : m.tick = (.running, m')) : m.served.Sound := by
  obtain ⟨m₀, _, hsound₀, hturn⟩ := h.turn
  rw [progress_of_tick htick] at hturn
  exact (hturn.turned hsound₀).sound hsound₀

theorem Offers.completes {side : Side} (h : m.Offers m₀) :
    m₀.Completes j side ↔ m.Completes j side := by
  unfold Completes
  rw [h.line]

theorem Offers.misuses (h : m.Offers m₀) : m₀.Misuses ↔ m.Misuses := by
  unfold Misuses
  rw [h.line, h.cpu]

theorem running?_congr (h : m'.control = m.control) : m'.running? = m.running? := by
  unfold running?
  rw [show m'.idle = m.idle from congrArg Control.idle h,
    show m'.current = m.current from congrArg Control.current h]

theorem Offers.running? (h : m.Offers m₀) : m₀.running? = m.running? :=
  running?_congr h.control

theorem Offers.culprit? (h : m.Offers m₀) : m₀.culprit? = m.culprit? :=
  congrArg Control.culprit? h.control

/-! ## The transfers of the devices -/

/-- The transfer that the device with the number `dev` would make if it ticked now: its countdown is
at its end, and the processor's line is free. -/
def transfer? (m : Machine) (dev : Nat) : Option Device.Tick :=
  (m.hardware.device? dev).bind fun d =>
    if d.phase m.line.isIdle = .transfer then
      some (d.transfer (m.hardware.sourceOf? d) m.hardware.files)
    else none

/-- When its time to tick comes in the tick of a machine, a device of a job makes a transfer that
comes to `t`. -/
def Transfers (m : Machine) (side : Side) (j : Nat) (t : Device.Tick) : Prop :=
  (m.served.tickFirst (side.number j - 1)).transfer? (side.number j) = some t

/-- A device that makes the transfer `t` has counted down, and the processor's line is free. -/
theorem transfer?_eq_some {t : Device.Tick} (h : m.transfer? dev = some t) :
    ∃ d, m.hardware.device? dev = some d ∧ d.timer = 1 ∧ m.line.isIdle = true ∧
      t = d.transfer (m.hardware.sourceOf? d) m.hardware.files := by
  obtain ⟨d, hd, ht⟩ := Option.bind_eq_some_iff.1 h
  split at ht
  · rename_i hphase
    obtain ⟨hdue, hfree⟩ := Device.phase_eq_transfer_iff.1 hphase
    exact ⟨d, hd, (Device.isDue_iff.1 hdue).1, hfree, (Option.some.inj ht).symm⟩
  · simp at ht

/-- `tickDevice` leaves the processor's line as it is, unless the device makes its transfer. -/
theorem line_tickDevice (m : Machine) (dev : Nat) :
    (m.tickDevice dev).line = ((m.transfer? dev).map Device.Tick.line).getD m.line := by
  unfold tickDevice transfer?
  cases m.hardware.device? dev with
  | none => rfl
  | some d =>
    show (m.hardware.update dev _).cpu.trap = _
    rw [Hardware.cpu_update, Option.bind_some]
    show (d.tick m.line (m.hardware.sourceOf? d) m.hardware.files).line = _
    unfold Device.tick
    cases d.phase m.line.isIdle <;> rfl

/-- `tickDevice` does not touch a trap that is pending. -/
theorem line_tickDevice_of_busy (h : m.line.isIdle = false) (dev : Nat) :
    (m.tickDevice dev).line = m.line := by
  rw [line_tickDevice]
  cases htransfer : m.transfer? dev with
  | none => rfl
  | some t =>
    obtain ⟨_, _, _, hclear, _⟩ := transfer?_eq_some htransfer
    rw [h] at hclear
    exact absurd hclear (by decide)

theorem line_tickFirst_of_busy (h : m.line.isIdle = false) (n : Nat) :
    (m.tickFirst n).line = m.line := by
  -- the line is still busy when the next device ticks
  induction n with
  | zero => rfl
  | succ n ih =>
    rw [tickFirst_succ, line_tickDevice_of_busy (ih ▸ h), ih]

/-- What is on the processor's line after the first `n` devices have ticked was there before, or one
of these devices has put it there with its transfer. -/
theorem line_tickFirst (m : Machine) (n : Nat) :
    (m.tickFirst n).line = m.line ∨
      ∃ i < n, ∃ t, (m.tickFirst i).transfer? (i + 1) = some t ∧ (m.tickFirst n).line = t.line := by
  -- the last of the devices has the last word, unless it makes no transfer
  induction n with
  | zero => exact .inl rfl
  | succ n ih =>
    rw [tickFirst_succ, line_tickDevice]
    cases htransfer : (m.tickFirst n).transfer? (n + 1) with
    | some t => exact .inr ⟨n, Nat.lt_succ_self n, t, htransfer, rfl⟩
    | none =>
      rcases ih with hsame | ⟨i, hi, t, ht, hline⟩
      · exact .inl hsame
      · exact .inr ⟨i, Nat.lt_succ_of_lt hi, t, ht, hline⟩

/-- `tickDevice` changes no job, and nothing that the scheduler remembers. -/
theorem Wired.tickDevice (w : m.Wired) (dev : Nat) :
    (m.tickDevice dev).Wired ∧ (m.tickDevice dev).control = m.control ∧
      ∀ k, ((m.tickDevice dev).view k).job = (m.view k).job := by
  cases hdevice : m.hardware.device? dev with
  | none =>
    have hsame : m.tickDevice dev = m := by simp [Machine.tickDevice, hdevice]
    rw [hsame]
    exact ⟨w, rfl, fun _ => rfl⟩
  | some d =>
    obtain ⟨j, hj, side, rfl, _⟩ := w.exists_device hdevice
    cases side with
    | input =>
      have hticks := tickDevice_inputNumber w hj
      exact ⟨hticks.wired, hticks.control, hticks.job⟩
    | output =>
      have hticks := tickDevice_outputNumber w hj
      exact ⟨hticks.wired, hticks.control, hticks.job⟩

theorem Wired.tickFirst (w : m.Wired) (n : Nat) :
    (m.tickFirst n).Wired ∧ (m.tickFirst n).control = m.control ∧
      ∀ k, ((m.tickFirst n).view k).job = (m.view k).job := by
  induction n with
  | zero => exact ⟨w, rfl, fun _ => rfl⟩
  | succ n ih =>
    obtain ⟨hwired, hcontrol, hjob⟩ := ih
    obtain ⟨hwired', hcontrol', hjob'⟩ := hwired.tickDevice (n + 1)
    rw [tickFirst_succ]
    exact ⟨hwired', hcontrol'.trans hcontrol, fun k => (hjob' k).trans (hjob k)⟩

/-- What the transfer `t` signals names the device of job `j`, and tells whether the transfer has
failed. -/
theorem Transfers.line_eq {side : Side} {t : Device.Tick} (h : m.Transfers side j t)
    (hsound : m.Sound) (hj : j < m.jobs.size) :
    t.line = ⟨side.completion.code, .ofCount (side.number j),
      if t.error?.isNone then 0 else 1⟩ := by
  obtain ⟨w, hsize⟩ := hsound.served_wired
  obtain ⟨hwired, hcontrol, _⟩ := w.tickFirst (side.number j - 1)
  have hj' : j < (m.served.tickFirst (side.number j - 1)).jobs.size :=
    hj.trans_eq (hsize.symm.trans (congrArg Control.size hcontrol).symm)
  obtain ⟨d, hd, _, _, rfl⟩ := transfer?_eq_some h
  rw [device?_number hwired hj', Option.some.injEq] at hd
  subst hd
  -- a device does not change sides or its number
  have hof := hwired.isOf hj' side
  generalize (View.device _ side) = d at hof ⊢
  rw [Device.line_transfer, Device.signal, hof.completion, hof.number]

/-- What the transfer `t` signals is a completion. -/
theorem Transfers.trap?_eq {side : Side} {t : Device.Tick} (h : m.Transfers side j t)
    (hsound : m.Sound) (hj : j < m.jobs.size) : t.line.trap? = some side.completion := by
  rw [h.line_eq hsound hj]
  exact Trap.ofCode?_code _

/-! ## Jobs in a tick -/

/-- Offering a held request changes no more of job `k` than the request itself. -/
theorem Offers.job (h : m.Offers m₀) (hk : k < m.jobs.size) :
    ∃ pending?, (m₀.view k).job = { (m.view k).job with pending? } := by
  obtain ⟨pending?, hjob⟩ := View.job_offered (m.view k) k
  exact ⟨pending?, by rw [h.view k hk, hjob]⟩

/-- The scheduler knows the same of job `k` in `m` and `m'`, and its registers hold the same words,
wherever they are kept. -/
structure Unmoved (k : Nat) (m m' : Machine) : Prop where
  life : (m'.job k).life = (m.job k).life
  boot : (m'.job k).boot = (m.job k).boot
  segments : (m'.job k).segments = (m.job k).segments
  outcome : (m'.job k).outcome? = (m.job k).outcome?
  registers : m'.regsOf k = m.regsOf k

theorem unmoved_of_job {pending? : Option DeviceRequest}
    (h : (m'.view k).job = { (m.view k).job with pending? }) : m.Unmoved k m' where
  life := by rw [← view_life, h, view_life]
  boot := by rw [← view_boot, h, view_boot]
  segments := by rw [← view_segments, h, view_segments]
  outcome := by rw [← view_outcome?, h, view_outcome?]
  registers := by rw [← view_registers, h, view_registers]

theorem Offers.unmoved (h : m.Offers m₀) (hk : k < m.jobs.size) : m.Unmoved k m₀ := by
  obtain ⟨pending?, hjob⟩ := h.job hk
  exact unmoved_of_job hjob

/-- After the turn of the processor nothing changes job `k` any more in a tick. -/
theorem Sound.job_of_tick (h : m.Sound) (htick : m.tick = (p, m')) (k : Nat) :
    (m'.view k).job = (m.served.view k).job := by
  cases p with
  | exited status => rw [eq_of_tick_exited htick, agrees_closeTick.view]
  | running =>
    rw [eq_of_tick_running htick, agrees_closeTick.view]
    exact (h.served_wired.1.tickFirst _).2.2 k

theorem Sound.unmoved_of_tick (h : m.Sound) (htick : m.tick = (p, m')) (k : Nat) :
    m.served.Unmoved k m' :=
  unmoved_of_job (h.job_of_tick htick k)

/-- After the turn of the processor nothing changes what the scheduler remembers. -/
theorem Sound.control_of_tick (h : m.Sound) (htick : m.tick = (p, m')) :
    m'.control = m.served.control := by
  cases p with
  | exited status => rw [eq_of_tick_exited htick, agrees_closeTick.control]
  | running =>
    rw [eq_of_tick_running htick, agrees_closeTick.control]
    exact (h.served_wired.1.tickFirst _).2.1

/-- So what `tick` does to a job is a move of the job. -/
theorem Sound.move_of_tick (h : m.Sound) :
    ∃ m₀, m.Offers m₀ ∧ m₀.Sound ∧ ∀ k < m.jobs.size, m₀.Move m.served k := by
  obtain ⟨m₀, hoffers, hsound₀, hturn⟩ := h.turn
  have hturned := hturn.turned hsound₀
  exact ⟨m₀, hoffers, hsound₀, fun k hk => hturned.move k (hoffers.size.symm ▸ hk)⟩

/-! ## What is on the line -/

/-- When a segment of job `k` is at its end nothing is on the line, or a halt, or an error. -/
theorem Closes.line {o : Outcome} (h : m.Closes k o) :
    (m.line.isIdle = true ∧ m.hardware.cpu.atEnd = true) ∨ m.line.trap? = some .halt ∨
      m.line.trap? = some .fatal := by
  rcases h with ⟨_, _, ⟨hline, _, hend, _⟩ | ⟨htrap, _⟩⟩ | ⟨htrap, _⟩
  · exact .inl ⟨hline, hend⟩
  · exact .inr (.inl htrap)
  · exact .inr (.inr htrap)

/-- The turn in which a segment of job `k` ends is about this job. -/
theorem Closes.subject? {o : Outcome} (hcloses : m.Closes k o) (h : m.Sound) :
    m.subject? = some k := by
  rcases hcloses with ⟨hrun, status, hstops⟩ | ⟨htrap, hculprit, _⟩
  · rw [(h.runs_of_stops hstops).2.2, (runs_eq_true_iff.1 hrun).2]
  · rw [subject?_of_fatal htrap, hculprit]

/-- Segments of two jobs `j` and `k` do not end in the same turn. -/
theorem Closes.eq {o o' : Outcome} (hcloses : m.Closes j o) (h : m.Sound)
    (hcloses' : m.Closes k o') : k = j := by
  have hsubject := hcloses.subject? h
  rw [hcloses'.subject? h] at hsubject
  exact Option.some.inj hsubject

/-- A turn that executes an instruction ends no segment of job `k`. -/
theorem not_closes_of_isIdle {o : Outcome} (hline : m.line.isIdle = true)
    (hend : m.hardware.cpu.atEnd = false) : ¬ m.Closes k o := by
  intro hcloses
  rcases hcloses.line with ⟨_, hend'⟩ | htrap | htrap
  · rw [hend] at hend'
    exact absurd hend' (by decide)
  all_goals exact absurd hline (TrapLine.not_isIdle htrap)

/-- What is on the line ends no segment of job `k` unless it is a halt or an error. -/
theorem not_closes_of_busy {o : Outcome} (hbusy : m.line.isIdle = false)
    (hhalt : m.line.trap? ≠ some .halt) (hfatal : m.line.trap? ≠ some .fatal) :
    ¬ m.Closes k o := by
  intro hcloses
  rcases hcloses.line with ⟨hclear, _⟩ | htrap | htrap
  · rw [hbusy] at hclear
    exact absurd hclear (by decide)
  · exact hhalt htrap
  · exact hfatal htrap

/-- A `trap` other than a halt and an error ends no segment of job `k`. -/
theorem not_closes_of_trap? {trap : Trap} {o : Outcome} (htrap : m.line.trap? = some trap)
    (hhalt : trap ≠ .halt) (hfatal : trap ≠ .fatal) : ¬ m.Closes k o := by
  apply not_closes_of_busy (TrapLine.isIdle_eq_false htrap)
  all_goals
    rw [htrap, Ne, Option.some.injEq]
    assumption

/-- A trap that becomes an error ends no segment of job `k`. -/
theorem Misuses.not_closes {o : Outcome} (h : m.Misuses) : ¬ m.Closes k o := by
  obtain ⟨hbusy, hnone | ⟨side, hside, _⟩⟩ := h
  · apply not_closes_of_busy hbusy <;> simp [hnone]
  · exact not_closes_of_trap? hside side.request_ne_halt side.request_ne_fatal

/-- A completion ends no segment of job `k`. -/
theorem Completes.not_closes {side : Side} {o : Outcome} (h : m.Completes j side) :
    ¬ m.Closes k o := by
  obtain ⟨side', hside⟩ := h.1
  exact not_closes_of_trap? hside side'.completion_ne_halt side'.completion_ne_fatal

/-- A completion for job `j` is not misused. -/
theorem Completes.not_misuses {side : Side} (h : m.Completes j side) : ¬ m.Misuses := by
  obtain ⟨side', htrap⟩ := h.1
  exact Machine.not_misuses htrap fun side => (side.request_ne_completion side').symm

/-- A turn that serves a completion for job `j` does one of two things: if the transfer has failed
it leaves an error on the line, which is charged to the job, and else the job gets what has been
transferred. -/
theorem Completes.move_cases {side : Side} (h : m.Sound) (hj : j < m.jobs.size)
    (hcompletes : m.Completes j side) (hmove : m.Move m' j) :
    (m.line.status ≠ 0 ∧ m'.line = .raise .fatal m.line.data ∧ m'.culprit? = some j) ∨
      (m.line.status = 0 ∧ m'.view j = (m.view j).collected side) := by
  -- no other move goes with what is on the line
  cases hmove with
  | fails _ hstatus hline hculprit => exact .inl ⟨hstatus, hline, hculprit⟩
  | collects hcompletes' hstatus hview =>
    have hnumber := hcompletes.2.symm.trans hcompletes'.2
    rw [Option.some.injEq, Side.number_inj] at hnumber
    exact .inr ⟨hstatus, hnumber.1 ▸ hview⟩
  | shifts hsubject => exact absurd (hcompletes.subject? h.wired hj) hsubject
  | rejects _ hmisuses => exact absurd hmisuses hcompletes.not_misuses
  | reloads hcloses | retires hcloses => exact absurd hcloses hcompletes.not_closes
  | steps hline =>
    obtain ⟨side', htrap⟩ := hcompletes.1
    exact absurd hline (TrapLine.not_isIdle htrap)
  | @asks side₁ _ _ htrap =>
    obtain ⟨side', htrap'⟩ := hcompletes.1
    simp [htrap] at htrap'

/-! ## Where a trap comes from -/

/-- What puts the trap on the line of `m'` in a tick of `m`. -/
inductive Origin (m m' : Machine) : Prop
  /-- The running job `c` executes a trap instruction. -/
  | traps {c : Nat} {i : Instruction} : m.running? = some c → m.activity = .stepped (.ok i) →
      i.opcode = .trap → m'.line = ⟨i.first, i.second, 0⟩ → m'.running? = some c →
      m'.culprit? = none → Origin m m'
  /-- An instruction of the running job `c` fails. -/
  | faults {c : Nat} {fault : Fault} : m.running? = some c →
      m.activity = .stepped (.error fault) → m'.line = .raise .fatal 0 → m'.running? = some c →
      m'.culprit? = none → Origin m m'
  /-- The trap of the running job `c` is not one that it may raise like this, which makes it an
  error. -/
  | rejects {c : Nat} : m.running? = some c → m.Misuses → m'.line = .raise .fatal 0 →
      m'.running? = some c → m'.culprit? = none → Origin m m'
  /-- A device of job `j` has signalled that its transfer failed, which becomes an error of this
  job. -/
  | fails {side : Side} {j : Nat} : j < m.jobs.size → m.Completes j side → m.line.status ≠ 0 →
      m'.line = .raise .fatal m.line.data → m'.culprit? = some j → Origin m m'
  /-- A device of job `j` makes its transfer `t` and signals it. -/
  | signals {side : Side} {j : Nat} {t : Device.Tick} : j < m.jobs.size → m.Transfers side j t →
      m'.line = t.line → m'.culprit? = none → Origin m m'

/-- What an instruction puts on the line is its trap or its fault, and has this as its `Origin`. -/
theorem Origin.of_step (h : m.Sound) (hline : m.line.isIdle = true) (hidle : m.idle = false)
    (hend : m.hardware.cpu.atEnd = false) (hcpu : m'.line = m.hardware.cpu.step.2.trap)
    (hrunning : m'.running? = m.running?) (hculprit : m'.culprit? = none)
    (hbusy : m'.line.isIdle = false) : m.Origin m' := by
  have hcurrent : m.running? = some m.current := by simp [running?, hidle]
  have hactivity := h.activity_eq_stepped hline hidle hend
  rcases Processor.trap_step m.hardware.cpu with
    hsame | ⟨i, _, hopcode, hstep, htrap⟩ | ⟨⟨fault, hstep⟩, htrap⟩
  · -- the line was free, and would still be
    rw [hcpu, hsame] at hbusy
    exact absurd (hline.symm.trans hbusy) (by decide)
  · exact .traps hcurrent (hactivity.trans (congrArg Activity.stepped hstep)) hopcode
      (hcpu.trans htrap) (hrunning.trans hcurrent) hculprit
  · exact .faults hcurrent (hactivity.trans (congrArg Activity.stepped hstep)) (hcpu.trans htrap)
      (hrunning.trans hcurrent) hculprit

/-- If a tick of a sound machine `m` leaves a trap on the line, it has put it there in one of these
ways. -/
theorem Sound.origin (h : m.Sound) (htick : m.tick = (.running, m'))
    (hbusy : m'.line.isIdle = false) : m.Origin m' := by
  obtain ⟨m₀, hoffers, hsound₀, hturn⟩ := h.turn
  have hturned := hturn.turned hsound₀
  have hserved := h.served_sound htick
  have hcontrol' := h.control_of_tick htick
  generalize hn : m.served.hardware.devices.size = n
  have hline' : m'.line = (m.served.tickFirst n).line := by
    rw [eq_of_tick_running htick, hn, agrees_closeTick.line]
  have hculprit' : m'.culprit? = m.served.culprit? := congrArg Control.culprit? hcontrol'
  rcases line_tickFirst m.served n with hsame | ⟨i, hi, t, ht, hline⟩
  · -- the trap stood on the line already when the devices began to tick
    rw [hsame] at hline'
    cases hturned.lines with
    -- the line would be free
    | calm hidle =>
      rw [← hline', hbusy] at hidle
      exact absurd hidle (by decide)
    | steps hline hidle hend hcpu hctrl =>
      have hculprit₀ := hsound₀.culprit_of_isIdle hline
      rw [hoffers.line] at hline
      rw [show m₀.idle = m.idle from congrArg Control.idle hoffers.control] at hidle
      rw [hoffers.cpu] at hend hcpu
      exact .of_step h hline hidle hend (hline'.trans (congrArg Processor.trap hcpu))
        ((running?_congr (hcontrol'.trans hctrl)).trans hoffers.running?)
        ((hculprit'.trans (congrArg Control.culprit? hctrl)).trans hculprit₀) hbusy
    | rejects hmisuses hline hctrl =>
      obtain ⟨hrun, _⟩ := hmisuses.subject? hsound₀
      have hrunning := running?_eq_some_iff.2 hrun
      have hculprit₀ := hsound₀.culprit_eq_none hmisuses.trap?_ne.1
      exact .rejects (hoffers.running?.symm.trans hrunning) (hoffers.misuses.1 hmisuses)
        (hline'.trans hline) ((running?_congr (hcontrol'.trans hctrl)).trans hrunning)
        ((hculprit'.trans (congrArg Control.culprit? hctrl)).trans hculprit₀)
    | fails hj hcompletes hstatus hline hctrl =>
      rw [hoffers.line] at hstatus hline
      exact .fails (hoffers.size ▸ hj) (hoffers.completes.1 hcompletes) hstatus
        (hline'.trans hline) (hculprit'.trans (congrArg Control.culprit? hctrl))
  · -- a device has found the line free, so that no error is charged to anyone
    obtain ⟨hwired, hcontrolᵢ, _⟩ := hserved.wired.tickFirst i
    obtain ⟨d, hd, _, hclear, _⟩ := transfer?_eq_some ht
    obtain ⟨j, hj, side, hnumber, _⟩ := hwired.exists_device hd
    have hj' : j < m.jobs.size := by
      rw [show (m.served.tickFirst i).jobs.size = m.served.jobs.size from
        congrArg Control.size hcontrolᵢ, hturned.size, hoffers.size] at hj
      exact hj
    have hfree : m.served.line.isIdle = true := by
      -- else the devices before would have left it busy
      by_contra hheld
      rw [Bool.not_eq_true] at hheld
      rw [line_tickFirst_of_busy hheld, hheld] at hclear
      exact absurd hclear (by decide)
    have hcalm := hserved.culprit_of_isIdle hfree
    have hmade : m.Transfers side j t := by
      unfold Transfers
      rw [← hnumber]
      exact ht
    exact .signals hj' hmade (hline'.trans hline) (hculprit'.trans hcalm)

section Launch

variable {jobs : List (Job × Option Reader)} {config : Config} {files : Files} {journal : Journal}
  {first : Machine}

/-- In a run every trap on the processor's line has been put there by the tick before, that of
`m₁`. -/
theorem Run.origin (hlaunch : Launches jobs config files journal first) {past : List Machine}
    (hrun : Run first .running past m) (hbusy : m.line.isIdle = false) :
    ∃ m₁ past', past = m₁ :: past' ∧ Run first .running past' m₁ ∧ m₁.Sound ∧ m₁.Origin m := by
  cases hrun with
  | start =>
    -- a start leaves nothing on the line
    rw [hlaunch.hands.settles.line] at hbusy
    exact absurd hbusy (by decide)
  | @tick past' m₁ _ _ hrun htick =>
    have hsound := (hrun.sound hlaunch.sound).2 rfl
    exact ⟨m₁, past', rfl, hrun, hsound, hsound.origin htick hbusy⟩

/-- In the tick of `m₁` a device has made a transfer that came to `t`, and its signal is on the
line of `m`, where it is taken for one of job `j`. The device is one of job `j` indeed, unless its
number is beyond the range of words. -/
def Signalled (m₁ m : Machine) (j : Nat) (t : Device.Tick) : Prop :=
  ∃ i < m₁.jobs.size, ∃ side : Side, m₁.Transfers side i t ∧ m.line = t.line ∧
    (side.number i < 2 ^ 31 → i = j)

/-- In the tick of `m₁` job `c`, which ran, has executed a trap instruction, and its trap is on the
line of `m`. -/
def Raised (m₁ m : Machine) (c : Nat) (i : Instruction) : Prop :=
  m₁.running? = some c ∧ m₁.activity = .stepped (.ok i) ∧ i.opcode = .trap ∧
    m.line = ⟨i.first, i.second, 0⟩ ∧ m.running? = some c

/-- What is neither an error nor a completion has been put on the line by a trap instruction `i` of
the job `c` that runs. -/
theorem Run.raised (hlaunch : Launches jobs config files journal first) {past : List Machine}
    (hrun : Run first .running past m) (hbusy : m.line.isIdle = false)
    (hfatal : m.line.trap? ≠ some .fatal)
    (hcompletion : ∀ side : Side, m.line.trap? ≠ some side.completion) :
    ∃ m₁ past' c i, past = m₁ :: past' ∧ m₁.Raised m c i := by
  obtain ⟨m₁, past', hpast, _, hsound₁, horigin⟩ := hrun.origin hlaunch hbusy
  cases horigin with
  | traps hrunning hactivity hopcode hline hrunning' =>
    exact ⟨m₁, past', _, _, hpast, hrunning, hactivity, hopcode, hline, hrunning'⟩
  | faults _ _ hline | rejects _ _ hline | fails _ _ _ hline =>
    rw [hline, TrapLine.trap?_raise] at hfatal
    exact absurd rfl hfatal
  | @signals side i t hi htransfers hline =>
    rw [hline, htransfers.trap?_eq hsound₁ hi] at hcompletion
    exact absurd rfl (hcompletion side)

/-- A completion for job `j` has been signalled by a device, or raised by a program. -/
theorem Run.completion (hlaunch : Launches jobs config files journal first)
    {past : List Machine} (hrun : Run first .running past m) {side : Side}
    (hcompletes : m.Completes j side) :
    ∃ m₁ past', past = m₁ :: past' ∧ Run first .running past' m₁ ∧
      ((∃ t, m₁.Signalled m j t ∧ (t.error?.isNone = true ↔ m.line.status = 0)) ∨
        ∃ c i, m₁.Raised m c i) := by
  obtain ⟨⟨side', htrap⟩, hdata⟩ := hcompletes
  obtain ⟨m₁, past', hpast, hrun₁, hsound₁, horigin⟩ :=
    hrun.origin hlaunch (TrapLine.isIdle_eq_false htrap)
  refine ⟨m₁, past', hpast, hrun₁, ?_⟩
  -- what is not signalled or raised is an error
  have hfatal : ∀ data, m.line ≠ .raise .fatal data := by
    intro data hline
    rw [hline, TrapLine.trap?_raise, Option.some.injEq] at htrap
    exact side'.completion_ne_fatal htrap.symm
  cases horigin with
  | traps hrunning hactivity hopcode hline hrunning' =>
    exact .inr ⟨_, _, hrunning, hactivity, hopcode, hline, hrunning'⟩
  | faults _ _ hline => exact absurd hline (hfatal _)
  | rejects _ _ hline => exact absurd hline (hfatal _)
  | fails _ _ _ hline => exact absurd hline (hfatal _)
  | @signals sideᵢ i t hi htransfers hline =>
    have hsignal := htransfers.line_eq hsound₁ hi
    refine .inl ⟨t, ⟨i, hi, sideᵢ, htransfers, hline, fun hfits => ?_⟩, ?_⟩
    · -- the word that names the device is read back as its number
      rw [hline, hsignal, Word.index?_ofCount hfits, Option.some.injEq] at hdata
      exact (Side.number_inj.1 hdata).2
    · rw [hline, hsignal]
      by_cases hnone : t.error?.isNone = true <;> simp [hnone]

/-- In the tick of `m₂` a device of job `j` has signalled that its transfer failed, and in the tick
of `m₁` this has been served and has become the error on the line of `m`, which is charged to the
job. -/
structure FailedTransfer (m₂ m₁ m : Machine) (j : Nat) : Prop where
  /-- The transfer has failed, and the device has said so. -/
  signalled : ∃ t, m₂.Signalled m₁ j t ∧ t.error?.isSome = true
  /-- The error has taken the place of the signal. -/
  replaced : m.line = .raise .fatal m₁.line.data
  /-- It is charged to the job. -/
  charged : m.culprit? = some j

/-- An error that is charged to job `j` comes from a failed transfer of this job. -/
theorem Run.failedTransfer (hlaunch : Launches jobs config files journal first)
    {past : List Machine} (hrun : Run first .running past m) (hculprit : m.culprit? = some j) :
    j < m.jobs.size ∧ ∃ m₁ m₂ past', past = m₁ :: m₂ :: past' ∧ m₂.FailedTransfer m₁ m j := by
  have hsound := (hrun.sound hlaunch.sound).2 rfl
  obtain ⟨hj, _, htrap⟩ := hsound.charged.culprit j hculprit
  refine ⟨hj, ?_⟩
  obtain ⟨m₁, past₁, rfl, hrun₁, _, horigin⟩ :=
    hrun.origin hlaunch (TrapLine.isIdle_eq_false htrap)
  cases horigin with
  -- in these ways an error comes on the line that no job is remembered for
  | traps _ _ _ _ _ hnone | faults _ _ _ _ hnone | rejects _ _ _ _ hnone | signals _ _ _ hnone =>
    rw [hculprit] at hnone
    simp at hnone
  | @fails side i _ hcompletes hstatus hline hcharged =>
    obtain rfl : i = j := by
      rw [hculprit, Option.some.injEq] at hcharged
      exact hcharged.symm
    obtain ⟨m₂, past₂, rfl, _, ⟨t, hsignalled, hok⟩ | ⟨c, instr, _, _, _, hraised, _⟩⟩ :=
      hrun₁.completion hlaunch hcompletes
    · refine ⟨m₁, m₂, past₂, rfl, ⟨t, hsignalled, ?_⟩, hline, hculprit⟩
      rw [Ne, ← hok] at hstatus
      cases herror : t.error? with
      | none => simp [herror] at hstatus
      | some e => rfl
    · -- a program cannot raise a failure
      rw [hraised] at hstatus
      exact absurd rfl hstatus

end Launch

end Machine

end BatchMachine
