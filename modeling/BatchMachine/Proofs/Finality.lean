import BatchMachine.Proofs.Awakenings
import BatchMachine.Proofs.Charges
import BatchMachine.Proofs.Persistence
import BatchMachine.Proofs.Transfers

/-!
# Outcomes are final unless completions are forged

When an error is served it becomes the outcome of the job that it is charged to, whether this job is
over or not. Devices alone do not let that happen. As long as they have something to do for a job,
the job waits, so that the failure of a transfer finds the job still there. But a job that is woken
by a completion that another program has raised can come to its end while its device still counts
down, and if the transfer fails then, the error replaces the outcome of the job.

* `Machine.Forges`: a program raises the completion of a device of a job that waits.
* `View.Tidy`, `Machine.Tidy`: nothing is under way for a job that the job does not wait for.
* `Machine.Turned.tidy`, `Machine.Tidy.ticked`, `Machine.Run.tidy`: so it stays as long as nobody
  forges.
* `Machine.outcome_final`: what happens to the outcome of a job that is over.
* `Machine.forged_completion_changes_outcome`: a job that has halted with status zero and has
  another outcome six ticks later.
-/

namespace BatchMachine

open JobText

/-- When `d` has made its transfer it has nothing left to do. -/
theorem Device.isIdle_transfer {d : Device} (h : d.trap.isIdle = true)
    (source? : Option Reader) (files : Files) :
    (d.transfer source? files).device.isIdle = true := by
  rw [isIdle, isIdle_trap_transfer, h, (d.device_transfer source? files).1]
  rfl

namespace View

variable {v : View} {j : Nat}

/-- At most one device of the job that `v` shows has something to do, and then the job waits. No
request is held back. -/
structure Tidy (v : View) : Prop where
  held : v.job.pending? = none
  waits : ¬ v.Quiet → v.job.life = .waiting
  single : ∀ side, (v.device side).isIdle = false → ∀ side', side' ≠ side →
    (v.device side').isIdle = true

theorem Tidy.quiet (h : v.Tidy) (hlife : v.job.life ≠ .waiting) : v.Quiet := by
  by_contra hbusy
  exact hlife (h.waits hbusy)

theorem not_quiet {side : Side} (h : (v.device side).isIdle = false) : ¬ v.Quiet := by
  intro hquiet
  rw [hquiet side] at h
  exact absurd h (by decide)

theorem quiet_started (h : v.Quiet) (reader : Reader) (image : List Instruction) (s : Sink) :
    (v.started j reader image s).Quiet := by
  intro side
  have hquiet := quiet_entered (j := j) h reader image s side
  cases side <;> exact hquiet

/-- If the devices of `v` have nothing to do, `v` is tidy. -/
theorem tidy_of_quiet (hheld : v.job.pending? = none) (hquiet : v.Quiet) : v.Tidy :=
  ⟨hheld, absurd hquiet, fun _ _ side' _ => hquiet side'⟩

/-- The request of job `j` to the device on the side `side`, which has nothing to do, reaches it,
and no other device. -/
theorem asks_of_quiet (h : v.Quiet) (j : Nat) (side : Side) (register value : Word) :
    (v.asks j side register value).job.pending? = none ∧
      (v.asks j side register value).job.life = .waiting ∧
      ∀ side', side' ≠ side → (v.asks j side register value).device side' = v.device side' := by
  have hin : v.input.isIdle = true := h .input
  have hout : v.output.isIdle = true := h .output
  have hne : outputNumber j ≠ inputNumber j := by simp [outputNumber, inputNumber]
  cases side with
  | input =>
    simp only [asks, asking, offered, device, hin, if_true, withDevice]
    exact ⟨trivial, trivial, fun side' hside => by cases side' <;> simp_all⟩
  | output =>
    simp only [asks, asking, offered, device, hne, if_false, hout, if_true, withDevice]
    exact ⟨trivial, trivial, fun side' hside => by cases side' <;> simp_all⟩

/-- If job `j` asks for a transfer while its devices have nothing to do, it is tidy. -/
theorem Tidy.asks (h : v.Quiet) (j : Nat) (side : Side) (register value : Word) :
    (v.asks j side register value).Tidy := by
  obtain ⟨hheld, hlife, hother⟩ := asks_of_quiet h j side register value
  refine ⟨hheld, fun _ => hlife, fun side₁ hbusy side₂ hne => ?_⟩
  have hsame : side₁ = side := by
    by_contra hdifferent
    rw [hother side₁ hdifferent, h side₁] at hbusy
    exact absurd hbusy (by decide)
  rw [hother side₂ (hsame ▸ hne)]
  exact h side₂

/-- Nothing is offered to a device of job `j` if no request is held back. -/
theorem Tidy.offered (h : v.Tidy) (j : Nat) : v.offered j = v := by
  unfold View.offered
  rw [h.held]

end View

namespace Machine

variable {m m₀ m₁ m' : Machine} {j k : Nat} {p : Progress}

/-! ## Forged completions -/

/-- The job whose device is named by the completion that a program raises in the next tick of
`m`. -/
def forged? (m : Machine) : Option Nat :=
  match m.activity with
  | .stepped (.ok i) => if i.isLawful then none else (Word.index? i.second).bind ownerOf?
  | _ => none

/-- In the next tick of `m` a program raises the completion of a device of job `j`, which waits. -/
def Forges (m : Machine) (j : Nat) : Prop :=
  m.forged? = some j ∧ (m.job j).life = .waiting

instance (m : Machine) (j : Nat) : Decidable (m.Forges j) :=
  inferInstanceAs (Decidable (_ ∧ _))

theorem Offers.forges (h : m.Offers m₀) (hj : j < m.jobs.size) : m₀.Forges j ↔ m.Forges j := by
  have hidle : m₀.idle = m.idle := congrArg Control.idle h.control
  have hforged : m₀.forged? = m.forged? := by
    simp only [forged?, activity_eq, h.cpu, hidle]
  unfold Forges
  rw [hforged, (h.unmoved hj).life]

/-- An instruction that puts a completion for job `j` on the line is a trap instruction that raises
it. -/
theorem forged?_of_step (h : m.Sound) (hline : m.line.isIdle = true) (hidle : m.idle = false)
    (hend : m.hardware.cpu.atEnd = false) (hcpu : m'.hardware.cpu = m.hardware.cpu.step.2)
    {side : Side} (hcompletes : m'.Completes j side) :
    m.forged? = some j ∧ m'.line.status = 0 := by
  obtain ⟨⟨side', htrap⟩, hdata⟩ := hcompletes
  have hline' : m'.line = m.hardware.cpu.step.2.trap := congrArg Processor.trap hcpu
  rcases Processor.trap_step m.hardware.cpu with
    hsame | ⟨i, _, hopcode, hstep, hraised⟩ | ⟨_, hraised⟩
  · rw [hline', hsame] at htrap
    exact absurd hline (TrapLine.not_isIdle htrap)
  · rw [hraised] at hline'
    rw [hline'] at htrap hdata
    have hnumber : i.first = side'.completion.code := TrapLine.number_eq htrap
    have hlawful : i.isLawful = false := by
      rw [Bool.eq_false_iff]
      exact fun hlawful => Instruction.ne_completion hlawful hopcode side' hnumber
    refine ⟨?_, by rw [hline']⟩
    have hactivity := h.activity_eq_stepped hline hidle hend
    rw [hstep] at hactivity
    simp only [forged?, hactivity, hlawful, hdata, Bool.false_eq_true, if_false, Option.bind_some]
    exact side.ownerOf?_number j
  · rw [hline', hraised, TrapLine.trap?_raise, Option.some.injEq] at htrap
    exact absurd htrap.symm side'.completion_ne_fatal

/-! ## What a turn leaves on the line for a job -/

/-- An error is charged to job `j` only for a failure that has been signalled. -/
theorem Lines.charged (h : m.Sound) (hlines : m.Lines m') (hculprit : m'.culprit? = some j) :
    ∃ side, m.Completes j side ∧ m.line.status ≠ 0 := by
  cases hlines with
  | calm _ hnone =>
    rw [hnone] at hculprit
    simp at hculprit
  | steps hline _ _ _ hcontrol =>
    rw [show m'.culprit? = m.culprit? from congrArg Control.culprit? hcontrol,
      h.culprit_of_isIdle hline] at hculprit
    simp at hculprit
  | rejects hmisuses _ hcontrol =>
    rw [show m'.culprit? = m.culprit? from congrArg Control.culprit? hcontrol,
      h.culprit_eq_none hmisuses.trap?_ne.1] at hculprit
    simp at hculprit
  | fails _ hcompletes hstatus _ hcontrol =>
    rw [show m'.culprit? = some _ from congrArg Control.culprit? hcontrol] at hculprit
    exact ⟨_, Option.some.inj hculprit ▸ hcompletes, hstatus⟩

/-- A turn leaves a completion for job `j` on the line only if a program raises it. -/
theorem Lines.completes (h : m.Sound) (hlines : m.Lines m') {side : Side}
    (hcompletes : m'.Completes j side) :
    m.line.isIdle = true ∧ m.forged? = some j ∧ m'.line.status = 0 := by
  cases hlines with
  | calm hline =>
    obtain ⟨side', htrap⟩ := hcompletes.1
    exact absurd hline (TrapLine.not_isIdle htrap)
  | steps hline hidle hend hcpu => exact ⟨hline, forged?_of_step h hline hidle hend hcpu hcompletes⟩
  | rejects _ hline | fails _ _ _ hline =>
    have hfatal := hcompletes.trap?_ne_fatal
    rw [hline, TrapLine.trap?_raise] at hfatal
    exact absurd rfl hfatal

/-! ## What is under way for a job -/

/-- Job `j` waits for all that is under way for it: for what its devices have to do, for a failure
that has been signalled, and for an error that is charged to it. While a device has something to do,
nothing else is under way. -/
structure Tidy (m : Machine) (j : Nat) : Prop extends (m.view j).Tidy where
  alone : ¬ (m.view j).Quiet → m.culprit? ≠ some j ∧ ∀ side, ¬ m.Completes j side
  failed : ∀ side, m.Completes j side → m.line.status ≠ 0 → (m.job j).life = .waiting
  charged : m.culprit? = some j → (m.job j).life = .waiting

namespace Tidy

/-- Nothing is under way for job `j` when the line is free and its devices have nothing to do. -/
theorem of_quiet (hheld : (m.view j).job.pending? = none) (hquiet : (m.view j).Quiet)
    (hline : m.line.isIdle = true) (hculprit : m.culprit? = none) : m.Tidy j where
  toTidy := View.tidy_of_quiet hheld hquiet
  alone hbusy := absurd hquiet hbusy
  failed side hcompletes := by
    obtain ⟨side', htrap⟩ := hcompletes.1
    exact absurd hline (TrapLine.not_isIdle htrap)
  charged hcharged := by
    rw [hculprit] at hcharged
    simp at hcharged

/-- A completion for job `j` comes when its devices have nothing to do any more. -/
theorem quiet_of_completes (h : m.Tidy j) {side : Side} (hcompletes : m.Completes j side) :
    (m.view j).Quiet := by
  by_contra hbusy
  exact (h.alone hbusy).2 side hcompletes

/-- If job `j` runs it has not asked for anything. -/
theorem quiet_of_runs (h : m.Tidy j) (hsound : m.Sound) (hrun : m.runs j = true) :
    (m.view j).Quiet :=
  h.quiet (by rw [view_life, (hsound.of_runs hrun).1]; decide)

/-- When the segment of job `j` ends, with the outcome `o`, its devices have nothing to do. -/
theorem quiet_of_closes (h : m.Tidy j) (hsound : m.Sound) {o : Outcome}
    (hcloses : m.Closes j o) : (m.view j).Quiet := by
  cases hrun : m.runs j with
  | true => exact h.quiet_of_runs hsound hrun
  | false =>
    obtain ⟨_, hculprit, _⟩ := hsound.culprit_of_closes hcloses hrun
    by_contra hbusy
    exact (h.alone hbusy).1 hculprit

/-- Job `j` stays tidy if no completion for it comes on the line and nothing else changes of what is
under way for it. -/
theorem of_same (h : m.Tidy j) (hjob : (m'.view j).job = (m.view j).job)
    (hidle : ∀ side, ((m'.view j).device side).isIdle = ((m.view j).device side).isIdle)
    (hculprit : m'.culprit? = m.culprit?)
    (hline : ∀ side, m'.Completes j side → m'.line = m.line) : m'.Tidy j := by
  have hquiet : (m'.view j).Quiet ↔ (m.view j).Quiet := by
    simp only [View.Quiet, hidle]
  have hlife : (m'.job j).life = (m.job j).life := by
    rw [← view_life, hjob, view_life]
  -- what is on the line may have changed, but to no completion for the job
  have hcompletes : ∀ side, m'.Completes j side → m.Completes j side := by
    intro side hcompletes
    have hsame := hline side hcompletes
    unfold Completes at hcompletes ⊢
    rwa [hsame] at hcompletes
  constructor
  case toTidy =>
    refine ⟨hjob ▸ h.held, fun hbusy => ?_, fun side hbusy side' hne => ?_⟩
    · rw [hjob]
      exact h.waits (mt hquiet.2 hbusy)
    · rw [hidle] at hbusy ⊢
      exact h.single side hbusy side' hne
  case alone =>
    intro hbusy
    obtain ⟨hspared, hnone⟩ := h.alone (mt hquiet.2 hbusy)
    exact ⟨hculprit ▸ hspared, fun side hcomes => hnone side (hcompletes side hcomes)⟩
  case failed =>
    intro side hcomes hstatus
    rw [hline side hcomes] at hstatus
    exact hlife ▸ h.failed side (hcompletes side hcomes) hstatus
  case charged => exact fun hcharged => hlife ▸ h.charged (hculprit ▸ hcharged)

/-- Offering the held requests makes no difference to job `j` if it is tidy. -/
theorem offers (h : m.Tidy j) (hj : j < m.jobs.size) (hoffers : m.Offers m₀) :
    m₀.view j = m.view j ∧ m₀.Tidy j := by
  have hview : m₀.view j = m.view j := (hoffers.view j hj).trans (h.offered j)
  exact ⟨hview, h.of_same (by rw [hview]) (by simp [hview])
    (congrArg Control.culprit? hoffers.control) fun _ _ => hoffers.line⟩

end Tidy

/-- The search for the next job keeps job `j` tidy, and gives its devices nothing to do. -/
theorem Shift.tidy (hshift : m.Shift m' j) (htidy : (m.view j).Tidy) :
    (m'.view j).Tidy ∧ ((m.view j).Quiet → (m'.view j).Quiet) := by
  have hable : (m.job j).life = .runnable → (m.view j).Quiet := fun hlife =>
    htidy.quiet (by rw [view_life, hlife]; decide)
  cases hshift with
  | stays hview =>
    rw [hview]
    exact ⟨htidy, id⟩
  | boots _ hlife _ _ _ _ _ _ hview =>
    rw [hview]
    have hquiet := View.quiet_started (j := j) (hable hlife)
    exact ⟨View.tidy_of_quiet rfl (hquiet _ _ _), fun _ => hquiet _ _ _⟩
  | drops _ hlife _ _ hview =>
    have hquiet : ((m.view j).withOutcome .bootFailed).Quiet := hable hlife
    rw [hview]
    exact ⟨View.tidy_of_quiet rfl (View.quiet_dismissed hquiet),
      fun _ => View.quiet_dismissed hquiet⟩

/-- A turn keeps job `j` tidy. What a device of the job has to do afterwards it had to do before, or
the job has just asked for it. -/
theorem Move.tidy (h : m.Sound) (hmove : m.Move m' j) (htidy : m.Tidy j) :
    (m'.view j).Tidy ∧ (¬ (m'.view j).Quiet →
      ¬ (m.view j).Quiet ∨ ∃ side : Side, m.line.trap? = some side.request) := by
  -- a job whose devices have nothing to do stays tidy, and they still have nothing to do
  have hrests : (m'.view j).job.pending? = none → (m'.view j).Quiet → (m'.view j).Tidy ∧
      (¬ (m'.view j).Quiet →
        ¬ (m.view j).Quiet ∨ ∃ side : Side, m.line.trap? = some side.request) :=
    fun hheld hquiet => ⟨View.tidy_of_quiet hheld hquiet, absurd hquiet⟩
  cases hmove with
  | shifts _ hshift =>
    obtain ⟨htidy', hquiet⟩ := hshift.tidy htidy.toTidy
    exact ⟨htidy', fun hbusy => .inl (mt hquiet hbusy)⟩
  | steps _ hrun _ _ _ hview =>
    rw [hview] at hrests ⊢
    exact hrests htidy.held (htidy.quiet_of_runs h hrun)
  | rejects _ _ _ _ hview =>
    rw [hview]
    exact ⟨htidy.toTidy, .inl⟩
  | @reloads o _ _ _ _ hcloses _ _ _ _ hview =>
    have hquiet : ((m.view j).withOutcome o).Quiet := htidy.quiet_of_closes h hcloses
    rw [hview] at hrests ⊢
    exact hrests rfl (View.quiet_entered hquiet _ _ _)
  | @retires o hcloses _ hview =>
    have hquiet : ((m.view j).withOutcome o).Quiet := htidy.quiet_of_closes h hcloses
    rw [hview] at hrests ⊢
    exact hrests rfl (View.quiet_dismissed hquiet)
  | asks hrun htrap _ hview =>
    rw [hview]
    exact ⟨.asks (htidy.quiet_of_runs h hrun) _ _ _ _, fun _ => .inr ⟨_, htrap⟩⟩
  | fails hcompletes _ _ _ hview =>
    rw [hview] at hrests ⊢
    refine hrests ?_ (View.quiet_acknowledged (htidy.quiet_of_completes hcompletes) _)
    rw [View.acknowledged, View.job_withDevice]
    exact htidy.held
  | collects hcompletes _ hview =>
    rw [hview] at hrests ⊢
    exact hrests htidy.held (View.quiet_collected (htidy.quiet_of_completes hcompletes) _)

/-- A turn in which nobody forges keeps job `j` tidy. -/
theorem Turned.tidy (h : m.Sound) (hj : j < m.jobs.size) (hturned : m.Turned p m')
    (hhonest : ¬ m.Forges j) (htidy : m.Tidy j) : m'.Tidy j := by
  obtain ⟨hview, hbusy⟩ := (hturned.move j hj).tidy h htidy
  refine ⟨hview, fun hbusy' => ?_, fun side hcompletes hstatus => ?_, fun hculprit => ?_⟩
  · -- the device was at work before, or its job has asked with a request on the line
    rcases hbusy hbusy' with hstill | ⟨side₀, hrequest⟩
    · refine ⟨fun hculprit => ?_, fun side hcompletes => ?_⟩
      · obtain ⟨side, hcompletes, _⟩ := hturned.lines.charged h hculprit
        exact (htidy.alone hstill).2 side hcompletes
      · exact hhonest ⟨(hturned.lines.completes h hcompletes).2.1, htidy.waits hstill⟩
    · refine ⟨fun hculprit => ?_, fun side hcompletes => ?_⟩
      · obtain ⟨side, ⟨⟨side', htrap⟩, _⟩, _⟩ := hturned.lines.charged h hculprit
        simp [hrequest] at htrap
      · exact absurd (hturned.lines.completes h hcompletes).1 (TrapLine.not_isIdle hrequest)
  · exact absurd (hturned.lines.completes h hcompletes).2.2 hstatus
  · -- the job waits on for the error that its failure has become
    obtain ⟨side, hcompletes, hstatus⟩ := hturned.lines.charged h hculprit
    have hasleep : ¬ m.Wakes j := by
      rintro (⟨_, _, hok⟩ | ⟨htrap, _⟩)
      · exact hstatus hok
      · exact hcompletes.trap?_ne_fatal htrap
    have hmove := (hturned.move j hj).wakes h hj (htidy.failed side hcompletes hstatus)
    exact (hmove.resolve_left fun hwakes => hasleep hwakes.1).2.1

/-- A tick of the device of job `k` on the side `side` keeps job `j` tidy. Only for a job that waits
a device of it has something to do, and when it is done it is the only thing that is under way for
the job. -/
theorem Tidy.ticked {side : Side} (htidy : m.Tidy j) (h : m.Sound) (hfits : m.Fits)
    (hj : j < m.jobs.size) (hk : k < m.jobs.size) (hticks : m.SideTicks side k m') : m'.Tidy j := by
  obtain ⟨source?, hdevice, hcpu⟩ := hticks.ticked
  have hline : m'.line = _ := congrArg Processor.trap hcpu
  have hculprit : m'.culprit? = m.culprit? := congrArg Control.culprit? hticks.control
  -- as long as the device has as much to do as before, nothing changes for the job
  have hsame : ∀ d, (m'.view j).device side = d → d.isIdle = ((m.view j).device side).isIdle →
      j = k → m'.line = m.line → m'.Tidy j := by
    rintro d rfl hidle rfl hsame
    refine htidy.of_same (hticks.job j) (fun side' => ?_) hculprit fun _ _ => hsame
    by_cases hside : side' = side
    · rw [hside, hidle]
    · rw [hticks.other side' hside]
  by_cases hjk : j = k
  · subst hjk
    cases hbusy : ((m.view j).device side).isIdle with
    | true =>
      rw [Device.tick_of_isIdle hbusy] at hdevice hline
      exact hsame _ hdevice rfl rfl hline
    | false =>
      have hrequest := (h.job j hj).lines side
      rw [← Device.IsOf.request side (h.wired.isOf hj side)] at hrequest
      rcases Device.tick_of_busy hbusy hrequest m.line source? m.hardware.files with
        ⟨d, htick, hstill, _⟩ | ⟨_, hclear, htick⟩
      · rw [htick] at hdevice hline
        exact hsame _ hdevice (hstill.trans hbusy.symm) rfl hline
      · -- its work was all that was under way
        have hwaits : (m'.job j).life = .waiting := by
          rw [← view_life, hticks.job]
          exact htidy.waits (View.not_quiet hbusy)
        have hquiet : (m'.view j).Quiet := by
          intro side'
          by_cases hside : side' = side
          · rw [hside, hdevice, htick]
            exact Device.isIdle_transfer hclear _ _
          · rw [hticks.other side' hside]
            exact htidy.single side hbusy side' hside
        exact ⟨View.tidy_of_quiet (hticks.job j ▸ htidy.held) hquiet, absurd hquiet,
          fun _ _ _ => hwaits, fun _ => hwaits⟩
  · -- what the device signals names another job
    have hview := hticks.view j hjk
    refine htidy.of_same (by rw [hview]) (fun side' => by rw [hview]) hculprit
      fun side' hcompletes => ?_
    rcases line_tick ((m.view k).device side) m.line source? m.hardware.files with
      hsame | ⟨_, _, ok, hsignal⟩
    · rw [hline, hsame]
    · have hdata := hcompletes.2
      rw [hline, hsignal, (trap?_signal side (h.wired.isOf hk side) ok).2,
        Word.index?_ofCount (hfits.number_lt hk side), Option.some.injEq] at hdata
      exact absurd (Side.number_inj.1 hdata).2.symm hjk

/-- Ticks in which nobody forges keep job `j` tidy. -/
theorem Tidy.persists :
    Persists (fun m => ¬ m.Forges j) fun m => m.Fits ∧ j < m.jobs.size ∧ m.Tidy j where
  agrees := by
    intro m m' hagrees ⟨hfits, hj, htidy⟩
    exact ⟨hfits.of_size hagrees.size, hagrees.size ▸ hj, htidy.of_same (by rw [hagrees.view])
      (by simp [hagrees.view]) (congrArg Control.culprit? hagrees.control) fun _ _ => hagrees.line⟩
  turned := by
    intro m m₀ m₁ p hhonest _ hoffers hsound₀ hturned ⟨hfits, hj, htidy⟩
    have hj₀ : j < m₀.jobs.size := hoffers.size ▸ hj
    have htidy₀ := (htidy.offers hj hoffers).2
    exact ⟨(hfits.of_size hoffers.size).of_size hturned.size, hturned.size ▸ hj₀,
      hturned.tidy hsound₀ hj₀ (mt (hoffers.forges hj).1 hhonest) htidy₀⟩
  inputTicks hsound hk hticks := fun ⟨hfits, hj, htidy⟩ =>
    ⟨hfits.of_size hticks.sideTicks.size, hticks.sideTicks.size ▸ hj,
      htidy.ticked hsound hfits hj hk hticks.sideTicks⟩
  outputTicks hsound hk hticks := fun ⟨hfits, hj, htidy⟩ =>
    ⟨hfits.of_size hticks.sideTicks.size, hticks.sideTicks.size ▸ hj,
      htidy.ticked hsound hfits hj hk hticks.sideTicks⟩

/-! ## Outcomes -/

theorem Offers.closes {o : Outcome} (h : m.Offers m₀) : m₀.Closes j o ↔ m.Closes j o := by
  have hidle : m₀.idle = m.idle := congrArg Control.idle h.control
  have hcurrent : m₀.current = m.current := congrArg Control.current h.control
  unfold Closes Stops
  rw [runs_congr h.control, h.line, h.cpu, h.culprit?, hidle, hcurrent]

/-- A turn gives job `j`, which is over, another outcome only if it serves an error that is charged
to the job. -/
theorem Move.outcome (h : m.Sound) (hj : j < m.jobs.size) (hmove : m.Move m' j)
    (hover : (m.job j).life = .finished) :
    (m'.job j).outcome? =
      if m.line.trap? = some .fatal ∧ m.culprit? = some j then some (.fatal m.line.data)
      else (m.job j).outcome? := by
  have hstopped := h.runs_of_ne_runnable (k := j) (by simp [hover])
  have hdone : ∀ {side}, m.Completes j side →
      ¬ (m.line.trap? = some .fatal ∧ m.culprit? = some j) :=
    fun hcompletes hfatal => hcompletes.trap?_ne_fatal hfatal.1
  show (m'.view j).job.outcome? = if _ then _ else (m.view j).job.outcome?
  cases hmove with
  | shifts hsubject hshift =>
    cases hshift with
    | stays hview =>
      rw [if_neg, hview]
      rintro ⟨htrap, hculprit⟩
      rw [subject?_of_fatal htrap, hculprit] at hsubject
      exact hsubject rfl
    | boots _ hlife | drops _ hlife =>
      rw [hover] at hlife
      exact absurd hlife (by decide)
  | steps _ hrun | rejects hrun | asks hrun =>
    rw [hstopped] at hrun
    exact absurd hrun (by decide)
  | reloads _ hsource =>
    -- its text has been closed
    rw [← view_source?, ((h.job j hj).finished hover).source] at hsource
    simp at hsource
  | retires hcloses _ hview =>
    obtain ⟨htrap, hculprit, rfl⟩ := h.culprit_of_closes hcloses hstopped
    rw [if_pos ⟨htrap, hculprit⟩, hview]
    rfl
  | fails hcompletes _ _ _ hview =>
    rw [if_neg (hdone hcompletes), hview, View.acknowledged, View.job_withDevice]
  | collects hcompletes _ hview =>
    rw [if_neg (hdone hcompletes), hview]
    rfl

/-- A turn after which job `j` is over has ended its last segment, with an outcome that the job has
from then on, or it has given the job up. -/
theorem Move.finishes (h : m.Sound) (hj : j < m.jobs.size) (hmove : m.Move m' j)
    (hbefore : (m.job j).life ≠ .finished) (hafter : (m'.job j).life = .finished) :
    (m'.job j).segments = (m.job j).segments ∧ ∃ o, (m'.job j).outcome? = some o ∧
      (m.Closes j o ∨ (o = .bootFailed ∧ (m.job j).segments = 0)) := by
  -- a job that is over now has another life than before, which rules out most turns
  have hother : ∀ {v : View}, v.job.life = (m.view j).job.life → m'.view j ≠ v := by
    rintro v hlife rfl
    exact hbefore (hlife.symm.trans hafter)
  show (m'.view j).job.segments = (m.view j).job.segments ∧
    ∃ o, (m'.view j).job.outcome? = some o ∧ _
  change (m'.view j).job.life = .finished at hafter
  cases hmove with
  | shifts _ hshift =>
    cases hshift with
    | stays hview => exact absurd hview (hother rfl)
    | boots _ _ _ _ _ _ _ _ hview =>
      rw [hview] at hafter
      simp [View.started, View.entered, View.attached, Job.enter] at hafter
    | drops hboot _ _ _ hview =>
      rw [hview]
      exact ⟨rfl, .bootFailed, rfl, .inr ⟨rfl, ((h.job j hj).fresh hboot hbefore).segments⟩⟩
  | steps _ _ _ _ _ hview => exact absurd hview (hother rfl)
  | rejects _ _ _ _ hview => exact absurd hview (hother rfl)
  | reloads _ _ _ _ _ hview =>
    rw [hview] at hafter
    simp [View.entered, View.attached, Job.enter] at hafter
  | retires hcloses _ hview =>
    rw [hview]
    exact ⟨rfl, _, rfl, .inl hcloses⟩
  | asks _ _ _ hview =>
    obtain ⟨pending?, target?, hjob⟩ := View.job_asks (m.view j) j _ _ _
    rw [hview, hjob] at hafter
    simp at hafter
  | fails _ _ _ _ hview =>
    exact absurd hview (hother (by rw [View.acknowledged, View.job_withDevice]))
  | collects _ _ hview =>
    rw [hview] at hafter
    simp only [View.collected] at hafter
    split at hafter
    · simp at hafter
    · exact absurd hafter hbefore

/-- A tick gives job `j`, which is over, another outcome only if it serves an error that is charged
to the job. -/
theorem Sound.outcome_tick (h : m.Sound) (hj : j < m.jobs.size) (htick : m.tick = (p, m'))
    (hover : (m.job j).life = .finished) :
    (m'.job j).outcome? =
      if m.line.trap? = some .fatal ∧ m.culprit? = some j then some (.fatal m.line.data)
      else (m.job j).outcome? := by
  obtain ⟨m₀, hoffers, hsound₀, hmove⟩ := h.move_of_tick
  have hbefore := hoffers.unmoved hj
  have houtcome := (hmove j hj).outcome hsound₀ (hoffers.size.symm ▸ hj)
    (hbefore.life.trans hover)
  rwa [hoffers.line, hoffers.culprit?, hbefore.outcome,
    ← (h.unmoved_of_tick htick j).outcome] at houtcome

/-- A tick after which job `j` is over has ended its last segment, or has given the job up. -/
theorem Sound.finishes_tick (h : m.Sound) (hj : j < m.jobs.size) (htick : m.tick = (p, m'))
    (hbefore : (m.job j).life ≠ .finished) (hafter : (m'.job j).life = .finished) :
    (m'.job j).segments = (m.job j).segments ∧ ∃ o, (m'.job j).outcome? = some o ∧
      (m.Closes j o ∨ (o = .bootFailed ∧ (m.job j).segments = 0)) := by
  obtain ⟨m₀, hoffers, hsound₀, hmove⟩ := h.move_of_tick
  have hstart := hoffers.unmoved hj
  have hend := h.unmoved_of_tick htick j
  have hfinishes := (hmove j hj).finishes hsound₀ (hoffers.size.symm ▸ hj)
    (hstart.life.symm ▸ hbefore) (hend.life ▸ hafter)
  simp only [hstart.segments, hoffers.closes, ← hend.segments, ← hend.outcome] at hfinishes
  exact hfinishes

/-- `o` is the outcome of the last segment of job `j`: the segment has ended with it in one of the
machines of the `past`, or no segment has been loaded at all. -/
def Ended (past : List Machine) (m : Machine) (j : Nat) (o : Outcome) : Prop :=
  (∃ x ∈ past, (x.job j).life ≠ .finished ∧ (x.job j).segments = (m.job j).segments ∧
    x.Closes j o) ∨ (o = .bootFailed ∧ (m.job j).segments = 0)

/-! ## Reports -/

theorem jobs_releaseAll (m : Machine) : m.releaseAll.jobs = m.jobs := by
  have hrelease : ∀ (m : Machine) (device : Nat), (m.release device).jobs = m.jobs := by
    intro m device
    unfold release
    split <;> rfl
  unfold releaseAll
  generalize m.jobs.size = n
  -- job by job, both devices of each
  induction n with
  | zero => rfl
  | succ n ih =>
    rw [Nat.fold_succ]
    exact ((hrelease _ _).trans (hrelease _ _)).trans ih

/-- `m.run` reports of the jobs what they are in the machine that the run comes to. -/
theorem exists_run_report (m : Machine) :
    ∃ p later last, Run m p later last ∧ m.run.1.jobs = last.jobReports := by
  obtain ⟨p, later, hrun, _⟩ := exists_run_of_tickUpTo (m.config.maxTicks - m.clock) m
  refine ⟨p, later, _, hrun, ?_⟩
  unfold Machine.run
  simp only [jobReports, jobs_releaseAll]
  split <;> rfl

section Launch

variable {jobs : List (Job × Option Reader)} {config : Config} {files : Files} {journal : Journal}
  {first : Machine} {past : List Machine}

/-- When the machine has started, job `j` is tidy. -/
theorem Launches.tidy (hlaunch : Launches jobs config files journal first) (hj : j < jobs.length) :
    first.Tidy j := by
  have hsettles := hlaunch.hands.settles
  obtain ⟨index, origin, path?, hview⟩ := exists_view_new config files journal hlaunch.1 hj
  have hquiet : ((new jobs config files journal).view j).Quiet := by
    rw [hview]
    exact fun side => by cases side <;> rfl
  have hheld : ((new jobs config files journal).view j).job.pending? = none := by
    rw [hview]
    rfl
  obtain ⟨htidy, hquiet'⟩ := (hlaunch.shift hj).tidy (View.tidy_of_quiet hheld hquiet)
  exact .of_quiet htidy.held (hquiet' hquiet) hsettles.line hsettles.culprit

/-- Job `j` is tidy as long as nobody forges a completion for it. -/
theorem Run.tidy (hlaunch : Launches jobs config files journal first)
    (hfew : 2 * jobs.length < 2 ^ 31) (hj : j < jobs.length) (hrun : Run first p past m)
    (hhonest : ∀ x ∈ past, ¬ x.Forges j) : m.Tidy j := by
  have hfits : first.Fits := Run.fits hlaunch hfew .start
  exact (Tidy.persists.run hlaunch.sound hrun hhonest
    ⟨hfits, hlaunch.size ▸ hj, hlaunch.tidy hj⟩).2.2

/-- If job `j` is over right after the start, it could not be booted. -/
theorem Launches.outcome (hlaunch : Launches jobs config files journal first)
    (hj : j < jobs.length) (hover : (first.job j).life = .finished) :
    (first.job j).outcome? = some .bootFailed ∧ (first.job j).segments = 0 := by
  obtain ⟨index, origin, path?, hview⟩ := exists_view_new config files journal hlaunch.1 hj
  change (first.view j).job.life = .finished at hover
  show (first.view j).job.outcome? = _ ∧ (first.view j).job.segments = 0
  cases hlaunch.shift hj with
  | stays hsame =>
    rw [hsame, hview] at hover
    simp [Job.new] at hover
  | boots _ _ _ _ _ _ _ _ hstarted =>
    rw [hstarted] at hover
    simp [View.started, View.entered, View.attached, Job.enter] at hover
  | drops _ _ _ _ hdropped =>
    rw [hdropped, hview]
    exact ⟨rfl, rfl⟩

/-- If job `j` was over in the past, it is over. -/
theorem Run.finished_of_mem (hlaunch : Launches jobs config files journal first)
    (hj : j < jobs.length) (hrun : Run first p past m) :
    ∀ x ∈ past, (x.job j).life = .finished → (m.job j).life = .finished := by
  induction hrun with
  | start => simp
  | @tick past m₁ _ _ hrun htick ih =>
    have hsound := (hrun.sound hlaunch.sound).2 rfl
    have hlasts := (hsound.lasts htick (k := j) (hrun.size hlaunch ▸ hj)).2
    intro x hx hover
    rcases List.mem_cons.1 hx with rfl | hmem
    · exact (hlasts hover).1
    · exact (hlasts (ih x hmem hover)).1

/-- As long as nobody forges a completion for it, the outcome of job `j`, which is over, is
final. -/
theorem Run.ended (hlaunch : Launches jobs config files journal first)
    (hfew : 2 * jobs.length < 2 ^ 31) (hj : j < jobs.length) (hrun : Run first p past m)
    (hhonest : ∀ x ∈ past, ¬ x.Forges j) (hover : (m.job j).life = .finished) :
    ∃ o, (∀ x ∈ m :: past, (x.job j).life = .finished → (x.job j).outcome? = some o) ∧
      Ended past m j o := by
  induction hrun with
  | start =>
    obtain ⟨houtcome, hsegments⟩ := hlaunch.outcome hj hover
    refine ⟨.bootFailed, fun x hx _ => ?_, .inr ⟨rfl, hsegments⟩⟩
    rw [List.mem_singleton.1 hx]
    exact houtcome
  | @tick past m₁ m' _ hrun htick ih =>
    have hsound := (hrun.sound hlaunch.sound).2 rfl
    have hj₁ : j < m₁.jobs.size := hrun.size hlaunch ▸ hj
    have hpast : ∀ x ∈ past, ¬ x.Forges j := fun x hx => hhonest x (List.mem_cons_of_mem _ hx)
    by_cases hbefore : (m₁.job j).life = .finished
    · -- no error is charged to a job that is over
      have hspared : ¬ (m₁.line.trap? = some .fatal ∧ m₁.culprit? = some j) := by
        rintro ⟨_, hculprit⟩
        have hwaits := (hrun.tidy hlaunch hfew hj hpast).charged hculprit
        rw [hbefore] at hwaits
        exact absurd hwaits (by decide)
      have houtcome := hsound.outcome_tick hj₁ htick hbefore
      rw [if_neg hspared] at houtcome
      have hsegments := ((hsound.lasts htick hj₁).2 hbefore).2.1
      obtain ⟨o, hsame, hended⟩ := ih hpast hbefore
      refine ⟨o, fun x hx hfinished => ?_, ?_⟩
      · rcases List.mem_cons.1 hx with rfl | hmem
        · exact houtcome.trans (hsame m₁ List.mem_cons_self hbefore)
        · exact hsame x hmem hfinished
      · rcases hended with ⟨x, hx, hunfinished, hsegment, hcloses⟩ | ⟨ho, hnone⟩
        · exact .inl ⟨x, List.mem_cons_of_mem _ hx, hunfinished, hsegment.trans hsegments.symm,
            hcloses⟩
        · exact .inr ⟨ho, hsegments.trans hnone⟩
    · -- the job has come to its end in the last tick
      obtain ⟨hsegments, o, houtcome, hends⟩ := hsound.finishes_tick hj₁ htick hbefore hover
      refine ⟨o, fun x hx hfinished => ?_, ?_⟩
      · rcases List.mem_cons.1 hx with rfl | hmem
        · exact houtcome
        · rcases List.mem_cons.1 hmem with rfl | hmem'
          · exact absurd hfinished hbefore
          · exact absurd (hrun.finished_of_mem hlaunch hj x hmem' hfinished) hbefore
      · rcases hends with hcloses | ⟨ho, hnone⟩
        · exact .inl ⟨m₁, List.mem_cons_self, hbefore, hsegments.symm, hcloses⟩
        · exact .inr ⟨ho, hsegments.trans hnone⟩

/-- Once job `j` is over, a tick of `m` gives it another outcome only if it serves an error that is
charged to the job, and then the error is the outcome. Unless another program has raised the
completion of a device of the job while the job waited, this never happens: the job has had one
outcome since it has been over, which is how its last segment has ended. The report of a run has the
outcomes of the machine that the run comes to. (The word that names a device has room for its number
if there are fewer than `2 ^ 30` jobs.) -/
theorem outcome_final (hlaunch : Launches jobs config files journal first)
    (hfew : 2 * jobs.length < 2 ^ 31) (hj : j < jobs.length) (hrun : Run first p past m)
    (hover : (m.job j).life = .finished) :
    (∀ p' m', p = .running → m.tick = (p', m') → (m'.job j).outcome? =
      if m.line.trap? = some .fatal ∧ m.culprit? = some j then some (.fatal m.line.data)
      else (m.job j).outcome?) ∧
    ((∀ x ∈ past, ¬ x.Forges j) → ∃ o,
      (∀ x ∈ m :: past, (x.job j).life = .finished → (x.job j).outcome? = some o) ∧
        Ended past m j o) ∧
    ∃ p' later last, Run m p' later last ∧ m.run.1.jobs = last.jobReports := by
  refine ⟨fun p' m' hp htick => ?_, fun hhonest => hrun.ended hlaunch hfew hj hhonest hover,
    m.exists_run_report⟩
  exact ((hrun.sound hlaunch.sound).2 hp).outcome_tick (hrun.size hlaunch ▸ hj) htick hover

/-- The first of two jobs has asked for a word of an empty input. Seven ticks after the start it is
over, and nobody has forged anything. -/
theorem outcome_final_starve :
    ((tickUpTo 7 starveFirst).2.job 0).life = .finished ∧
      ((tickUpTo 7 starveFirst).2.job 0).outcome? = some (.fatal 1) ∧
      ∃ past, Run starveFirst .running past (tickUpTo 7 starveFirst).2 ∧
        Ended past (tickUpTo 7 starveFirst).2 0 (.fatal 1) := by
  have hstate : (tickUpTo 7 starveFirst).1 = none ∧
      ((tickUpTo 7 starveFirst).2.job 0).life = .finished ∧
      ((tickUpTo 7 starveFirst).2.job 0).outcome? = some (.fatal 1) ∧
      ∀ i < 7, ¬ (tickUpTo i starveFirst).2.Forges 0 := by decide +kernel
  obtain ⟨hnone, hover, houtcome, hhonest⟩ := hstate
  obtain ⟨past, hrun, hpast⟩ := run_of_tickUpTo (m := starveFirst) (n := 7) hnone
  have hhonest' : ∀ x ∈ past, ¬ x.Forges 0 := by
    intro x hx
    obtain ⟨i, hi, rfl⟩ := hpast x hx
    exact hhonest i hi
  obtain ⟨o, hsame, hended⟩ :=
    (outcome_final launches_starve (by decide) (j := 0) (by decide) hrun hover).2.1 hhonest'
  obtain rfl : o = .fatal 1 :=
    Option.some.inj ((hsame _ List.mem_cons_self hover).symm.trans houtcome)
  exact ⟨hover, houtcome, past, hrun, hended⟩

end Launch

/-! ## An outcome that changes -/

/-- A job that writes a word and halts, and a job that raises the completion of the first one's
output device and writes a word itself. -/
def hurryJobs : List (Job × Option Reader) :=
  [(.new 0 "writer" none, some (.ofText "writer" "$JOB writer\nf 3 1\nf 1 1\n")),
    (.new 1 "forger" none, some (.ofText "forger" "$JOB forger\nf 43 2\nf 3 1\n"))]

/-- The machine after their start. -/
def hurryFirst : Machine :=
  (new hurryJobs .standard .empty (.new none)).start.2

/-- Eight ticks after the start the first job is over and has halted with status zero, and six ticks
later its outcome is that its device has failed. The report of the run says so too. -/
theorem forged_completion_changes_outcome :
    Launches hurryJobs .standard .empty (.new none) hurryFirst ∧
      (tickUpTo 14 hurryFirst).1 = none ∧
      ((tickUpTo 8 hurryFirst).2.job 0).life = .finished ∧
      ((tickUpTo 8 hurryFirst).2.job 0).outcome? = some (.halted 0) ∧
      ((tickUpTo 14 hurryFirst).2.job 0).outcome? = some (.fatal 2) ∧
      hurryFirst.run.1.jobs.head?.bind JobReport.outcome? = some (.fatal 2) := by
  exact ⟨launches_of_isOk (by decide +kernel) (by decide +kernel), by decide +kernel⟩

end Machine

end BatchMachine
