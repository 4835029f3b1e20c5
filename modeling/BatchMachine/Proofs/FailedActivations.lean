import BatchMachine.Proofs.Activation
import BatchMachine.Proofs.Persistence
import BatchMachine.Proofs.RoundRobin

/-!
# Failed activations

A job that is to run for the first time may turn out not to be bootable while another one is in the
processor. Then nothing has happened to the processor, to what the scheduler remembers, and to the
other jobs, and the job itself is given up with nothing left to it.

* `Machine.released_giveUp`, `Machine.source?_giveUp`: what a job loses when it is given up.
* `Machine.Run.equipped`: along a run all devices are at their places and all images fit.
* `Machine.failed_activation_undone`: a failed activation leaves the machine as it was.
-/

namespace BatchMachine

open JobText

namespace Machine

variable {m m' : Machine} {j k : Nat}

/-! ## What a job loses when it is given up -/

theorem sources_release (dev : Nat) :
    (m.release dev).hardware.sources = m.hardware.sources := by
  unfold release Hardware.release
  cases m.hardware.device? dev <;> rfl

/-- The device `e` after the one with the number `dev` has been released. -/
theorem device?_release {dev : Nat} (hdev : dev ≠ 0) (e : Nat) :
    (m.release dev).hardware.device? e =
      if e = dev then (m.hardware.device? e).map fun d => d.release.2
      else m.hardware.device? e := by
  unfold release Hardware.release
  cases hd : m.hardware.device? dev with
  | none =>
    show m.hardware.device? e = _
    split
    · rename_i he
      subst he
      rw [hd]
      rfl
    · rfl
  | some d =>
    show (m.hardware.setDevice dev d.release.2).device? e = _
    rw [device?_setDevice _ hdev]
    split
    · rename_i he
      subst he
      rw [hd]
      rfl
    · rfl

/-- There is a machine `x` right before the devices of job `j`, which is given up, are released. -/
theorem hardware_giveUp (j : Nat) (e : LoadError) :
    ∃ x : Machine, x.hardware = m.hardware.setSource j none ∧
      (m.giveUp j e).hardware = (x.releaseJob j).hardware :=
  ⟨_, rfl, rfl⟩

/-- When job `j` is given up it has no text any more. -/
theorem source?_giveUp (j : Nat) (e : LoadError) : (m.giveUp j e).hardware.source? j = none := by
  obtain ⟨x, hx, hgiveUp⟩ := hardware_giveUp (m := m) j e
  have hsources : (x.releaseJob j).hardware.sources = x.hardware.sources :=
    (sources_release _).trans (sources_release _)
  rw [Hardware.source?, hgiveUp, hsources, hx]
  by_cases hlt : j < m.hardware.sources.size <;> simp [Hardware.setSource, hlt]

/-- When job `j` is given up its device on each `side` is bound to nothing. -/
theorem released_giveUp (h : m.Equipped) (hj : j < m.jobs.size) (e : LoadError) (side : Side) :
    ∃ d, (m.giveUp j e).hardware.device? (side.number j) = some d ∧ d.job? = none ∧
      d.sink? = none := by
  obtain ⟨x, hx, hgiveUp⟩ := hardware_giveUp (m := m) j e
  obtain ⟨d, hd⟩ := h.exists_device hj side
  have hdx : x.hardware.device? (side.number j) = some d := by
    rw [hx]
    exact hd
  have hin : inputNumber j ≠ 0 := Side.input.number_ne_zero j
  have hout : outputNumber j ≠ 0 := Side.output.number_ne_zero j
  have hne : inputNumber j ≠ outputNumber j := by simp [inputNumber, outputNumber]
  -- both devices are released, and each release leaves the other device alone
  refine ⟨d.release.2, ?_, Device.job?_release, Device.sink?_release⟩
  rw [hgiveUp, releaseJob, device?_release hout, device?_release hin]
  cases side with
  | input =>
    rw [show Side.input.number j = inputNumber j from rfl] at hdx ⊢
    rw [if_neg hne, if_pos rfl, hdx]
    rfl
  | output =>
    rw [show Side.output.number j = outputNumber j from rfl] at hdx ⊢
    rw [if_pos rfl, if_neg hne.symm, hdx]
    rfl

/-! ## Runs -/

/-- That the machine is wired and that the images fit lasts through every phase of a tick. -/
theorem persists_loadable : Persists (fun _ => True) fun m => m.Wired ∧ m.Loadable where
  agrees := by
    intro m m' hagrees ⟨w, hloadable⟩
    refine ⟨hagrees.wired w, fun k hk => ?_⟩
    rw [hagrees.job]
    exact hloadable k (hagrees.size ▸ hk)
  turned := by
    intro m m₀ m₁ p _ _ _ hsound hturned _
    exact ⟨hturned.wired, fun k hk => ((hturned.move k (hturned.size ▸ hk)).sound hsound
      (hturned.size ▸ hk)).fits⟩
  inputTicks := by
    intro j m m' hsound hj hticks _
    have hsound' := hsound.inputTicks hj hticks
    exact ⟨hticks.wired, fun k hk => (hsound'.job k hk).fits⟩
  outputTicks := by
    intro j m m' hsound hj hticks _
    have hsound' := hsound.outputTicks hj hticks
    exact ⟨hticks.wired, fun k hk => (hsound'.job k hk).fits⟩

/-- Along a run all devices are at their places and all images fit, also when `m` has exited. -/
theorem Run.equipped {jobs : List (Job × Option Reader)} {config : Config} {files : Files}
    {journal : Journal} {first : Machine} {p : Progress} {past : List Machine}
    (hlaunch : Launches jobs config files journal first) (hrun : Run first p past m) :
    m.Equipped ∧ m.Loadable := by
  have hsound := hlaunch.sound
  obtain ⟨w, hloadable⟩ := persists_loadable.run hsound hrun (fun _ _ => trivial)
    ⟨hsound.wired, fun k hk => (hsound.job k hk).fits⟩
  exact ⟨w.equipped, hloadable⟩

/-- If `activate` fails for job `j`, it leaves the processor, what the scheduler remembers, the job
table, the texts of the other jobs and their devices as they were, and the job is not booted. Once
the job is given up it is over with that outcome, and has no text and no bound device. All this
holds of every machine whose devices are at their places and whose images fit, amid a tick as well
as between the ticks of a run. -/
theorem failed_activation_undone {e : LoadError} (hequipped : m.Equipped)
    (hloadable : m.Loadable) (hj : j < m.jobs.size) (hfails : m.activate j = (.error e, m')) :
    (m'.hardware.cpu = m.hardware.cpu ∧ m'.current = m.current ∧ m'.idle = m.idle ∧
      m'.culprit? = m.culprit? ∧ m'.switches = m.switches ∧
      (∀ k, m'.job k = m.job k) ∧
      (∀ k, k ≠ j → m'.hardware.source? k = m.hardware.source? k) ∧
      (∀ dev, ownerOf? dev ≠ some j → m'.hardware.device? dev = m.hardware.device? dev) ∧
      (m'.job j).boot = .fresh) ∧
    ((m'.giveUp j e).job j).life = .finished ∧
    ((m'.giveUp j e).job j).outcome? = some .bootFailed ∧
    (m'.giveUp j e).hardware.source? j = none ∧
    ∀ side : Side, ∃ d, (m'.giveUp j e).hardware.device? (side.number j) = some d ∧
      d.job? = none ∧ d.sink? = none := by
  obtain ⟨_, hboot, hprepares⟩ := prepares_of_activate hj (hloadable j hj) hfails
  -- the attempt ends while the job is being prepared, before anything else is touched
  have hj' : j < m'.jobs.size := hprepares.size.symm ▸ hj
  have hover : (m'.giveUp j e).job j = (m'.job j).abandoned := job_giveUp hj' e
  refine ⟨⟨hprepares.cpu, hprepares.current, hprepares.idle,
    congrArg Control.culprit? hprepares.control, congrArg Control.switches hprepares.control,
    hprepares.job_eq, hprepares.source, hprepares.device hequipped, ?_⟩, ?_, ?_, ?_, ?_⟩
  · rw [hprepares.own]
    exact hboot
  · rw [hover]
    rfl
  · rw [hover]
    rfl
  · exact source?_giveUp j e
  · exact released_giveUp (hprepares.equipped hequipped) hj' e

/-- After the start of three jobs the second one cannot be booted while the first one runs. -/
theorem failed_activation_undone_turn :
    turnFirst.runs 0 = true ∧ ∃ e m', turnFirst.activate 1 = (.error e, m') ∧
      m'.hardware.cpu = turnFirst.hardware.cpu ∧ m'.runs 0 = true ∧
      ((m'.giveUp 1 e).job 1).outcome? = some .bootFailed := by
  have hfails : turnFirst.activate 1 = (.error (.noSegment "blank"), (turnFirst.activate 1).2) :=
    Prod.ext (by decide +kernel) rfl
  have hruns : turnFirst.runs 0 = true := by decide +kernel
  obtain ⟨hequipped, hloadable⟩ := Run.equipped launches_turn .start
  obtain ⟨⟨hcpu, hcurrent, hidle, _⟩, _, houtcome, _⟩ :=
    failed_activation_undone hequipped hloadable (by decide +kernel) hfails
  refine ⟨hruns, _, _, hfails, hcpu, ?_, houtcome⟩
  rw [runs, hcurrent, hidle]
  exact hruns

end Machine

end BatchMachine
