import BatchMachine.Proofs.Reachability

/-!
# What the phases of a tick keep

A tick offers the held requests, gives the processor its turn and lets the devices tick one by one.
A property that each of these keeps is kept along every run, whatever the programs are. It may need
something of the machine that the tick starts from, and then the run has to grant it.

* `Machine.Persists`: a property that the phases of a tick keep.
* `Machine.Persists.tick`, `Machine.Persists.run`: so do ticks and runs.
-/

namespace BatchMachine

namespace Machine

variable {guard P : Machine → Prop} {first m m' : Machine} {p : Progress} {past : List Machine}

/-- Each phase of a tick keeps the property `P`, if the machine at the start of the tick has the
property `guard`. -/
structure Persists (guard P : Machine → Prop) : Prop where
  /-- Clock and journal do not matter for `P`. -/
  agrees : ∀ {m m' : Machine}, m.Agrees m' → P m → P m'
  /-- The held requests are offered, and the processor has its turn. -/
  turned : ∀ {m m₀ m₁ : Machine} {p : Progress}, guard m → m.Sound → m.Offers m₀ → m₀.Sound →
    m₀.Turned p m₁ → P m → P m₁
  /-- An input device ticks. -/
  inputTicks : ∀ {j : Nat} {m m' : Machine}, m.Sound → j < m.jobs.size →
    m.InputTicks j ((m.view j).input.tick m.line
      ((m.view j).input.job?.bind fun _ => (m.view j).source?) m.hardware.files) m' → P m → P m'
  /-- An output device ticks. -/
  outputTicks : ∀ {j : Nat} {m m' : Machine}, m.Sound → j < m.jobs.size →
    m.OutputTicks j ((m.view j).output.tick m.line none m.hardware.files) m' → P m → P m'

/-- What the ticks of single devices keep is kept by `tickDevices`. -/
theorem Persists.tickDevices (h : Persists guard P) (hsound : m.Sound) (hP : P m) :
    P m.tickDevices := by
  refine (tickDevices_induction (P := fun _ m' => m'.Sound ∧ P m') hsound.wired ⟨hsound, hP⟩
    fun j m' hj _ hcontrol ⟨hsound', hP'⟩ => ?_).1.2
  have hj' : j < m'.jobs.size := hj.trans_eq (congrArg Control.size hcontrol).symm
  have hin := tickDevice_inputNumber hsound'.wired hj'
  have hsound₁ := hsound'.inputTicks hj' hin
  have hj₁ : j < (m'.tickDevice (inputNumber j)).jobs.size :=
    hj'.trans_eq (congrArg Control.size hin.control).symm
  have hout := tickDevice_outputNumber hsound₁.wired hj₁
  exact ⟨hsound₁.outputTicks hj₁ hout,
    h.outputTicks hsound₁ hj₁ hout (h.inputTicks hsound' hj' hin hP')⟩

/-- What the phases of a tick keep is kept by `tick`. -/
theorem Persists.tick (h : Persists guard P) (hguard : guard m) (hsound : m.Sound)
    (htick : m.tick = (p, m')) (hP : P m) : P m' := by
  obtain ⟨m₀, m₁, hoffers, hsound₀, hturned, hend⟩ := hsound.ticks htick
  have hP₁ := h.turned hguard hsound hoffers hsound₀ hturned hP
  rcases hend with ⟨_, _, hagrees⟩ | ⟨_, hsound₁, hagrees⟩
  · exact h.agrees hagrees hP₁
  · exact h.agrees hagrees (h.tickDevices hsound₁ hP₁)

/-- What the phases of ticks keep is kept along a run whose machines have the property `guard`. -/
theorem Persists.run (h : Persists guard P) (hsound : first.Sound) (hrun : Run first p past m)
    (hguard : ∀ x ∈ past, guard x) (hfirst : P first) : P m := by
  induction hrun with
  | start => exact hfirst
  | tick hrun htick ih =>
    have hP := ih fun x hx => hguard x (List.mem_cons_of_mem _ hx)
    exact h.tick (hguard _ List.mem_cons_self) ((hrun.sound hsound).2 rfl) htick hP

end Machine

end BatchMachine
