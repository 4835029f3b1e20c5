import BatchMachine.Proofs.Reachability

/-!
# No wake-up is lost

A job that waits is waited for: its request is with one of its devices, or that device has
signalled that it is done, or an error that is charged to the job is on the processor's line. Such
a wake-up only ever gives way to the next one, until it reaches the job.

* `Machine.Awaited`: a wake-up of a job is on its way.
* `Machine.Awaited.signs`: where it shows, in terms of the lines and the pending requests.
* `Machine.Awaiting`: one is on its way for every job that waits.
* `Machine.no_lost_wakeup`: so it is between the ticks of every run.
-/

namespace BatchMachine

open JobText

namespace View

/-- `View.offered` offers nothing to a device that has something to do. -/
theorem device_offered {v : View} {j : Nat} {side : Side}
    (h : (v.device side).isIdle = false) : (v.offered j).device side = v.device side := by
  rcases v.offered_cases j with hsame | ⟨side', r, _, hidle, htaken⟩
  · rw [hsame]
  · have hne : side ≠ side' := by
      rintro rfl
      rw [h] at hidle
      exact absurd hidle (by decide)
    rw [htaken]
    exact (v.device_withDevice side' side _).trans (if_neg hne)

/-- The request `r`, when it is offered, reaches its device, or the device has something else to
do. -/
theorem isIdle_offered {v : View} {j : Nat} (side : Side) {r : DeviceRequest}
    (h : v.job.pending? = some r) (hdevice : r.device = side.number j) :
    ((v.offered j).device side).isIdle = false := by
  rw [offered_of_device side h hdevice]
  by_cases hidle : (v.device side).isIdle = true
  · rw [if_pos hidle]
    have hraised : ((v.withDevice side
        { v.device side with trap := .raise r.trap r.data }).device side).isIdle = false := by
      rw [v.device_withDevice, if_pos rfl, Device.isIdle, TrapLine.isIdle_raise]
      rfl
    cases side <;> exact hraised
  · rw [if_neg hidle]
    simpa using hidle

theorem isIdle_asks (v : View) (j : Nat) (side : Side) (register value : Word) :
    ((v.asks j side register value).device side).isIdle = false := by
  cases side
  · exact isIdle_offered .input rfl rfl
  · exact isIdle_offered .output rfl rfl

end View

/-- The device `d`, if it has something to do, still has after a tick, or it signals that it is
done. -/
theorem Device.awaits_tick {d : Device} (h : d.isIdle = false)
    (hline : d.trap.isIdle = true ∨ d.trap.trap? = some d.request) (line : TrapLine)
    (source? : Option Reader) (files : Files) :
    (d.tick line source? files).device.isIdle = false ∨
      (line.isIdle = true ∧ ∃ ok, (d.tick line source? files).line = d.signal ok) := by
  rcases tick_of_busy h hline line source? files with
    ⟨d', htick, hbusy, _⟩ | ⟨hclear, _, htick⟩
  · rw [htick]
    exact .inl hbusy
  · rw [htick]
    exact .inr ⟨hclear, _, d.line_transfer source? files⟩

namespace Machine

variable {m m₁ m' : Machine} {j k : Nat}

/-- A wake-up of job `j` is on its way: one of its devices has something to do or has signalled that
it is done, or an error is charged to the job. -/
def Awaited (m : Machine) (j : Nat) : Prop :=
  (∃ side : Side, ((m.view j).device side).isIdle = false) ∨
  (∃ side side' : Side, m.line.trap? = some side'.completion ∧
    m.line.data = .ofCount (side.number j)) ∨
  (m.line.trap? = some .fatal ∧ m.culprit? = some j)

/-- A wake-up is on its way for every job of `m` that waits and whose devices have numbers in the
range of words. -/
def Awaiting (m : Machine) : Prop :=
  ∀ j < m.jobs.size, outputNumber j < 2 ^ 31 → (m.job j).life = .waiting → m.Awaited j

theorem number_lt (side : Side) (h : outputNumber j < 2 ^ 31) : side.number j < 2 ^ 31 := by
  cases side <;> simp only [Side.number, inputNumber, outputNumber] at h ⊢ <;> omega

theorem Awaited.of_view (h : m.Awaited k) (hline : m'.line = m.line)
    (hculprit : m'.culprit? = m.culprit?) (hview : m'.view k = m.view k) : m'.Awaited k := by
  unfold Awaited
  rw [hline, hculprit, hview]
  exact h

/-- A wake-up on the processor's line concerns the job that the turn is about, and one of another
job `k` is in a device. -/
theorem Awaited.device (h : m.Awaited k) (w : m.Wired) (hk : k < m.jobs.size)
    (hfits : outputNumber k < 2 ^ 31) (hsubject : m.subject? ≠ some k) :
    ∃ side : Side, ((m.view k).device side).isIdle = false := by
  rcases h with hdevice | ⟨side, side', htrap, hdata⟩ | ⟨htrap, hculprit⟩
  · exact hdevice
  · have hindex : Word.index? m.line.data = some (side.number k) := by
      rw [hdata]
      exact Word.index?_ofCount (number_lt side hfits)
    rw [subject?_of_completion htrap, completedBy?_number w hk hindex] at hsubject
    exact absurd rfl hsubject
  · rw [subject?_of_fatal htrap, hculprit] at hsubject
    exact absurd rfl hsubject

/-- A turn from `m` to `m'` takes a wake-up to job `k`, or leaves it on its way. -/
theorem Move.awaited (h : m.Sound) (hk : k < m.jobs.size) (hfits : outputNumber k < 2 ^ 31)
    (hawaiting : m.Awaiting) (hmove : m.Move m' k) (hlife : (m'.job k).life = .waiting) :
    m'.Awaited k := by
  have hruns : m.runs k = true → (m.job k).life ≠ .waiting := by
    intro hrun hwaiting
    rw [(h.of_runs hrun).1] at hwaiting
    exact absurd hwaiting (by decide)
  rw [← view_life] at hlife
  cases hmove with
  | shifts hsubject hshift =>
    cases hshift with
    | stays hview =>
      -- what is on the line is served in this turn, and it is for somebody else
      rw [hview] at hlife
      obtain ⟨side, hbusy⟩ := (hawaiting k hk hfits hlife).device h.wired hk hfits hsubject
      exact .inl ⟨side, by rw [hview]; exact hbusy⟩
    | boots _ _ _ _ _ _ _ _ hview =>
      rw [hview] at hlife
      simp [View.started, View.entered, View.attached, Job.enter] at hlife
    | drops _ _ _ _ hview =>
      rw [hview] at hlife
      simp [View.dropped, View.dismissed] at hlife
  | steps _ hrun _ _ _ hview =>
    rw [hview] at hlife
    exact absurd hlife (hruns hrun)
  | rejects hrun _ _ _ hview =>
    rw [hview] at hlife
    exact absurd hlife (hruns hrun)
  | reloads _ _ _ _ _ hview =>
    rw [hview] at hlife
    simp [View.entered, View.attached, Job.enter] at hlife
  | retires _ _ hview =>
    rw [hview] at hlife
    simp [View.dismissed] at hlife
  -- the device has taken the request and counts down
  | @asks side value _ _ _ hview =>
    exact .inl ⟨side, by rw [hview]; exact View.isIdle_asks _ _ _ _ _⟩
  -- the failure is still on its way, now as an error that is charged to the job
  | fails _ _ hline hculprit =>
    exact .inr (.inr ⟨by rw [hline, TrapLine.trap?_raise], hculprit⟩)
  | collects _ _ hview =>
    rw [hview] at hlife
    simp only [View.collected] at hlife
    split at hlife
    · simp at hlife
    · rename_i hwaiting
      exact absurd hlife hwaiting

theorem Turned.awaiting {p : Progress} (h : m.Sound) (hawaiting : m.Awaiting)
    (hturned : m.Turned p m') : m'.Awaiting := by
  intro k hk hfits hlife
  have hk' : k < m.jobs.size := hturned.size ▸ hk
  exact (hturned.move k hk').awaited h hk' hfits hawaiting hlife

theorem Offers.awaiting (hawaiting : m.Awaiting) (hoffers : m.Offers m') : m'.Awaiting := by
  intro k hk hfits hlife
  have hk' : k < m.jobs.size := hoffers.size ▸ hk
  have hculprit : m'.culprit? = m.culprit? := congrArg Control.culprit? hoffers.control
  obtain ⟨pending?, hjob⟩ := View.job_offered (m.view k) k
  rw [← view_life, hoffers.view k hk', hjob] at hlife
  rcases hawaiting k hk' hfits hlife with ⟨side, hbusy⟩ | hline
  · refine .inl ⟨side, ?_⟩
    rw [hoffers.view k hk', View.device_offered hbusy]
    exact hbusy
  · refine .inr ?_
    rw [hoffers.line, hculprit]
    exact hline

/-! ## The ticks of the devices -/

/-- A wake-up of job `k` on the processor's line stays there when a device ticks. -/
theorem Awaited.of_tick (h : m.Awaited k) (hculprit : m'.culprit? = m.culprit?)
    (hline : m'.line = m.line ∨ m.line.isIdle = true)
    (hdevice : ∀ side : Side, ((m.view k).device side).isIdle = false → m'.Awaited k) :
    m'.Awaited k := by
  -- a device signals only on a free line
  have hkept : ∀ {trap : Trap}, m.line.trap? = some trap → m'.line = m.line := fun htrap =>
    hline.resolve_right (TrapLine.not_isIdle htrap)
  rcases h with ⟨side, hbusy⟩ | ⟨side, side', htrap, hdata⟩ | ⟨htrap, hcharged⟩
  · exact hdevice side hbusy
  · have hsame := hkept htrap
    exact .inr (.inl ⟨side, side', hsame.symm ▸ htrap, hsame.symm ▸ hdata⟩)
  · have hsame := hkept htrap
    exact .inr (.inr ⟨hsame.symm ▸ htrap, hculprit.trans hcharged⟩)

/-- What the device `d` signals is a wake-up of its job `j`. -/
theorem awaited_of_signal (side : Side) {d : Device} (hd : d.IsOf side j) {ok : Bool}
    (hline : m.line = d.signal ok) : m.Awaited j := by
  obtain ⟨htrap, hdata⟩ := trap?_signal side hd ok
  exact .inr (.inl ⟨side, side, hline.symm ▸ htrap, hline.symm ▸ hdata⟩)

/-- A tick of a device of job `j` leaves every wake-up on its way, that of job `k`, too. -/
theorem SideTicks.awaited {side : Side} (h : m.Sound) (hj : j < m.jobs.size)
    (hticks : m.SideTicks side j m') (hawaited : m.Awaited k) : m'.Awaited k := by
  obtain ⟨source?, hdevice, hcpu⟩ := hticks.ticked
  have hline : m'.line = _ := congrArg Processor.trap hcpu
  refine hawaited.of_tick (congrArg Control.culprit? hticks.control) ?_ fun side' hbusy => ?_
  · rw [hline]
    exact (line_tick _ _ _ _).imp id fun hsignal => hsignal.1
  by_cases hk : k = j
  · subst hk
    by_cases hside : side' = side
    · -- the device that ticks goes on with what it has to do, or signals that it is done
      subst hside
      have hrequest := (h.job k hj).lines side'
      rw [← Device.IsOf.request side' (h.wired.isOf hj side')] at hrequest
      rcases Device.awaits_tick hbusy hrequest m.line source? m.hardware.files with
        hstill | ⟨_, ok, hsignal⟩
      · refine .inl ⟨side', ?_⟩
        rw [hdevice]
        exact hstill
      · exact awaited_of_signal side' (h.wired.isOf hj side') (hline.trans hsignal)
    · refine .inl ⟨side', ?_⟩
      rw [hticks.other side' hside]
      exact hbusy
  · refine .inl ⟨side', ?_⟩
    rw [hticks.view k hk]
    exact hbusy

/-- Nothing is left on the trap lines of the devices of the first `n` jobs. -/
def Cleared (n : Nat) (m : Machine) : Prop :=
  ∀ k < n, ∀ side : Side, ((m.view k).device side).trap.isIdle = true

/-- `tickPair` leaves every wake-up on its way, and nothing on the trap lines of the devices of job
`j`. -/
theorem Sound.tickPair_awaiting (h : m.Sound) (hj : j < m.jobs.size) (hawaiting : m.Awaiting)
    (hcleared : Cleared j m) : (m.tickPair j).Awaiting ∧ Cleared (j + 1) (m.tickPair j) := by
  have hin := tickDevice_inputNumber h.wired hj
  have hsound := h.inputTicks hj hin
  have hsize : (m.tickDevice (inputNumber j)).jobs.size = m.jobs.size :=
    congrArg Control.size hin.control
  have hj' : j < (m.tickDevice (inputNumber j)).jobs.size := hsize.symm ▸ hj
  have hout := tickDevice_outputNumber hsound.wired hj'
  refine ⟨fun k hk hfits hlife => ?_, fun k hk side => ?_⟩
  · have hk' : k < m.jobs.size :=
      (hk.trans_eq (congrArg Control.size hout.control)).trans_eq hsize
    have hlife' : (m.job k).life = .waiting := by
      have hjob := (hout.job k).trans (hin.job k)
      rw [← view_life, ← hjob]
      exact hlife
    exact hout.sideTicks.awaited hsound hj'
      (hin.sideTicks.awaited h hj (hawaiting k hk' hfits hlife'))
  -- the devices of `j` have just ticked, and those before them have been cleared already
  · by_cases hkj : k = j
    · subst hkj
      have hinput : ((m.tickPair k).view k).input =
          ((m.tickDevice (inputNumber k)).view k).input := by
        rw [Machine.tickPair, hout.ticked]
      cases side with
      | input =>
        rw [View.device, hinput, hin.ticked]
        refine Device.isIdle_trap_tick ?_ _ _ _
        rw [Device.IsOf.request .input (h.wired.input k hj)]
        exact (h.job k hj).lines .input
      | output =>
        rw [View.device, Machine.tickPair, hout.ticked]
        refine Device.isIdle_trap_tick ?_ _ _ _
        rw [Device.IsOf.request .output (hsound.wired.output k hj')]
        exact (hsound.job k hj').lines .output
    · rw [Machine.tickPair, hout.view k hkj, hin.view k hkj]
      exact hcleared k (by omega) side

theorem Sound.tickDevices_awaiting (h : m.Sound) (hawaiting : m.Awaiting) :
    m.tickDevices.Awaiting ∧ Cleared m.jobs.size m.tickDevices := by
  refine (tickDevices_induction (P := fun n m' => m'.Sound ∧ m'.Awaiting ∧ Cleared n m') h.wired
    ⟨h, hawaiting, fun k hk => absurd hk (Nat.not_lt_zero k)⟩ ?_).1.2
  intro j m' hj _ hcontrol ⟨hsound, hawaiting', hcleared⟩
  have hj' : j < m'.jobs.size := hj.trans_eq (congrArg Control.size hcontrol).symm
  exact ⟨(hsound.tickPair hj').1, hsound.tickPair_awaiting hj' hawaiting' hcleared⟩

/-! ## Runs -/

theorem Awaiting.agrees (h : m.Awaiting) (hagrees : m.Agrees m') : m'.Awaiting := by
  intro k hk hfits hlife
  rw [hagrees.job] at hlife
  exact (h k (hagrees.size ▸ hk) hfits hlife).of_view hagrees.line
    (congrArg Control.culprit? hagrees.control) hagrees.view

/-- `tick` leaves every wake-up on its way, and nothing on the trap lines of the devices. -/
theorem Sound.tick_awaiting (h : m.Sound) (hawaiting : m.Awaiting)
    (htick : m.tick = (.running, m')) : m'.Awaiting ∧ Cleared m'.jobs.size m' := by
  obtain ⟨m₀, m₁, hoffers, hsound₀, hturned, ⟨_, hexit, _⟩ | ⟨_, hsound₁, hagrees⟩⟩ :=
    h.ticks htick
  · simp at hexit
  · obtain ⟨hawaiting', hcleared⟩ :=
      hsound₁.tickDevices_awaiting (hturned.awaiting hsound₀ (hoffers.awaiting hawaiting))
    refine ⟨hawaiting'.agrees hagrees, fun k hk side => ?_⟩
    rw [hagrees.view]
    refine hcleared k ?_ side
    exact (hk.trans_eq hagrees.size).trans_eq (size_tickDevices hsound₁.wired)

/-- While nothing is on the trap lines of the devices, the wake-up of job `j` shows in a countdown
or on the processor's line. -/
theorem Awaited.signs (h : m.Awaited j) (w : m.Wired) (hcleared : Cleared m.jobs.size m)
    (hj : j < m.jobs.size) (hfits : outputNumber j < 2 ^ 31) :
    (∃ dev d, (dev = inputNumber j ∨ dev = outputNumber j) ∧
      m.hardware.device? dev = some d ∧ 0 < d.timer) ∨
    ((m.line.number = Trap.getwReady.code ∨ m.line.number = Trap.putwReady.code) ∧
      (m.line.data.toInt = inputNumber j ∨ m.line.data.toInt = outputNumber j)) ∨
    (m.line.number = Trap.fatal.code ∧ m.culprit? = some j) := by
  have hnumber : ∀ side : Side, side.number j = inputNumber j ∨ side.number j = outputNumber j
    | .input => .inl rfl
    | .output => .inr rfl
  rcases h with ⟨side, hbusy⟩ | ⟨side, side', htrap, hdata⟩ | ⟨htrap, hculprit⟩
  · have hclear := hcleared j hj side
    have htimer : 0 < ((m.view j).device side).timer := by
      simp only [Device.isIdle, hclear, Bool.true_and, beq_eq_false_iff_ne] at hbusy
      omega
    exact .inl ⟨side.number j, _, hnumber side, device?_number w hj side, htimer⟩
  · refine .inr (.inl ⟨?_, ?_⟩)
    · rw [TrapLine.number_eq htrap]
      cases side'
      · exact .inl rfl
      · exact .inr rfl
    · have hindex := Word.index?_eq_some_iff.1
        (hdata ▸ Word.index?_ofCount (number_lt side hfits))
      rw [hindex]
      exact (hnumber side).imp (congrArg _) (congrArg _)
  · exact .inr (.inr ⟨TrapLine.number_eq htrap, hculprit⟩)

section Launch

variable {jobs : List (Job × Option Reader)} {config : Config} {files : Files} {journal : Journal}
  {first : Machine}

/-- No job waits when `first` has started, and nothing has been asked of any device. -/
theorem Launches.awaiting (h : Launches jobs config files journal first) :
    first.Awaiting ∧ Cleared first.jobs.size first := by
  have hshift : ∀ j < jobs.length,
      (first.job j).life ≠ .waiting ∧
        ∀ side : Side, ((first.view j).device side).trap.isIdle = true := by
    intro j hj
    obtain ⟨index, origin, path?, hview⟩ := exists_view_new config files journal h.1 hj
    rw [← view_life]
    cases h.shift hj with
    | stays hsame =>
      rw [hsame, hview]
      exact ⟨by simp [Job.new], fun side => by cases side <;> rfl⟩
    | boots _ _ _ _ _ _ _ _ hstarted =>
      rw [hstarted, hview]
      exact ⟨by simp [View.started, View.entered, View.attached, Job.enter],
        fun side => by cases side <;> rfl⟩
    | drops _ _ _ _ hdropped =>
      rw [hdropped, hview]
      exact ⟨by simp [View.dropped, View.dismissed], fun side => by cases side <;> rfl⟩
  refine ⟨fun j hj _ hlife => ?_, fun j hj => (hshift j (h.size ▸ hj)).2⟩
  exact absurd hlife (hshift j (h.size ▸ hj)).1

theorem Run.awaiting (h : Launches jobs config files journal first) {past : List Machine}
    {p : Progress} (hrun : Run first p past m) (hp : p = .running) :
    m.Awaiting ∧ Cleared m.jobs.size m := by
  induction hrun with
  | start => exact h.awaiting
  | tick hrun htick ih =>
    subst hp
    exact ((hrun.sound h.sound).2 rfl).tick_awaiting (ih rfl).1 htick

/-- No wake-up is lost: between the ticks of a run nothing is on the trap line of any device, and
for every job that waits one of its devices counts down, or the processor's line says that one is
done, or it carries an error that is charged to the job. (The word that names the device has room
for its number if the machine has fewer than `2 ^ 30` jobs.) So the processor never idles with all
devices at rest and nothing on its line. -/
theorem no_lost_wakeup (hlaunch : Launches jobs config files journal first)
    {past : List Machine} (hrun : Run first .running past m) :
    (∀ dev d, m.hardware.device? dev = some d → d.trap.number = 0) ∧
    (∀ j < jobs.length, outputNumber j < 2 ^ 31 → (m.job j).life = .waiting →
      (∃ dev d, (dev = inputNumber j ∨ dev = outputNumber j) ∧
        m.hardware.device? dev = some d ∧ 0 < d.timer) ∨
      ((m.line.number = Trap.getwReady.code ∨ m.line.number = Trap.putwReady.code) ∧
        (m.line.data.toInt = inputNumber j ∨ m.line.data.toInt = outputNumber j)) ∨
      (m.line.number = Trap.fatal.code ∧ m.culprit? = some j)) ∧
    (2 * jobs.length < 2 ^ 31 → m.idle = true →
      (∀ dev d, m.hardware.device? dev = some d → d.timer = 0) → m.line.number ≠ 0) := by
  have hsound : m.Sound := (hrun.sound hlaunch.sound).2 rfl
  obtain ⟨hawaiting, hcleared⟩ := hrun.awaiting hlaunch rfl
  have hsize : m.jobs.size = jobs.length := by
    rw [(hrun.lasts hlaunch.sound hlaunch.sound.wired.current).1, hlaunch.size]
  refine ⟨fun dev d hdev => ?_, fun j hj hfits hlife => ?_, fun hfew hidle hquiet hclear => ?_⟩
  · obtain ⟨j, hj, side, rfl, rfl⟩ := hsound.wired.exists_device hdev
    simpa [TrapLine.isIdle] using hcleared j hj side
  · have hj' : j < m.jobs.size := hsize.symm ▸ hj
    exact (hawaiting j hj' hfits hlife).signs hsound.wired hcleared hj' hfits
  · -- a job that waits while the processor idles would show one of these signs
    obtain ⟨j, hj, hlife⟩ := (hsound.resting hidle).waiter
    have hfits : outputNumber j < 2 ^ 31 := by
      simp only [outputNumber]
      omega
    rcases (hawaiting j hj hfits hlife).signs hsound.wired hcleared hj hfits with
      ⟨dev, d, _, hdev, htimer⟩ | ⟨hcode, _⟩ | ⟨hcode, _⟩
    · rw [hquiet dev d hdev] at htimer
      exact absurd htimer (Nat.lt_irrefl 0)
    · rw [hclear] at hcode
      exact absurd hcode (by decide)
    · rw [hclear] at hcode
      exact absurd hcode (by decide)

/-- Five ticks after the start of two jobs that read a word, the first one waits for its input
device. -/
theorem no_lost_wakeup_echo :
    ((tickUpTo 5 echoFirst).2.job 0).life = .waiting ∧
      ∃ dev d, (tickUpTo 5 echoFirst).2.hardware.device? dev = some d ∧ 0 < d.timer := by
  obtain ⟨past, hrun, _⟩ := run_of_tickUpTo (m := echoFirst) (n := 5) (by decide +kernel)
  have hwaits : ((tickUpTo 5 echoFirst).2.job 0).life = .waiting := by decide +kernel
  have hclear : (tickUpTo 5 echoFirst).2.line.number = 0 := by decide +kernel
  refine ⟨hwaits, ?_⟩
  rcases (no_lost_wakeup launches_echo hrun).2.1 0 (by decide) (by decide) hwaits with
    ⟨dev, d, _, hdev, htimer⟩ | ⟨hcode, _⟩ | ⟨hcode, _⟩
  · exact ⟨dev, d, hdev, htimer⟩
  · rw [hclear] at hcode
    exact absurd hcode (by decide)
  · rw [hclear] at hcode
    exact absurd hcode (by decide)

end Launch

end Machine

end BatchMachine
