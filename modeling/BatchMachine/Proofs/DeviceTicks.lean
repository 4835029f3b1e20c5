import BatchMachine.Proofs.View

/-!
# What the ticks of the devices do

In every tick the input and the output device of each job tick in turn, job after job. The two
devices of a job change nothing but themselves, the job's text, the trap line of the processor
and the files.

* `Device.tick_cases`: the five things that a device can do in a tick.
* `Device.phase_eq_transfer_iff`: when it makes its transfer.
* `Device.line_transfer`, `Device.device_transfer`: what a transfer does to the processor's line and
  to the device.
* `Machine.SideTicks`: what the tick of a device changes, on either side of a job.
* `Machine.tickPair_spec`: the ticks of the two devices of a job.
* `Machine.tickDevices_induction`: what the pairs of devices do one after the other.
-/

namespace BatchMachine

open JobText

/-- The links of a device before and after it has been bound anew by `bind` or `release`, or left
alone. -/
inductive Link.Rebinds : Link → Link → Prop
  /-- An input device, which reads the text `job?`, reads that of another job, or none. -/
  | input (job? job?' : Option Nat) : Rebinds (.input job?) (.input job?')
  /-- An output device, which writes to `sink?`, writes the same word to another sink, or to
  none. -/
  | output (word : Word) (sink? sink?' : Option Sink) :
    Rebinds (.output word sink?) (.output word sink?')

namespace Link.Rebinds

variable {a b c : Link}

theorem refl (a : Link) : a.Rebinds a := by
  cases a <;> constructor

theorem trans (h : a.Rebinds b) (h' : b.Rebinds c) : a.Rebinds c := by
  cases h <;> cases h' <;> constructor

/-- When `d` is bound anew, an input device remains one, and an output device too. -/
theorem isInput_eq {d d' : Device} (h : d.link.Rebinds d'.link) : d'.isInput = d.isInput := by
  unfold Device.isInput
  generalize d.link = link, d'.link = link' at h
  cases h <;> rfl

end Link.Rebinds

namespace Device

variable {d : Device} {free : Bool} {line : TrapLine} {source? : Option Reader} {files : Files}
  {j : Nat}

/-- `d` is due: its countdown is over, and it has no request to take first. -/
def isDue (d : Device) : Bool :=
  d.timer == 1 && d.trap.trap? != some d.request

/-- In its tick `d` captures a request, counts down, holds its completion back while the processor's
trap line is busy, makes the transfer, or rests. -/
theorem tick_cases (d : Device) (line : TrapLine) (source? : Option Reader) (files : Files) :
    (d.trap.trap? = some d.request ∧
      d.tick line source? files = ⟨d.capture, line, source?, files, none⟩) ∨
    (d.trap.trap? ≠ some d.request ∧
      ((d.timer = 0 ∧ d.tick line source? files = ⟨d, line, source?, files, none⟩) ∨
      (2 ≤ d.timer ∧ d.tick line source? files =
        ⟨{ d with timer := d.timer - 1 }, line, source?, files, none⟩) ∨
      (d.timer = 1 ∧ line.isIdle = false ∧
        d.tick line source? files = ⟨d, line, source?, files, none⟩) ∨
      (d.timer = 1 ∧ line.isIdle = true ∧
        d.tick line source? files = d.transfer source? files))) := by
  unfold tick phase
  by_cases hrequest : d.trap.trap? = some d.request
  · simp [hrequest]
  by_cases hzero : d.timer = 0
  · simp [hrequest, hzero]
  by_cases hone : d.timer = 1
  · cases line.isIdle <;> simp [hrequest, hone]
  · have hmany : 2 ≤ d.timer := by omega
    simp [hrequest, hzero, hone, hmany]

theorem isDue_iff : d.isDue = true ↔ d.timer = 1 ∧ d.trap.trap? ≠ some d.request := by
  simp [isDue]

/-- `d` makes its transfer when it is due and the line is `free`. -/
theorem phase_eq_transfer_iff : d.phase free = .transfer ↔ d.isDue = true ∧ free = true := by
  unfold phase isDue
  by_cases hrequest : d.trap.trap? = some d.request
  · simp [hrequest]
  by_cases hzero : d.timer = 0
  · simp [hrequest, hzero]
  by_cases hone : d.timer = 1
  · cases free <;> simp [hrequest, hone]
  · simp [hrequest, hzero, hone]

/-- The transfer of `d` is signalled with its outcome. -/
theorem line_transfer (d : Device) (source? : Option Reader) (files : Files) :
    (d.transfer source? files).line = d.signal (d.transfer source? files).error?.isNone := by
  unfold transfer
  cases d.link with
  | input job? =>
    simp only
    split <;> rfl
  | output buffer sink? => rfl

/-- The transfer of `d` ends the countdown, and leaves the number of the device, the number on its
line and what it is bound to. -/
theorem device_transfer (d : Device) (source? : Option Reader) (files : Files) :
    (d.transfer source? files).device.timer = 0 ∧
      (d.transfer source? files).device.number = d.number ∧
      (d.transfer source? files).device.trap.number = d.trap.number ∧
      d.link.Rebinds (d.transfer source? files).device.link := by
  unfold transfer
  cases hlink : d.link with
  | input job? =>
    simp only
    split <;> exact ⟨rfl, rfl, rfl, hlink ▸ .refl _⟩
  | output buffer sink? => exact ⟨rfl, rfl, rfl, .output ..⟩

/-- The transfer of `d` leaves the number on the trap line of the device as it is. -/
theorem isIdle_trap_transfer (d : Device) (source? : Option Reader) (files : Files) :
    (d.transfer source? files).device.trap.isIdle = d.trap.isIdle := by
  rw [TrapLine.isIdle, (d.device_transfer source? files).2.2.1, TrapLine.isIdle]

/-- After a tick nothing is left on the trap line of `d`. -/
theorem isIdle_trap_tick (h : d.trap.isIdle = true ∨ d.trap.trap? = some d.request)
    (line : TrapLine) (source? : Option Reader) (files : Files) :
    (d.tick line source? files).device.trap.isIdle = true := by
  rcases tick_cases d line source? files with
    ⟨_, htick⟩ | ⟨htrap, ⟨_, htick⟩ | ⟨_, htick⟩ | ⟨_, _, htick⟩ | ⟨_, _, htick⟩⟩
  · rw [htick]
    rfl
  all_goals
    have hidle := h.resolve_right htrap
    rw [htick]
    first
      | exact hidle
      | rw [isIdle_trap_transfer]
        exact hidle

theorem IsInputOf.tick (h : d.IsInputOf j) :
    (d.tick line source? files).device.IsInputOf j ∧
      (d.tick line source? files).device.link = d.link ∧
      (d.tick line source? files).files = files := by
  obtain ⟨hnumber, hlink⟩ := h
  have htransfer : (d.transfer source? files).device.number = d.number ∧
      (d.transfer source? files).device.link = d.link ∧
      (d.transfer source? files).files = files := by
    unfold transfer
    rcases hlink with hlink | hlink <;> rw [hlink] <;> simp only <;> split <;>
      exact ⟨rfl, rfl, rfl⟩
  -- only an output device takes over the word of the request
  have hcapture : d.capture.link = d.link := by
    unfold capture
    rcases hlink with hlink | hlink <;> simp [hlink]
  rcases tick_cases d line source? files with
    ⟨_, h⟩ | ⟨_, ⟨_, h⟩ | ⟨_, h⟩ | ⟨_, _, h⟩ | ⟨_, _, h⟩⟩ <;> rw [h]
  · exact ⟨⟨hnumber, by rwa [hcapture]⟩, hcapture, rfl⟩
  · exact ⟨⟨hnumber, hlink⟩, rfl, rfl⟩
  · exact ⟨⟨hnumber, hlink⟩, rfl, rfl⟩
  · exact ⟨⟨hnumber, hlink⟩, rfl, rfl⟩
  · exact ⟨⟨htransfer.1.trans hnumber, by rwa [htransfer.2.1]⟩, htransfer.2⟩

theorem IsOutputOf.tick (h : d.IsOutputOf j) :
    (d.tick line source? files).device.IsOutputOf j := by
  obtain ⟨hnumber, buffer, sink?, hlink⟩ := h
  rcases tick_cases d line source? files with
    ⟨_, h⟩ | ⟨_, ⟨_, h⟩ | ⟨_, h⟩ | ⟨_, _, h⟩ | ⟨_, _, h⟩⟩ <;> rw [h]
  · exact ⟨hnumber, d.trap.data, sink?, by simp [capture, hlink]⟩
  · exact ⟨hnumber, buffer, sink?, hlink⟩
  · exact ⟨hnumber, buffer, sink?, hlink⟩
  · exact ⟨hnumber, buffer, sink?, hlink⟩
  · unfold transfer
    rw [hlink]
    exact ⟨hnumber, buffer, _, rfl⟩

end Device

/-- The processor's line is as the device `dev` leaves it. -/
theorem Hardware.cpu_update (hw : Hardware) (dev : Nat) (t : Device.Tick) :
    (hw.update dev t).cpu = { hw.cpu with trap := t.line } := by
  unfold Hardware.update
  cases t.device.job? <;> rfl

namespace Machine

variable {m m' : Machine} {j k : Nat}

/-- The ticks of the two devices of job `j`. -/
def tickPair (m : Machine) (j : Nat) : Machine :=
  (m.tickDevice (inputNumber j)).tickDevice (outputNumber j)

/-- The machine after a tick of the input device of a job that comes to `t`. -/
structure InputTicks (j : Nat) (t : Device.Tick) (m m' : Machine) : Prop where
  wired : m'.Wired
  control : m'.control = m.control
  cpu : m'.hardware.cpu = { m.hardware.cpu with trap := t.line }
  files : m'.hardware.files = m.hardware.files
  view : ∀ k, k ≠ j → m'.view k = m.view k
  ticked : m'.view j =
    { m.view j with
      input := t.device
      source? := if (m.view j).input.job?.isSome then t.source? else (m.view j).source? }

/-- The machine after a tick of the output device of a job that comes to `t`. -/
structure OutputTicks (j : Nat) (t : Device.Tick) (m m' : Machine) : Prop where
  wired : m'.Wired
  control : m'.control = m.control
  cpu : m'.hardware.cpu = { m.hardware.cpu with trap := t.line }
  files : m'.hardware.files = t.files
  view : ∀ k, k ≠ j → m'.view k = m.view k
  ticked : m'.view j = { m.view j with output := t.device }

/-- A tick of the input device of job `j` changes no slot of the job table. -/
theorem InputTicks.job {t : Device.Tick} (h : m.InputTicks j t m') (k : Nat) :
    (m'.view k).job = (m.view k).job := by
  by_cases hk : k = j
  · rw [hk, h.ticked]
  · rw [h.view k hk]

theorem OutputTicks.job {t : Device.Tick} (h : m.OutputTicks j t m') (k : Nat) :
    (m'.view k).job = (m.view k).job := by
  by_cases hk : k = j
  · rw [hk, h.ticked]
  · rw [h.view k hk]

/-- `m'` is `m` after a tick of the device of job `j` on the side `side`, as far as it does not
matter which of the two this is, nor what it does to texts and files. -/
structure SideTicks (side : Side) (j : Nat) (m m' : Machine) : Prop where
  wired : m'.Wired
  control : m'.control = m.control
  view : ∀ k, k ≠ j → m'.view k = m.view k
  job : ∀ k, (m'.view k).job = (m.view k).job
  other : ∀ side', side' ≠ side → (m'.view j).device side' = (m.view j).device side'
  ticked : ∃ source?,
    let t := ((m.view j).device side).tick m.line source? m.hardware.files
    (m'.view j).device side = t.device ∧ m'.hardware.cpu = { m.hardware.cpu with trap := t.line }

theorem SideTicks.size {side : Side} (h : m.SideTicks side j m') : m'.jobs.size = m.jobs.size :=
  congrArg Control.size h.control

theorem InputTicks.sideTicks {source? : Option Reader}
    (h : m.InputTicks j ((m.view j).input.tick m.line source? m.hardware.files) m') :
    m.SideTicks .input j m' where
  wired := h.wired
  control := h.control
  view := h.view
  job := h.job
  other side' hside' := by
    cases side' with
    | input => exact absurd rfl hside'
    | output => rw [h.ticked]; rfl
  ticked := ⟨source?, by rw [h.ticked]; rfl, h.cpu⟩

theorem OutputTicks.sideTicks
    (h : m.OutputTicks j ((m.view j).output.tick m.line none m.hardware.files) m') :
    m.SideTicks .output j m' where
  wired := h.wired
  control := h.control
  view := h.view
  job := h.job
  other side' hside' := by
    cases side' with
    | input => rw [h.ticked]; rfl
    | output => exact absurd rfl hside'
  ticked := ⟨none, by rw [h.ticked]; rfl, h.cpu⟩

/-- The trap line and the files belong to no job. -/
theorem Wired.setLine (w : m.Wired) (line : TrapLine) (files : Files) :
    { m with hardware := { m.hardware.setTrap line with files } }.Wired :=
  ⟨w.devices, w.sources, w.current, w.program, w.saved, w.input, w.output⟩

theorem tickDevice_inputNumber (w : m.Wired) (hj : j < m.jobs.size) :
    m.InputTicks j ((m.view j).input.tick m.line
        ((m.view j).input.job?.bind fun _ => (m.view j).source?) m.hardware.files)
      (m.tickDevice (inputNumber j)) := by
  have hinput := w.input j hj
  have hsource : m.hardware.sourceOf? (m.view j).input =
      (m.view j).input.job?.bind fun _ => (m.view j).source? := by
    unfold Hardware.sourceOf? Device.job?
    rcases hinput.2 with hlink | hlink <;> simp [hlink]
  unfold tickDevice
  rw [device?_inputNumber w hj]
  simp only [hsource, line]
  generalize ht : (m.view j).input.tick m.hardware.cpu.trap
    ((m.view j).input.job?.bind fun _ => (m.view j).source?) m.hardware.files = t
  obtain ⟨hdevice, hlink, hfiles⟩ : t.device.IsInputOf j ∧ t.device.link = (m.view j).input.link ∧
      t.files = m.hardware.files := ht ▸ hinput.tick
  have htouch := touches_setInput w hj hdevice
  -- only a device that is bound puts a reader back
  rcases hinput.2 with hnone | hsome
  · have hjob : t.device.job? = none := by simp [Device.job?, hlink, hnone]
    have hbound : (m.view j).input.job? = none := by simp [Device.job?, hnone]
    have hupdate : m.hardware.update (inputNumber j) t =
        { (m.hardware.setDevice (inputNumber j) t.device).setTrap t.line with
          files := t.files } := by
      simp only [Hardware.update, hjob]
    rw [hupdate]
    have hline := htouch.wired.setLine t.line t.files
    refine ⟨⟨hline.devices, hline.sources, hline.current, hline.program, hline.saved, hline.input,
      hline.output⟩, rfl, rfl, hfiles, fun k hk => ?_, ?_⟩
    · exact (view_setInput w hj t.device).trans (if_neg hk)
    · rw [hbound]
      exact (view_setInput w hj t.device).trans (if_pos rfl)
  · have hjob : t.device.job? = some j := by simp [Device.job?, hlink, hsome]
    have hbound : (m.view j).input.job? = some j := by simp [Device.job?, hsome]
    have hupdate : m.hardware.update (inputNumber j) t =
        { ((m.hardware.setDevice (inputNumber j) t.device).setTrap t.line).setSource j
            t.source? with files := t.files } := by
      simp only [Hardware.update, hjob]
    rw [hupdate]
    have hset := touches_setSource htouch.wired t.source? (htouch.size.symm ▸ hj)
    have hline := hset.wired.setLine t.line t.files
    have hview := view_setSource (k := j) t.source? htouch.wired (htouch.size.symm ▸ hj)
    refine ⟨⟨hline.devices, hline.sources, hline.current, hline.program, hline.saved, hline.input,
      hline.output⟩, rfl, rfl, hfiles, fun k hk => ?_, ?_⟩
    · exact (hset.view k hk).trans (htouch.view k hk)
    · rw [hbound]
      rw [if_pos rfl, view_setInput w hj, if_pos rfl] at hview
      exact hview

theorem tickDevice_outputNumber (w : m.Wired) (hj : j < m.jobs.size) :
    m.OutputTicks j ((m.view j).output.tick m.line none m.hardware.files)
      (m.tickDevice (outputNumber j)) := by
  have houtput := w.output j hj
  have hnone : ∀ d : Device, d.IsOutputOf j → d.job? = none := by
    rintro d ⟨-, buffer, sink?, hlink⟩
    simp [Device.job?, hlink]
  have hsource : m.hardware.sourceOf? (m.view j).output = none := by
    simp [Hardware.sourceOf?, hnone _ houtput]
  unfold tickDevice
  rw [device?_outputNumber w hj]
  simp only [hsource, line]
  generalize ht : (m.view j).output.tick m.hardware.cpu.trap none m.hardware.files = t
  have hdevice : t.device.IsOutputOf j := ht ▸ houtput.tick
  have hupdate : m.hardware.update (outputNumber j) t =
      { (m.hardware.setDevice (outputNumber j) t.device).setTrap t.line with
        files := t.files } := by
    simp only [Hardware.update, hnone _ hdevice]
  rw [hupdate]
  have hline := (touches_setOutput w hj hdevice).wired.setLine t.line t.files
  refine ⟨⟨hline.devices, hline.sources, hline.current, hline.program, hline.saved, hline.input,
    hline.output⟩, rfl, rfl, rfl, fun k hk => ?_, ?_⟩
  · exact (view_setOutput w hj t.device).trans (if_neg hk)
  · exact (view_setOutput w hj t.device).trans (if_pos rfl)

/-- The ticks of the two devices of job `j`, of which the output device sees the trap line as the
input device left it. -/
theorem tickPair_spec (w : m.Wired) (hj : j < m.jobs.size) :
    ∃ m₁ input output, m.InputTicks j input m₁ ∧
      input = (m.view j).input.tick m.line
        ((m.view j).input.job?.bind fun _ => (m.view j).source?) m.hardware.files ∧
      m₁.OutputTicks j output (m.tickPair j) ∧
      output = (m.view j).output.tick input.line none m.hardware.files := by
  have hin := tickDevice_inputNumber w hj
  have hsize : (m.tickDevice (inputNumber j)).jobs.size = m.jobs.size :=
    congrArg Control.size hin.control
  have hout := tickDevice_outputNumber hin.wired (hsize.symm ▸ hj)
  have hline : (m.tickDevice (inputNumber j)).line = ((m.view j).input.tick m.line
      ((m.view j).input.job?.bind fun _ => (m.view j).source?) m.hardware.files).line := by
    rw [line, hin.cpu]
  rw [hin.ticked, hline, hin.files] at hout
  exact ⟨_, _, _, hin, rfl, hout, rfl⟩

/-- What the pairs of devices do one after the other by `tickPair` they do when all devices tick:
`P j` says what holds when those of the first `j` jobs have ticked. -/
theorem tickDevices_induction {P : Nat → Machine → Prop} (w : m.Wired) (base : P 0 m)
    (step : ∀ j m', j < m.jobs.size → m'.Wired → m'.control = m.control → P j m' →
      P (j + 1) (m'.tickPair j)) :
    P m.jobs.size m.tickDevices ∧ m.tickDevices.Wired ∧ m.tickDevices.control = m.control := by
  -- the devices tick by pairs, so the induction is on the number of jobs
  have hfold : ∀ n ≤ m.jobs.size,
      let m' := Nat.fold (2 * n) (fun i _ m => m.tickDevice (i + 1)) m
      P n m' ∧ m'.Wired ∧ m'.control = m.control := by
    intro n
    induction n with
    | zero => exact fun _ => ⟨base, w, rfl⟩
    | succ n ih =>
      intro hn
      obtain ⟨hP, hw, hcontrol⟩ := ih (by omega)
      have hsize : (Nat.fold (2 * n) (fun i _ m => m.tickDevice (i + 1)) m).jobs.size =
        m.jobs.size := congrArg Control.size hcontrol
      have hpair : Nat.fold (2 * (n + 1)) (fun i _ m => m.tickDevice (i + 1)) m =
          (Nat.fold (2 * n) (fun i _ m => m.tickDevice (i + 1)) m).tickPair n := rfl
      simp only [hpair]
      obtain ⟨m₁, input, output, hin, _, hout, _⟩ := tickPair_spec hw (hsize.symm ▸ hn)
      exact ⟨step n _ hn hw hcontrol hP, hout.wired,
        hout.control.trans (hin.control.trans hcontrol)⟩
  unfold tickDevices
  rw [w.devices]
  exact hfold m.jobs.size (Nat.le_refl _)

/-- No job of `m` comes or goes when the devices tick. -/
theorem size_tickDevices (w : m.Wired) : m.tickDevices.jobs.size = m.jobs.size :=
  congrArg Control.size (tickDevices_induction (P := fun _ _ => True) w trivial
    fun _ _ _ _ _ _ => trivial).2.2

end Machine

end BatchMachine
