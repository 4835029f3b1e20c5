import BatchMachine.Proofs.Turns

/-!
# What holds of every job

A job that has not been booted is as it was at first, a booted one is bound to its devices, and a
finished one has let go of everything. Whatever a turn of the processor or the ticks of the devices
do to a job, these facts stay true of it.

* `View.Sound`: the facts.
* `View.Sound.entered`, `View.Sound.dismissed`, `View.Sound.asks` and so on: they are kept by every
  change that a turn can make to a job.
-/

namespace BatchMachine

open JobText

namespace Device

variable {d : Device} {j : Nat}

/-- The request that `d` takes depends on its side only. -/
theorem IsOf.request (side : Side) (h : d.IsOf side j) : d.request = side.request := by
  cases side with
  | input =>
    obtain ⟨_, hlink | hlink⟩ := h <;> simp [Device.request, isInput, hlink, Side.request]
  | output =>
    obtain ⟨_, buffer, sink?, hlink⟩ := h
    simp [Device.request, isInput, hlink, Side.request]

theorem IsOf.completion (side : Side) (h : d.IsOf side j) : d.completion = side.completion := by
  cases side with
  | input =>
    obtain ⟨_, hlink | hlink⟩ := h <;> simp [Device.completion, isInput, hlink, Side.completion]
  | output =>
    obtain ⟨_, buffer, sink?, hlink⟩ := h
    simp [Device.completion, isInput, hlink, Side.completion]

@[simp]
theorem trap_withSink (s : Sink) : (d.withSink s).trap = d.trap := by
  unfold withSink
  cases d.link <;> rfl

@[simp]
theorem timer_withSink (s : Sink) : (d.withSink s).timer = d.timer := by
  unfold withSink
  cases d.link <;> rfl

@[simp]
theorem trap_release : d.release.2.trap = d.trap := by
  unfold release
  cases d.link <;> rfl

@[simp]
theorem timer_release : d.release.2.timer = d.timer := by
  unfold release
  cases d.link <;> rfl

@[simp]
theorem job?_release : d.release.2.job? = none := by
  unfold release
  cases d.link <;> rfl

@[simp]
theorem sink?_release : d.release.2.sink? = none := by
  unfold release
  cases d.link <;> rfl

@[simp]
theorem isIdle_release : d.release.2.isIdle = d.isIdle := by
  simp [isIdle]

@[simp]
theorem isIdle_withSink (s : Sink) : (d.withSink s).isIdle = d.isIdle := by
  simp [isIdle]

theorem IsOutputOf.sink?_withSink (h : d.IsOutputOf j) (s : Sink) :
    (d.withSink s).sink? = some s := by
  obtain ⟨_, buffer, sink?, hlink⟩ := h
  unfold Device.withSink
  rw [hlink]
  rfl

/-! ## Ticks of a device -/

/-- If nothing has been asked of `d` it rests. -/
theorem tick_of_isIdle (h : d.isIdle = true) (line : TrapLine) (source? : Option Reader)
    (files : Files) : d.tick line source? files = ⟨d, line, source?, files, none⟩ := by
  simp only [isIdle, Bool.and_eq_true, beq_iff_eq] at h
  rcases tick_cases d line source? files with
    ⟨htrap, _⟩ | ⟨_, ⟨_, htick⟩ | ⟨htimer, _⟩ | ⟨htimer, _⟩ | ⟨htimer, _⟩⟩
  · simp [TrapLine.trap?_eq_none h.1] at htrap
  · exact htick
  · omega
  · omega
  · omega

/-- If `d` is at work it goes on with it, and touches nothing else, until its time is up and the
line is free. Then it makes its transfer. -/
theorem tick_of_busy (h : d.isIdle = false)
    (hrequest : d.trap.isIdle = true ∨ d.trap.trap? = some d.request) (line : TrapLine)
    (source? : Option Reader) (files : Files) :
    (∃ d', d.tick line source? files = ⟨d', line, source?, files, none⟩ ∧ d'.isIdle = false ∧
      ((d.trap.trap? = some d.request ∧ d' = d.capture) ∨
        (d'.trap = d.trap ∧ d'.link = d.link))) ∨
    (line.isIdle = true ∧ d.trap.isIdle = true ∧
      d.tick line source? files = d.transfer source? files) := by
  rcases tick_cases d line source? files with
    ⟨htrap, htick⟩ | ⟨htrap, ⟨htimer, _⟩ | ⟨htimer, htick⟩ | ⟨_, _, htick⟩ | ⟨_, hclear, htick⟩⟩
  · have hpositive : max d.delay 1 ≠ 0 := by omega
    exact .inl ⟨_, htick, by simp [isIdle, capture, hpositive], .inl ⟨htrap, rfl⟩⟩
  · -- with no request and no time left the device would rest
    have hidle := hrequest.resolve_right htrap
    simp [isIdle, hidle, htimer] at h
  · have hpositive : d.timer - 1 ≠ 0 := by omega
    exact .inl ⟨_, htick, by simp [isIdle, hpositive], .inr ⟨rfl, rfl⟩⟩
  · exact .inl ⟨_, htick, h, .inr ⟨rfl, rfl⟩⟩
  · exact .inr ⟨hclear, hrequest.resolve_right htrap, htick⟩

/-- An output device `d` keeps its sink. -/
theorem isSome_sink?_tick (h : d.IsOutputOf j) (line : TrapLine) (source? : Option Reader)
    (files : Files) : (d.tick line source? files).device.sink?.isSome = d.sink?.isSome := by
  obtain ⟨_, buffer, sink?, hlink⟩ := h
  have hcapture : d.capture.sink? = d.sink? := by simp [Device.sink?, capture, hlink]
  have hwrite : (writeWord buffer files sink?).2.1.isSome = sink?.isSome := by
    unfold writeWord
    cases sink? <;> rfl
  have htransfer : (d.transfer source? files).device.sink?.isSome = d.sink?.isSome := by
    unfold transfer
    rw [hlink]
    simpa [Device.sink?, hlink] using hwrite
  rcases tick_cases d line source? files with
    ⟨_, htick⟩ | ⟨_, ⟨_, htick⟩ | ⟨_, htick⟩ | ⟨_, _, htick⟩ | ⟨_, _, htick⟩⟩ <;> rw [htick]
  · rw [hcapture]
  · rfl
  · exact htransfer

end Device

namespace View

variable {v : View} {j : Nat}

/-- Offering the request of job `j` concerns the devices, and the request itself. -/
theorem job_offered (v : View) (j : Nat) :
    ∃ pending?, (v.offered j).job = { v.job with pending? } := by
  rcases v.offered_cases j with hsame | ⟨side, r, _, _, htaken⟩
  · exact ⟨v.job.pending?, by rw [hsame]⟩
  · exact ⟨none, by rw [htaken]⟩

/-- When job `j` has asked for a transfer on the side `side`, it waits, in the segment that it was
in. -/
theorem job_asks (v : View) (j : Nat) (side : Side) (register value : Word) :
    ∃ pending? target?, (v.asks j side register value).job =
      { v.job with life := .waiting, pending?, target? } := by
  cases side with
  | input =>
    obtain ⟨pending?, hjob⟩ :=
      job_offered (v.asking (some register) ⟨inputNumber j, .getw, 0⟩) j
    exact ⟨pending?, some register, hjob⟩
  | output =>
    obtain ⟨pending?, hjob⟩ :=
      job_offered (v.asking v.job.target? ⟨outputNumber j, .putw, value⟩) j
    exact ⟨pending?, v.job.target?, hjob⟩

/-- The job that `v` shows is over: it has let go of its text and its devices and is not waited
for. -/
structure Closed (v : View) : Prop where
  source : v.source? = none
  pending : v.job.pending? = none
  target : v.job.target? = none
  input : v.input.job? = none
  output : v.output.sink? = none
  outcome : v.job.outcome?.isSome = true

/-- The job that `v` shows has not been booted, and is as it was at first. -/
structure Untouched (v : View) : Prop where
  life : v.job.life = .runnable
  segments : v.job.segments = 0
  registers : v.job.registers = .zero
  pending : v.job.pending? = none
  target : v.job.target? = none
  input : v.input.job? = none
  output : v.output.sink? = none

/-- Job `j`, as `v` shows it, has been booted and is bound to its devices. -/
structure Open (v : View) (j : Nat) : Prop where
  input : v.input.job? = some j
  output : v.output.sink?.isSome = true

/-- What holds of every job `j` at all times. -/
structure Sound (v : View) (j : Nat) : Prop where
  owns : v.Owns j
  fits : v.job.image.size ≤ imageLimit
  lines : ∀ side, (v.device side).trap.isIdle = true ∨
    (v.device side).trap.trap? = some side.request
  quiet : v.job.boot = .fresh → ∀ side, (v.device side).isIdle = true
  finished : v.job.life = .finished → v.Closed
  fresh : v.job.boot = .fresh → v.job.life ≠ .finished → v.Untouched
  booted : v.job.boot = .booted → v.job.life ≠ .finished → v.Open j

/-- Only the devices and the request of a job that has one can be pending. -/
theorem Sound.eq_booted (h : v.Sound j) (hlife : v.job.life = .waiting) :
    v.job.boot = .booted := by
  cases hboot : v.job.boot with
  | booted => rfl
  | fresh =>
    have := (h.fresh hboot (by simp [hlife])).life
    rw [hlife] at this
    exact absurd this (by decide)

namespace Sound

/-- A change of the `registers` does not matter once the job is booted. -/
theorem withRegisters (h : v.Sound j) (hboot : v.job.boot = .booted) (registers : Registers) :
    View.Sound { v with job := { v.job with registers } } j where
  owns := h.owns
  fits := h.fits
  lines := h.lines
  quiet := h.quiet
  finished hlife := ⟨(h.finished hlife).source, (h.finished hlife).pending,
    (h.finished hlife).target, (h.finished hlife).input, (h.finished hlife).output,
    (h.finished hlife).outcome⟩
  fresh hfresh := absurd (hboot.symm.trans hfresh) (by decide)
  booted _ hlife := ⟨(h.booted hboot hlife).input, (h.booted hboot hlife).output⟩

/-- The outcome `o` of a job matters only when it is over. -/
theorem withOutcome (h : v.Sound j) (o : Outcome) : (v.withOutcome o).Sound j where
  owns := h.owns
  fits := h.fits
  lines := h.lines
  quiet := h.quiet
  finished hlife := ⟨(h.finished hlife).source, (h.finished hlife).pending,
    (h.finished hlife).target, (h.finished hlife).input, (h.finished hlife).output, rfl⟩
  fresh hfresh hlife := ⟨(h.fresh hfresh hlife).life, (h.fresh hfresh hlife).segments,
    (h.fresh hfresh hlife).registers, (h.fresh hfresh hlife).pending,
    (h.fresh hfresh hlife).target, (h.fresh hfresh hlife).input, (h.fresh hfresh hlife).output⟩
  booted hboot hlife := ⟨(h.booted hboot hlife).input, (h.booted hboot hlife).output⟩

/-- When job `j` has been booted it is bound to its devices. -/
theorem boots (h : v.Sound j) (houtput : v.output.IsOutputOf j) (reader : Reader)
    {image : List Instruction} (himage : image.length ≤ imageLimit) (s : Sink) :
    View.Sound { v.entered j reader image s with
      job := { (v.entered j reader image s).job with boot := .booted } } j where
  owns r hr := by simp [View.entered, View.attached, Job.enter] at hr
  fits := by simpa [View.entered, View.attached, Job.enter] using himage
  lines side := by
    cases side with
    | input => exact h.lines .input
    | output =>
      have := h.lines .output
      simpa only [View.entered, View.attached, View.device, Device.trap_withSink] using this
  quiet hfresh := by simp at hfresh
  finished hlife := by simp [View.entered, View.attached, Job.enter] at hlife
  fresh hfresh := by simp at hfresh
  booted _ _ := by
    refine ⟨rfl, ?_⟩
    simp only [View.entered, View.attached, houtput.sink?_withSink]
    rfl

/-- So it is when it has entered a further segment, whose code is `image`. -/
theorem entered (h : v.Sound j) (houtput : v.output.IsOutputOf j)
    (hboot : v.job.boot = .booted) {reader : Reader} {image : List Instruction}
    (himage : image.length ≤ imageLimit) (o : Outcome) (s : Sink) :
    ((v.withOutcome o).entered j reader image s).Sound j := by
  have hboots := (h.withOutcome o).boots houtput reader himage s
  rw [← hboot] at hboots
  exact hboots

/-- When the job that `v` shows is over it has let go of everything, once its outcome is known. -/
theorem dismissed (h : v.Sound j) (hsome : v.job.outcome?.isSome = true) :
    v.dismissed.Sound j where
  owns r hr := by simp [View.dismissed] at hr
  fits := h.fits
  lines side := by
    cases side with
    | input =>
      simpa only [View.dismissed, View.device, Device.trap_release] using h.lines .input
    | output =>
      simpa only [View.dismissed, View.device, Device.trap_release] using h.lines .output
  quiet hfresh side := by
    cases side with
    | input =>
      simpa only [View.dismissed, View.device, Device.isIdle_release] using h.quiet hfresh .input
    | output =>
      simpa only [View.dismissed, View.device, Device.isIdle_release] using h.quiet hfresh .output
  finished _ := ⟨rfl, rfl, rfl, Device.job?_release, Device.sink?_release, hsome⟩
  fresh _ hlife := absurd rfl hlife
  booted _ hlife := absurd rfl hlife

/-- A job that cannot be booted is over. -/
theorem drops (h : v.Sound j) :
    View.Sound (View.dismissed
      { v with job := { v.job with outcome? := some .bootFailed } }) j :=
  (h.withOutcome .bootFailed).dismissed rfl

/-- The devices of job `j` may change, as long as they stay bound as they are. -/
theorem of_devices {v' : View} (h : v.Sound j) (hjob : v'.job = v.job)
    (hsource : v.input.job? = none → v'.source? = v.source?)
    (hinput : v'.input.job? = v.input.job?)
    (hsink : v'.output.sink?.isSome = v.output.sink?.isSome)
    (hlines : ∀ side, (v'.device side).trap.isIdle = true ∨
      (v'.device side).trap.trap? = some side.request)
    (hquiet : v.job.boot = .fresh → ∀ side, (v'.device side).isIdle = true) : v'.Sound j := by
  -- a device without a sink gets none, since only whether there is one counts here
  have hunbound : v.output.sink? = none → v'.output.sink? = none := by
    intro hnone
    rw [hnone] at hsink
    simpa using hsink
  constructor
  case owns =>
    intro r hr
    rw [hjob] at hr
    exact h.owns r hr
  case fits =>
    rw [hjob]
    exact h.fits
  case lines => exact hlines
  case quiet =>
    rw [hjob]
    exact hquiet
  case finished =>
    rw [hjob]
    intro hlife
    have hclosed := h.finished hlife
    exact ⟨(hsource hclosed.input).trans hclosed.source, hjob ▸ hclosed.pending,
      hjob ▸ hclosed.target, hinput.trans hclosed.input, hunbound hclosed.output,
      hjob ▸ hclosed.outcome⟩
  case fresh =>
    rw [hjob]
    intro hfresh hlife
    have huntouched := h.fresh hfresh hlife
    exact ⟨hjob ▸ huntouched.life, hjob ▸ huntouched.segments, hjob ▸ huntouched.registers,
      hjob ▸ huntouched.pending, hjob ▸ huntouched.target, hinput.trans huntouched.input,
      hunbound huntouched.output⟩
  case booted =>
    rw [hjob]
    intro hboot hlife
    have hopen := h.booted hboot hlife
    exact ⟨hinput.trans hopen.input, hsink.trans hopen.output⟩

/-- The trap line of the device on the side `side` carries nothing, or a request to the device. -/
theorem withTrap (h : v.Sound j) (side : Side) {trap : TrapLine}
    (htrap : trap.isIdle = true ∨ trap.trap? = some side.request)
    (hquiet : v.job.boot = .fresh → trap.isIdle = true) :
    (v.withDevice side { v.device side with trap }).Sound j := by
  have hdevice := v.device_withDevice side
  refine h.of_devices (job_withDevice v side _) (fun _ => ?_) ?_ ?_ (fun side' => ?_)
    fun hfresh side' => ?_
  · cases side <;> rfl
  · cases side <;> rfl
  · cases side <;> rfl
  · rw [hdevice]
    split
    · rename_i hside
      exact hside ▸ htrap
    · exact h.lines side'
  · rw [hdevice]
    have hidle := h.quiet hfresh side'
    split
    · -- nothing is left to do of what the timer counts either
      rename_i hside
      subst hside
      simp only [Device.isIdle, Bool.and_eq_true] at hidle ⊢
      exact ⟨hquiet hfresh, hidle.2⟩
    · exact hidle

theorem acknowledged (h : v.Sound j) (side : Side) : (v.acknowledged side).Sound j :=
  h.withTrap side (.inl rfl) fun _ => rfl

/-- A request that is not held any more is no request of another job. -/
theorem withoutPending (h : v.Sound j) :
    View.Sound { v with job := { v.job with pending? := none } } j where
  owns r hr := by simp at hr
  fits := h.fits
  lines := h.lines
  quiet := h.quiet
  finished hlife := ⟨(h.finished hlife).source, rfl, (h.finished hlife).target,
    (h.finished hlife).input, (h.finished hlife).output, (h.finished hlife).outcome⟩
  fresh hfresh hlife := ⟨(h.fresh hfresh hlife).life, (h.fresh hfresh hlife).segments,
    (h.fresh hfresh hlife).registers, rfl,
    (h.fresh hfresh hlife).target, (h.fresh hfresh hlife).input, (h.fresh hfresh hlife).output⟩
  booted hboot hlife := ⟨(h.booted hboot hlife).input, (h.booted hboot hlife).output⟩

theorem offered (h : v.Sound j) : (v.offered j).Sound j := by
  cases hpending : v.job.pending? with
  | none => simpa [View.offered, hpending] using h
  | some r =>
    obtain ⟨side, hdevice, htrap⟩ := h.owns r hpending
    have hbooted : v.job.boot ≠ .fresh := by
      intro hfresh
      by_cases hlife : v.job.life = .finished
      · rw [(h.finished hlife).pending] at hpending
        simp at hpending
      · rw [(h.fresh hfresh hlife).pending] at hpending
        simp at hpending
    rw [offered_of_device side hpending hdevice]
    split
    · have hrequest : (TrapLine.raise r.trap r.data).trap? = some side.request := by
        rw [TrapLine.trap?_raise, htrap]
      have hoffered := h.withTrap side (.inr hrequest) fun hfresh => absurd hfresh hbooted
      have := hoffered.withoutPending
      rwa [job_withDevice] at this
    · exact h

theorem asking (h : v.Sound j) (hboot : v.job.boot = .booted) (hlife : v.job.life ≠ .finished)
    (target? : Option Word) {r : DeviceRequest}
    (hr : ∃ side : Side, r.device = side.number j ∧ r.trap = side.request) :
    (v.asking target? r).Sound j where
  owns r' hr' := by
    cases hr'
    exact hr
  fits := h.fits
  lines := h.lines
  quiet := h.quiet
  finished hfinished := by simp [View.asking] at hfinished
  fresh hfresh := absurd (hboot.symm.trans hfresh) (by decide)
  booted _ _ := ⟨(h.booted hboot hlife).input, (h.booted hboot hlife).output⟩

theorem asks (h : v.Sound j) (hboot : v.job.boot = .booted) (hlife : v.job.life ≠ .finished)
    (side : Side) (register value : Word) : (v.asks j side register value).Sound j := by
  cases side with
  | input => exact (h.asking hboot hlife _ ⟨.input, rfl, rfl⟩).offered
  | output => exact (h.asking hboot hlife _ ⟨.output, rfl, rfl⟩).offered

/-- A word is delivered to a booted job `j` only, since no other job has named a register. -/
theorem collected (h : v.Sound j) (side : Side) : (v.collected side).Sound j := by
  have hack := h.acknowledged side
  have hjob : (v.acknowledged side).job = v.job := job_withDevice v side _
  -- a job that waited runs on, and no other change of life is made
  have hlife : (v.collected side).job.life = .finished ↔ v.job.life = .finished := by
    cases hlife : v.job.life <;> simp [View.collected, hlife]
  have hsame : ∀ side', (v.collected side).device side' = (v.acknowledged side).device side' := by
    intro side'
    cases side' <;> rfl
  constructor
  case owns =>
    intro r hr
    exact h.owns r hr
  case fits => exact h.fits
  case lines =>
    intro side'
    rw [hsame]
    exact hack.lines side'
  case quiet =>
    intro hfresh side'
    rw [hsame]
    exact hack.quiet (hjob.symm ▸ hfresh) side'
  case finished =>
    intro hover
    have hclosed := hack.finished (hjob.symm ▸ hlife.1 hover)
    exact ⟨hclosed.source, (h.finished (hlife.1 hover)).pending, rfl, hclosed.input,
      hclosed.output, (h.finished (hlife.1 hover)).outcome⟩
  case fresh =>
    intro hfresh hover
    have hunfinished : v.job.life ≠ .finished := fun hf => hover (hlife.2 hf)
    have huntouched := h.fresh hfresh hunfinished
    have hbound := hack.fresh (hjob.symm ▸ hfresh) (hjob.symm ▸ hunfinished)
    -- a fresh job has named no register, so the word goes nowhere
    have hregisters : (v.collected side).job.registers = v.job.registers := by
      unfold View.collected
      rw [huntouched.target]
      cases side <;> rfl
    have hrunnable : (v.collected side).job.life = .runnable := by
      simp [View.collected, huntouched.life]
    exact ⟨hrunnable, huntouched.segments, hregisters.trans huntouched.registers,
      huntouched.pending, rfl, hbound.input, hbound.output⟩
  case booted =>
    intro hboot hover
    have hunfinished : v.job.life ≠ .finished := fun hf => hover (hlife.2 hf)
    have hopen := hack.booted (hjob.symm ▸ hboot) (hjob.symm ▸ hunfinished)
    exact ⟨hopen.input, hopen.output⟩

/-- A tick of the input device. -/
theorem inputTicked (h : v.Sound j) (hinput : v.input.IsInputOf j) (line : TrapLine)
    (files : Files) :
    let t := v.input.tick line (v.input.job?.bind fun _ => v.source?) files
    View.Sound { v with
      input := t.device
      source? := if v.input.job?.isSome then t.source? else v.source? } j := by
  intro t
  refine h.of_devices rfl (fun hnone => ?_) ?_ rfl (fun side => ?_) fun hfresh side => ?_
  · simp [hnone]
  · unfold Device.job?
    rw [hinput.tick.2.1]
  · cases side with
    | input =>
      refine .inl (Device.isIdle_trap_tick ?_ _ _ _)
      rw [Device.IsOf.request .input hinput]
      exact h.lines .input
    | output => exact h.lines .output
  · -- a device with nothing to do does nothing
    cases side with
    | input =>
      have hidle := h.quiet hfresh .input
      have hrest : t = _ := Device.tick_of_isIdle hidle _ _ _
      rw [View.device, hrest]
      exact hidle
    | output => exact h.quiet hfresh .output

/-- A tick of the output device. -/
theorem outputTicked (h : v.Sound j) (houtput : v.output.IsOutputOf j) (line : TrapLine)
    (files : Files) :
    View.Sound { v with output := (v.output.tick line none files).device } j := by
  refine h.of_devices rfl (fun _ => rfl) rfl (Device.isSome_sink?_tick houtput line none files)
    (fun side => ?_) fun hfresh side => ?_
  · cases side with
    | input => exact h.lines .input
    | output =>
      refine .inl (Device.isIdle_trap_tick ?_ _ _ _)
      rw [Device.IsOf.request .output houtput]
      exact h.lines .output
  · cases side with
    | input => exact h.quiet hfresh .input
    | output =>
      have hidle := h.quiet hfresh .output
      have hrest : v.output.tick line none files = _ := Device.tick_of_isIdle hidle _ _ _
      rw [View.device, hrest]
      exact hidle

end Sound

end View

end BatchMachine
