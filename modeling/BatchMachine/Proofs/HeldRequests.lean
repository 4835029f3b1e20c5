import BatchMachine.Proofs.Finality

/-!
# A word that is read, and a request that is held

A word that an input device has read stays on the device's trap line until it is fetched, and a
request that finds its device at work is held and offered again in every tick. When a device has
just read a word its countdown is over, so that it passes for one with nothing to do. A held request
that is offered to it then takes the place of the word, and fetching the word clears the request.

* `Machine.device?_of_tick_running`: in a tick every device ticks once.
* `Machine.HasRead`: a word that has just been read.
* `Machine.Completes.view_served`, `Machine.Sound.output_kept`: what fetching it does to the job,
  and to a request for output.
* `Machine.read_word_fetched`: what becomes of the word, and of a request that is held.
* `Machine.held_request_overwrites`: a word that is lost together with the request behind it.
-/

namespace BatchMachine

open JobText

namespace View

variable {v : View} {j : Nat} {r : DeviceRequest}

/-- If the request of `v` is offered, it is held on, or it is taken. -/
theorem pending?_offered (v : View) (j : Nat) :
    (v.offered j).job.pending? = v.job.pending? ∨ (v.offered j).job.pending? = none := by
  rcases v.offered_cases j with hsame | ⟨side, r, _, _, htaken⟩
  · exact .inl (by rw [hsame])
  · exact .inr (by rw [htaken])

/-- The device on the side `side`, for which no request is held, is left alone. -/
theorem device_offered_of_ne (side : Side) (hown : v.Owns j)
    (h : ∀ r, v.job.pending? = some r → r.device ≠ side.number j) :
    (v.offered j).device side = v.device side := by
  cases hpending : v.job.pending? with
  | none => simp [offered, hpending]
  | some r =>
    obtain ⟨side', hdevice, _⟩ := hown r hpending
    have hne : side ≠ side' := by
      rintro rfl
      exact h r hpending hdevice
    rw [offered_of_device side' hpending hdevice]
    split
    · exact (v.device_withDevice side' side _).trans (if_neg hne)
    · rfl

/-- Job `j` fetches the word that its input device holds into `register`, if no request is held for
this device. -/
theorem collected_offered {register : Word} (hown : v.Owns j)
    (h : ∀ r, v.job.pending? = some r → r.device ≠ inputNumber j)
    (htarget : v.job.target? = some register) :
    ((v.offered j).collected .input).job.registers =
      v.job.registers.set register v.input.trap.data := by
  obtain ⟨pending?, hjob⟩ := v.job_offered j
  have hinput : (v.offered j).input = v.input := device_offered_of_ne .input hown h
  simp only [collected, hjob, htarget, hinput]

/-- A request `r` that is held for the input device takes the place of the word, if the device has
nothing to do, and is cleared when the job fetches this. -/
theorem collected_offered_of_held {register : Word} (hpending : v.job.pending? = some r)
    (hdevice : r.device = inputNumber j) (hidle : v.input.isIdle = true)
    (htarget : v.job.target? = some register) :
    ((v.offered j).collected .input).job.registers = v.job.registers.set register r.data ∧
      ((v.offered j).collected .input).job.life =
        (if v.job.life = .waiting then .runnable else v.job.life) ∧
      ((v.offered j).collected .input).job.pending? = none ∧
      ((v.offered j).collected .input).input.isIdle = true := by
  rw [offered_of_device .input hpending hdevice,
    if_pos (show (v.device .input).isIdle = true from hidle)]
  have htimer : v.input.timer = 0 := by
    simpa [Device.isIdle] using (Bool.and_eq_true_iff.1 hidle).2
  refine ⟨?_, rfl, rfl, ?_⟩
  · simp only [collected, htarget]
    rfl
  · simp [collected, acknowledged, withDevice, device, Device.isIdle, htimer]

/-- A request `r` that is held for the device on the side `side` is held on, or the device has taken
it. -/
theorem pending?_offered_of_device (side : Side) (hpending : v.job.pending? = some r)
    (hdevice : r.device = side.number j) :
    (v.offered j).job.pending? = some r ∨
      ((v.offered j).device side).trap = .raise r.trap r.data := by
  rw [offered_of_device side hpending hdevice]
  split
  · refine .inr ?_
    cases side <;> rfl
  · exact .inl hpending

/-! ## Requests for input -/

/-- A request of job `j` for an input word that is held brings no word along. -/
def HoldsBlank (v : View) (j : Nat) : Prop :=
  ∀ r, v.job.pending? = some r → r.device = inputNumber j → r.data = 0

theorem holdsBlank_of_none (h : v.job.pending? = none) : v.HoldsBlank j := by
  intro r hr
  rw [h] at hr
  simp at hr

theorem HoldsBlank.of_pending {v' : View} (h : v.HoldsBlank j)
    (hsame : v'.job.pending? = v.job.pending?) : v'.HoldsBlank j :=
  fun r hr => h r (hsame ▸ hr)

theorem HoldsBlank.offered (h : v.HoldsBlank j) : (v.offered j).HoldsBlank j := by
  rcases pending?_offered v j with hsame | hnone
  · exact h.of_pending hsame
  · exact holdsBlank_of_none hnone

theorem holdsBlank_asks (v : View) (side : Side) (register value : Word) :
    (v.asks j side register value).HoldsBlank j := by
  cases side with
  | input =>
    refine HoldsBlank.offered fun r hr _ => ?_
    obtain rfl : (⟨inputNumber j, .getw, 0⟩ : DeviceRequest) = r := Option.some.inj hr
    rfl
  | output =>
    refine HoldsBlank.offered fun r hr hdevice => ?_
    -- a request to write is not for the input device
    obtain rfl : (⟨outputNumber j, .putw, value⟩ : DeviceRequest) = r := Option.some.inj hr
    simp [outputNumber, inputNumber] at hdevice

end View

namespace Machine

variable {m m₀ m₁ m' : Machine} {j k n dev : Nat} {p : Progress} {d : Device} {w : Word}

/-! ## The devices in a tick -/

theorem device?_zero (hw : Hardware) : hw.device? 0 = none := by
  simp [Hardware.device?]

/-- In its tick the device `dev` changes no other. -/
theorem device?_tickDevice (m : Machine) (dev e : Nat) :
    (m.tickDevice dev).hardware.device? e =
      if e = dev then (m.hardware.device? e).map fun d =>
        (d.tick m.line (m.hardware.sourceOf? d) m.hardware.files).device
      else m.hardware.device? e := by
  -- the update also touches the line, the text and the files, but no other device
  have hupdate : ∀ (hw : Hardware) (t : Device.Tick), dev ≠ 0 →
      (hw.update dev t).device? e =
        if e = dev then (hw.device? e).map fun _ => t.device else hw.device? e := by
    intro hw t hdev
    rw [← device?_setDevice hw hdev]
    unfold Hardware.update
    cases t.device.job? <;> rfl
  unfold tickDevice
  cases hdevice : m.hardware.device? dev with
  | none =>
    by_cases heq : e = dev
    · rw [if_pos heq, heq, hdevice, Option.map_none]
    · rw [if_neg heq]
  | some d =>
    have hdev : dev ≠ 0 := by
      rintro rfl
      rw [device?_zero] at hdevice
      simp at hdevice
    refine (hupdate _ _ hdev).trans ?_
    split
    case isTrue heq => rw [heq, hdevice]; rfl
    case isFalse => rfl

/-- When the first `n` devices tick, each of them ticks once. -/
theorem device?_tickFirst (m : Machine) (dev n : Nat) :
    (m.tickFirst n).hardware.device? (dev + 1) =
      if dev < n then (m.hardware.device? (dev + 1)).map fun d =>
        (d.tick (m.tickFirst dev).line ((m.tickFirst dev).hardware.sourceOf? d)
          (m.tickFirst dev).hardware.files).device
      else m.hardware.device? (dev + 1) := by
  induction n with
  | zero => rfl
  | succ n ih =>
    rw [tickFirst_succ, device?_tickDevice, ih]
    by_cases heq : dev = n
    · subst heq
      simp
    · by_cases hlt : dev < n
      · rw [if_neg (by omega), if_pos hlt, if_pos (by omega)]
      · rw [if_neg (by omega), if_neg hlt, if_neg (by omega)]

/-- In a tick the device `d` ticks once, after the turn of the processor. -/
theorem device?_of_tick_running (htick : m.tick = (.running, m'))
    (hd : m.served.hardware.device? (dev + 1) = some d) :
    m'.hardware.device? (dev + 1) =
      some (d.tick (m.served.tickFirst dev).line ((m.served.tickFirst dev).hardware.sourceOf? d)
        (m.served.tickFirst dev).hardware.files).device := by
  have hlt : dev < m.served.hardware.devices.size := by
    simp only [Hardware.device?, Nat.add_one_ne_zero, if_false, Nat.add_sub_cancel] at hd
    exact (Array.getElem?_eq_some_iff.1 hd).1
  rw [eq_of_tick_running htick]
  refine (device?_tickFirst _ _ _).trans ?_
  rw [if_pos hlt, hd]
  rfl

/-- After an exit the device `d` does not tick. -/
theorem device?_of_tick (htick : m.tick = (p, m'))
    (hd : m.served.hardware.device? (dev + 1) = some d) :
    m'.hardware.device? (dev + 1) = some d ∨ ∃ line source? files,
      m'.hardware.device? (dev + 1) = some (d.tick line source? files).device := by
  cases p with
  | exited status =>
    rw [eq_of_tick_exited htick]
    exact .inl hd
  | running => exact .inr ⟨_, _, _, device?_of_tick_running htick hd⟩

/-- If `d` takes a request it has something to do. -/
theorem isIdle_tick_of_request (h : d.trap.trap? = some d.request) (line : TrapLine)
    (source? : Option Reader) (files : Files) :
    (d.tick line source? files).device.isIdle = false := by
  have hpositive : max d.delay 1 ≠ 0 := by omega
  rcases Device.tick_cases d line source? files with ⟨_, htick⟩ | ⟨hnone, _⟩
  · rw [htick]
    simp [Device.isIdle, Device.capture, hpositive]
  · exact absurd h hnone

/-- If a request is on the trap line of the device `d` after the turn of the processor, it has
something to do after the tick. -/
theorem exists_busy_of_tick (htick : m.tick = (p, m'))
    (hd : m.served.hardware.device? (dev + 1) = some d) (hrequest : d.trap.trap? = some d.request) :
    ∃ d', m'.hardware.device? (dev + 1) = some d' ∧ d'.isIdle = false := by
  rcases device?_of_tick htick hd with hsame | ⟨line, source?, files, hticked⟩
  · refine ⟨_, hsame, ?_⟩
    rw [Device.isIdle, TrapLine.isIdle_eq_false hrequest]
    rfl
  · exact ⟨_, hticked, isIdle_tick_of_request hrequest _ _ _⟩

/-- If the device `d` has nothing to do after the turn of the processor, it is left as it is. -/
theorem device?_of_tick_of_isIdle (htick : m.tick = (p, m'))
    (hd : m.served.hardware.device? (dev + 1) = some d) (hidle : d.isIdle = true) :
    m'.hardware.device? (dev + 1) = some d := by
  rcases device?_of_tick htick hd with hsame | ⟨line, source?, files, hticked⟩
  · exact hsame
  · rwa [Device.tick_of_isIdle hidle] at hticked

/-! ## A word that has just been read -/

/-- In the tick of `m₁` the input device of a job has read a word, which it holds, and its signal is
on the line of `m`. -/
def HasRead (m₁ m : Machine) (j : Nat) (w : Word) : Prop :=
  ∃ t, m₁.Transfers .input j t ∧ t.error? = none ∧ m.line = t.line ∧ t.device.value? = some w

/-- The signal names the input device of job `j`, and says that nothing has failed. -/
theorem HasRead.completes (h : m₁.HasRead m j w) (hsound : m₁.Sound) (hj : j < m₁.jobs.size)
    (hfits : inputNumber j < 2 ^ 31) : m.Completes j .input ∧ m.line.status = 0 := by
  obtain ⟨t, htransfers, herror, hline, _⟩ := h
  have hsignal := htransfers.line_eq hsound hj
  rw [← hline, herror] at hsignal
  refine ⟨⟨⟨.input, ?_⟩, ?_⟩, by rw [hsignal]; rfl⟩
  · rw [hline]
    exact htransfers.trap?_eq hsound hj
  · rw [hsignal]
    exact Word.index?_ofCount hfits

/-- If the device `dev` makes the transfer `t`, it does so when it ticks. -/
theorem tick_of_transfer {t : Device.Tick} (h : m.transfer? dev = some t) :
    ∃ d, m.hardware.device? dev = some d ∧ d.trap.trap? ≠ some d.request ∧
      t = d.transfer (m.hardware.sourceOf? d) m.hardware.files ∧
      d.tick m.line (m.hardware.sourceOf? d) m.hardware.files = t := by
  obtain ⟨d, hd, ht⟩ := Option.bind_eq_some_iff.1 h
  split at ht
  case isFalse => simp at ht
  case isTrue hphase =>
    cases ht
    refine ⟨d, hd, fun hrequest => ?_, rfl, by rw [Device.tick, hphase]⟩
    simp [Device.phase, hrequest] at hphase

/-- If the input device of job `j` has just read the word `w`, it holds it, and has nothing left to
do. -/
theorem HasRead.device (h : m₁.HasRead m j w) (hsound₁ : m₁.Sound) (hsound : m.Sound)
    (hj : j < m₁.jobs.size) (hj' : j < m.jobs.size) (htick : m₁.tick = (.running, m)) :
    (m.view j).input.trap.data = w ∧ (m.view j).input.isIdle = true := by
  obtain ⟨t, htransfers, _, _, hvalue⟩ := h
  have hserved := hsound₁.served_sound htick
  have hj₁ : j < m₁.served.jobs.size := hsound₁.served_wired.2.symm ▸ hj
  have htransfer : (m₁.served.tickFirst (2 * j)).transfer? (2 * j + 1) = some t := htransfers
  obtain ⟨d, hd, hrequest, ht, hticks⟩ := tick_of_transfer htransfer
  -- its turn comes once in the tick, and nothing touches it before or afterwards
  have hbefore := device?_tickFirst m₁.served (2 * j) (2 * j)
  rw [if_neg (Nat.lt_irrefl _), hd] at hbefore
  have hafter := device?_of_tick_running htick hbefore.symm
  rw [hticks] at hafter
  have hsame : (m.view j).input = t.device :=
    Option.some.inj ((device?_inputNumber hsound.wired hj').symm.trans hafter)
  have hinput : (m₁.served.view j).input = d :=
    Option.some.inj ((device?_inputNumber hserved.wired hj₁).symm.trans hbefore.symm)
  rw [hsame]
  constructor
  · unfold Device.value? at hvalue
    split at hvalue
    · exact Option.some.inj hvalue
    · simp at hvalue
  · -- there was no request on its trap line
    have hline := (hserved.job j hj₁).lines .input
    have hof := hserved.wired.isOf hj₁ .input
    simp only [View.device, hinput] at hline hof
    rw [← hof.request] at hline
    rw [ht]
    exact Device.isIdle_transfer (hline.resolve_right hrequest) _ _

/-! ## What becomes of it -/

/-- When a transfer of job `j` that has worked is served, the job gets what the offer of its held
request has left in the device. -/
theorem Completes.view_served {side : Side} (h : m.Sound) (hj : j < m.jobs.size)
    (hcompletes : m.Completes j side) (hstatus : m.line.status = 0) :
    m.served.view j = ((m.view j).offered j).collected side := by
  obtain ⟨m₀, hoffers, hsound₀, hmove⟩ := h.move_of_tick
  have hj₀ : j < m₀.jobs.size := hoffers.size.symm ▸ hj
  rw [← hoffers.line] at hstatus
  rcases (hoffers.completes.2 hcompletes).move_cases hsound₀ hj₀ (hmove j hj) with
    ⟨hfailed, _⟩ | ⟨_, hview⟩
  · exact absurd hstatus hfailed
  · rw [hview, hoffers.view j hj]

/-- Fetching a word leaves a request `r` for output alone: it is held on, or the output device has
something to do. -/
theorem Sound.output_kept {r : DeviceRequest} (h : m.Sound) (hj : j < m.jobs.size)
    (htick : m.tick = (p, m'))
    (hserved : m.served.view j = ((m.view j).offered j).collected .input)
    (hpending : (m.job j).pending? = some r) (hdevice : r.device = outputNumber j) :
    (m'.job j).pending? = some r ∨
      ∃ d, m'.hardware.device? r.device = some d ∧ d.isIdle = false := by
  obtain ⟨hwired, hsize⟩ := h.served_wired
  have hj' : j < m.served.jobs.size := hsize.symm ▸ hj
  -- either the device was busy and the request stays held, or it has just been put on its line
  rcases View.pending?_offered_of_device (v := m.view j) .output hpending hdevice with
    hheld | htaken
  · have hjob := h.job_of_tick htick j
    rw [hserved] at hjob
    exact .inl ((congrArg Job.pending? hjob).trans hheld)
  · obtain ⟨side, hside, htrap⟩ := (h.job j hj).owns r hpending
    obtain ⟨rfl, _⟩ : side = .output ∧ j = j := Side.number_inj.1 (hside.symm.trans hdevice)
    have hplace := device?_outputNumber hwired hj'
    have hof := hwired.isOf hj' .output
    rw [hserved] at hplace hof
    have hline : (((m.view j).offered j).collected .input).output.trap = .raise r.trap r.data :=
      htaken
    rw [hdevice]
    refine .inr (exists_busy_of_tick htick hplace ?_)
    rw [hline, TrapLine.trap?_raise, htrap, ← hof.request]
    rfl

/-- No turn leaves a held request of job `j` with a word. -/
theorem Move.holdsBlank (hmove : m.Move m' j) (h : (m.view j).HoldsBlank j) :
    (m'.view j).HoldsBlank j := by
  cases hmove with
  | shifts _ hshift =>
    cases hshift with
    | stays hview => exact hview ▸ h
    | boots _ _ _ _ _ _ _ _ hview => exact hview ▸ View.holdsBlank_of_none rfl
    | drops _ _ _ _ hview => exact hview ▸ View.holdsBlank_of_none rfl
  | steps _ _ _ _ _ hview => exact h.of_pending (by rw [hview])
  | rejects _ _ _ _ hview => exact hview ▸ h
  | reloads _ _ _ _ _ hview => exact hview ▸ View.holdsBlank_of_none rfl
  | retires _ _ hview => exact hview ▸ View.holdsBlank_of_none rfl
  | asks _ _ _ hview => exact hview ▸ View.holdsBlank_asks _ _ _ _
  | @fails side _ _ _ _ hview =>
    exact h.of_pending (by rw [hview, View.acknowledged, View.job_withDevice])
  | collects _ _ hview => exact h.of_pending (by rw [hview]; rfl)

theorem holdsBlank_persists :
    Persists (fun _ => True) fun m => j < m.jobs.size ∧ (m.view j).HoldsBlank j where
  agrees := fun hagrees ⟨hj, hblank⟩ => ⟨hagrees.size ▸ hj, hagrees.view ▸ hblank⟩
  turned := by
    intro m m₀ m₁ p _ _ hoffers _ hturned ⟨hj, hblank⟩
    have hj₀ : j < m₀.jobs.size := hoffers.size ▸ hj
    exact ⟨hturned.size ▸ hj₀,
      (hturned.move j hj₀).holdsBlank (hoffers.view j hj ▸ hblank.offered)⟩
  inputTicks := by
    intro k m m' _ _ hticks ⟨hj, hblank⟩
    exact ⟨hj.trans_eq (congrArg Control.size hticks.control).symm,
      hblank.of_pending (by rw [hticks.job])⟩
  outputTicks := by
    intro k m m' _ _ hticks ⟨hj, hblank⟩
    exact ⟨hj.trans_eq (congrArg Control.size hticks.control).symm,
      hblank.of_pending (by rw [hticks.job])⟩

section Launch

variable {jobs : List (Job × Option Reader)} {config : Config} {files : Files} {journal : Journal}
  {first : Machine} {past : List Machine} {register : Word}

/-- In a run a held request of job `j` for input brings no word along. -/
theorem Run.holdsBlank (hlaunch : Launches jobs config files journal first) (hj : j < jobs.length)
    (hrun : Run first p past m) : (m.view j).HoldsBlank j := by
  obtain ⟨index, origin, path?, hview⟩ := exists_view_new config files journal hlaunch.1 hj
  have hfirst : (first.view j).HoldsBlank j := by
    cases hlaunch.shift hj with
    | stays hsame =>
      rw [hsame, hview]
      exact View.holdsBlank_of_none rfl
    | boots _ _ _ _ _ _ _ _ hstarted => exact hstarted ▸ View.holdsBlank_of_none rfl
    | drops _ _ _ _ hdropped => exact hdropped ▸ View.holdsBlank_of_none rfl
  exact (holdsBlank_persists.run hlaunch.sound hrun (fun _ _ => trivial)
    ⟨hlaunch.size ▸ hj, hfirst⟩).2

/-- What becomes of the word `w` that the input device of job `j` has just read. If the job, which
has named `register` for it, has no further request for input held, the next tick puts the word into
this register, and a request that is held for the output device is held on or has reached the
device. If it has, and some program must have raised a completion for the job then, the register is
overwritten with zero, the job goes on, and the request is neither held any more nor with the
device. (The word that names a device has room for its number if there are fewer than `2 ^ 30`
jobs.) -/
theorem read_word_fetched (hlaunch : Launches jobs config files journal first)
    (hfew : 2 * jobs.length < 2 ^ 31) (hj : j < jobs.length)
    (hrun : Run first .running (m₁ :: past) m) (hread : m₁.HasRead m j w)
    (htarget : (m.job j).target? = some register) (htick : m.tick = (p, m')) :
    ((∀ r, (m.job j).pending? = some r → r.device ≠ inputNumber j) →
      m'.regsOf j = (m.regsOf j).set register w ∧
      ∀ r, (m.job j).pending? = some r → (m'.job j).pending? = some r ∨
        ∃ d, m'.hardware.device? r.device = some d ∧ d.isIdle = false) ∧
    (∀ r, (m.job j).pending? = some r → r.device = inputNumber j →
      (∃ x ∈ m₁ :: past, x.Forges j) ∧
      m'.regsOf j = (m.regsOf j).set register 0 ∧ (m'.job j).life = .runnable ∧
      (m'.job j).pending? = none ∧
      ∃ d, m'.hardware.device? (inputNumber j) = some d ∧ d.isIdle = true) := by
  have hsound := (hrun.sound hlaunch.sound).2 rfl
  have hsound₁ := (hrun.sound hlaunch.sound).1 m₁ List.mem_cons_self
  obtain ⟨hrun₁, htick₁⟩ : Run first .running past m₁ ∧ m₁.tick = (.running, m) := by
    cases hrun with
    | tick hrun htick => exact ⟨hrun, htick⟩
  have hk : j < m.jobs.size := hrun.size hlaunch ▸ hj
  have hk₁ : j < m₁.jobs.size := hrun₁.size hlaunch ▸ hj
  have hfits : inputNumber j < 2 ^ 31 := (hrun.fits hlaunch hfew).number_lt hk .input
  obtain ⟨hdata, hidle⟩ := hread.device hsound₁ hsound hk₁ hk htick₁
  obtain ⟨hcompletes, hstatus⟩ := hread.completes hsound₁ hk₁ hfits
  have hserved := hcompletes.view_served hsound hk hstatus
  have hjob := hsound.job_of_tick htick j
  rw [hserved] at hjob
  have hregs : (m'.view j).job.registers = _ := congrArg Job.registers hjob
  refine ⟨fun hfree => ⟨?_, fun r hr => ?_⟩, fun r hr hdevice => ?_⟩
  · refine hregs.trans ?_
    rw [View.collected_offered (hsound.job j hk).owns hfree htarget, hdata, view_registers]
  · -- it can be a request to write only
    obtain ⟨side, hside, _⟩ := (hsound.job j hk).owns r hr
    cases side with
    | input => exact absurd hside (hfree r hr)
    | output => exact hsound.output_kept hk htick hserved hr hside
  · have hblank := hrun.holdsBlank hlaunch hj r hr hdevice
    obtain ⟨hset, hwoken, hnone, hrests⟩ :=
      View.collected_offered_of_held (v := m.view j) hr hdevice hidle htarget
    refine ⟨?_, ?_, ?_, (congrArg Job.pending? hjob).trans hnone, ?_⟩
    · -- if nobody had, the request would not be held
      by_contra hhonest
      have htidy := hrun.tidy hlaunch hfew hj fun x hx hforges => hhonest ⟨x, hx, hforges⟩
      exact absurd (htidy.held.symm.trans hr) (by simp)
    · refine hregs.trans ?_
      rw [hset, hblank, view_registers]
    · refine (congrArg Job.life hjob).trans (hwoken.trans ?_)
      cases hbefore : (m.view j).job.life with
      | waiting | runnable => rfl
      | finished =>
        -- a job that is over has no request held
        exact absurd (((hsound.job j hk).finished hbefore).pending.symm.trans hr) (by simp)
    · obtain ⟨hwired, hsize⟩ := hsound.served_wired
      have hplace := device?_inputNumber hwired (hsize.symm ▸ hk)
      rw [hserved] at hplace
      exact ⟨_, device?_of_tick_of_isIdle htick hplace hrests, hrests⟩

end Launch

/-! ## A word that is lost -/

/-- A job that asks for two words, and a job that raises the completion of the first one's input
device. -/
def eagerJobs : List (Job × Option Reader) :=
  [(.new 0 "reader" none,
      some (.ofText "reader" "$JOB reader\nf 2 1\nf 2 2\nf 1 2\n$RUN\n7\n8\n$END\n")),
    (.new 1 "forger" none, some (.ofText "forger" "$JOB forger\nf 42 1\n"))]

/-- The machine after their start. -/
def eagerFirst : Machine :=
  (new eagerJobs .standard .empty (.new none)).start.2

/-- The machine eleven ticks later: the first job has been woken by the second one and has asked
again, while its input device still counts down. -/
def eagerLater : Machine :=
  (tickUpTo 11 eagerFirst).2

theorem launches_eager : Launches eagerJobs .standard .empty (.new none) eagerFirst :=
  launches_of_isOk (by decide +kernel) (by decide +kernel)

/-- In the next tick the input device reads a word, and in the one after it the first job is
served. -/
theorem eager_ticks :
    (tickUpTo 11 eagerFirst).1 = none ∧
      (eagerLater.tick.1 = .running ∧ eagerLater.tick.2.tick.1 = .running) ∧
      (eagerLater.served.transfer? 1).map
        (fun t => (t.error?, t.line, t.device.value?)) =
          some (none, eagerLater.tick.2.line, some 7) ∧
      (eagerLater.tick.2.job 0).target? = some 2 ∧
      (eagerLater.tick.2.job 0).pending? = some ⟨1, .getw, 0⟩ ∧
      (eagerLater.tick.2.tick.2.regsOf 0).get? 2 = some 0 ∧
      (eagerLater.tick.2.tick.2.job 0).pending? = none ∧
      (eagerLater.tick.2.tick.2.hardware.device? 1).map Device.isIdle = some true := by
  decide +kernel

theorem hasRead_eager : eagerLater.HasRead eagerLater.tick.2 0 7 := by
  obtain ⟨_, _, htransfer, _⟩ := eager_ticks
  obtain ⟨t, ht, hvalues⟩ := Option.map_eq_some_iff.1 htransfer
  simp only [Prod.mk.injEq] at hvalues
  exact ⟨t, ht, hvalues.1, hvalues.2.1.symm, hvalues.2.2⟩

/-- The word that the device has read is not put into the register that the first job has named for
it, since a further request is held. -/
theorem read_word_fetched_eager :
    eagerLater.HasRead eagerLater.tick.2 0 7 ∧
      (eagerLater.tick.2.job 0).target? = some 2 ∧
      (eagerLater.tick.2.job 0).pending? = some ⟨1, .getw, 0⟩ ∧
      eagerLater.tick.2.tick.2.regsOf 0 = (eagerLater.tick.2.regsOf 0).set 2 0 := by
  obtain ⟨hnone, ⟨hfirst, hnext⟩, _, htarget, hpending, _⟩ := eager_ticks
  obtain ⟨past, hrun, _⟩ := run_of_tickUpTo (m := eagerFirst) (n := 11) hnone
  have htick : eagerLater.tick = (.running, eagerLater.tick.2) := Prod.ext hfirst rfl
  have htick' : eagerLater.tick.2.tick = (.running, eagerLater.tick.2.tick.2) :=
    Prod.ext hnext rfl
  have hlost := (read_word_fetched launches_eager (by decide) (by decide) (.tick hrun htick)
    hasRead_eager htarget htick').2 _ hpending rfl
  exact ⟨hasRead_eager, htarget, hpending, hlost.2.1⟩

/-- The register that the first job has named for the word is zero after the tick that should fetch
the word, and the request that was held is held no more and is not with the device either. -/
theorem held_request_overwrites :
    Launches eagerJobs .standard .empty (.new none) eagerFirst ∧
      (∃ past, Run eagerFirst .running (eagerLater :: past) eagerLater.tick.2) ∧
      eagerLater.HasRead eagerLater.tick.2 0 7 ∧
      (eagerLater.tick.2.job 0).target? = some 2 ∧
      (eagerLater.tick.2.job 0).pending? = some ⟨1, .getw, 0⟩ ∧
      (eagerLater.tick.2.tick.2.regsOf 0).get? 2 = some 0 ∧
      (eagerLater.tick.2.tick.2.job 0).pending? = none ∧
      (eagerLater.tick.2.tick.2.hardware.device? 1).map Device.isIdle = some true := by
  obtain ⟨hnone, ⟨hfirst, _⟩, _, htarget, hpending, hafter⟩ := eager_ticks
  obtain ⟨past, hrun, _⟩ := run_of_tickUpTo (m := eagerFirst) (n := 11) hnone
  exact ⟨launches_eager, ⟨past, .tick hrun (Prod.ext hfirst rfl)⟩, hasRead_eager, htarget, hpending,
    hafter⟩

end Machine

end BatchMachine
