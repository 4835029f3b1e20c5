import BatchMachine.Proofs.Errands
import BatchMachine.Proofs.Sections

/-!
# Transfers

A device makes the transfer that its job waits for, once: an input device reads one word of the
job's text, an output device adds one line to the job's output file. It signals this on the
processor's line, which only it can do then, and every other job stays on its errand.

* `View.On.inputTicked`, `View.On.outputTicked`: what a tick of a device does for its job.
* `Machine.Chore`: what a tick of a device does to a job on an errand.
* `Machine.Sound.tickDevices_chores`: what the devices do one after the other.
* `Machine.Run.orderly`: the machines of a lawful run are orderly.
-/

namespace BatchMachine

open JobText

namespace Errand

/-- The errand of a job for which the input device has tried to read a word for `register`. -/
def answer (register : Word) : Except Device.TransferError Word → Errand
  | .ok w => .got register w
  | .error _ => .missed register

variable {v : View} {w : Word}

/-- While the request to write the word `w` is on the trap line of the device, `w` is there too. -/
theorem Held.data_of_trap (h : (writes w).Held v) {trap : Trap}
    (htrap : v.output.trap.trap? = some trap) : v.output.trap.data = w := by
  rcases h with ⟨_, hdata⟩ | ⟨hclear, _⟩
  · exact hdata
  · exact absurd hclear (TrapLine.not_isIdle htrap)

/-- After that the device keeps `w`. -/
theorem Held.link_of_isIdle (h : (writes w).Held v) (hclear : v.output.trap.isIdle = true) :
    ∃ sink?, v.output.link = .output w sink? := by
  rcases h with ⟨hraised, _⟩ | ⟨_, hlink⟩
  · rw [hclear] at hraised
    exact absurd hraised (by decide)
  · exact hlink

end Errand

namespace View

variable {v : View} {e e' : Errand} {j : Nat}

/-- If the device on the side `side` has something to do, it is at work for the errand `e` of its
job. -/
theorem On.side?_eq (h : v.On e) (side : Side) (hbusy : (v.device side).isIdle = false) :
    e.side? = some side := by
  by_contra hne
  rw [(h.idle side).2 hne] at hbusy
  exact absurd hbusy (by decide)

/-- What is left of its text, `source?`, does not show in the errand of a job. -/
theorem On.withSource (h : v.On e) (source? : Option Reader) : View.On { v with source? } e where
  pending := h.pending
  waits := h.waits
  target := h.target
  idle side := by
    cases side with
    | input => exact h.idle .input
    | output => exact h.idle .output
  held := by cases e <;> exact h.held

/-- The device at work for a job becomes `d`, and this leaves the job on an errand `e'` for which
the device is still at work, or none is. -/
theorem On.withDevice (h : v.On e) (side : Side) {d : Device} (hside : e.side? = some side)
    (hrest : e' ≠ .rest) (htarget : e'.target? = e.target?)
    (hworks : ∀ side', e'.side? = some side' → side' = side)
    (hidle : d.isIdle = true ↔ e'.side? ≠ some side) (hheld : e'.Held (v.withDevice side d)) :
    (v.withDevice side d).On e' where
  pending := by
    rw [job_withDevice]
    exact h.pending
  waits := by
    have hlife := h.waits.2 (by rintro rfl; simp [Errand.side?] at hside)
    simpa [hrest] using hlife
  target := by
    rw [job_withDevice, htarget]
    exact h.target
  idle side' := by
    rw [device_withDevice]
    split
    · rename_i hsame
      rw [hsame]
      exact hidle
    · rename_i hother
      have hother' := (h.idle side').2 (by simpa [hside] using Ne.symm hother)
      simp only [hother', true_iff]
      exact fun hworking => hother (hworks side' hworking)
  held := hheld

/-- The transfer `t` of an input device reads the next word of the text `source?`, or finds none. -/
theorem On.inputTransferred {r : Word} {job? : Option Nat} (h : v.On (.reads r))
    (hlink : v.input.link = .input job?) (hclear : v.input.trap.isIdle = true)
    (source? : Option Reader) (files : Files) {t : Device.Tick}
    (ht : t = v.input.transfer source? files) :
    ∃ word, Device.readWord source? = (word, t.source?) ∧ t.line = v.input.signal word.isOk ∧
      View.On { v with input := t.device } (.answer r word) := by
  rw [Device.transfer, hlink] at ht
  rcases hread : Device.readWord source? with ⟨word, later?⟩
  simp only [hread] at ht
  -- the word stays on the trap line of the device, and the job waits for it or for an error
  cases word with
  | ok w =>
    subst ht
    exact ⟨_, rfl, rfl, h.withDevice .input rfl (by simp [Errand.answer]) rfl
      (by simp [Errand.answer, Errand.side?])
      (by simpa [Device.isIdle, TrapLine.isIdle, Errand.answer, Errand.side?] using hclear) rfl⟩
  | error error =>
    subst ht
    exact ⟨_, rfl, rfl, h.withDevice .input rfl (by simp [Errand.answer]) rfl
      (by simp [Errand.answer, Errand.side?])
      (by simpa [Device.isIdle, TrapLine.isIdle, Errand.answer, Errand.side?] using hclear) trivial⟩

/-- In its tick `t` an input device at work for job `j` reads the next word of the job's text when
its time is up and the line is free; until then the job stays on its errand `e`. -/
theorem On.inputTicked (h : v.On e) (hsound : v.Sound j) (hinput : v.input.IsInputOf j)
    (hbound : e.side? = some .input → v.input.job? = some j) (line : TrapLine) (files : Files)
    {t : Device.Tick} {v' : View}
    (ht : t = v.input.tick line (v.input.job?.bind fun _ => v.source?) files)
    (hv' : v' = { v with
      input := t.device
      source? := if v.input.job?.isSome then t.source? else v.source? }) :
    (t.line = line ∧ v'.source? = v.source? ∧ v'.On e) ∨
      (line.isIdle = true ∧ ∃ r word, e = .reads r ∧
        Device.readWord v.source? = (word, v'.source?) ∧ t.line = v.input.signal word.isOk ∧
        v'.On (.answer r word)) := by
  cases hbusy : v.input.isIdle with
  | true =>
    rw [Device.tick_of_isIdle hbusy] at ht
    subst ht hv'
    refine .inl ⟨rfl, ?_, h.withSource _⟩
    cases v.input.job? <;> rfl
  | false =>
    have hside := h.side?_eq .input hbusy
    have hjob := hbound hside
    obtain ⟨r, rfl⟩ : ∃ r, e = .reads r := by
      cases e <;> simp_all [Errand.side?]
    have hrequest : v.input.trap.isIdle = true ∨ v.input.trap.trap? = some v.input.request := by
      rw [Device.IsOf.request .input hinput]
      exact hsound.lines .input
    -- the device is bound, so the text that it reads is the one of the job
    simp only [hjob, Option.bind_some, Option.isSome_some, if_true] at ht hv'
    rcases Device.tick_of_busy hbusy hrequest line v.source? files with
      ⟨d, htick, hstill, _⟩ | ⟨hclear, hidle, htick⟩
    · rw [htick] at ht
      subst ht hv'
      exact .inl ⟨rfl, rfl, h.withDevice .input rfl (by simp) rfl
        (by simp [Errand.side?]) (by simp [hstill, Errand.side?]) trivial⟩
    · obtain ⟨job?, hlink⟩ : ∃ job?, v.input.link = .input job? := hinput.2.elim
        (fun hnone => ⟨_, hnone⟩) fun hsome => ⟨_, hsome⟩
      rw [htick] at ht
      obtain ⟨word, hread, hsignal, hon⟩ := h.inputTransferred hlink hidle v.source? files ht
      subst hv'
      exact .inr ⟨hclear, r, word, rfl, hread, hsignal, hon.withSource _⟩

/-- In its tick `t` an output device at work for job `j` writes the word to the file at `loc` when
its time is up and the line is free; until then the job stays on its errand `e`. -/
theorem On.outputTicked (h : v.On e) (hsound : v.Sound j) (houtput : v.output.IsOutputOf j)
    {loc : Location} (hsink : e.side? = some .output → v.output.sink? = some ⟨loc, .plain⟩)
    (line : TrapLine) (files : Files) {t : Device.Tick}
    (ht : t = v.output.tick line none files) :
    t.device.sink? = v.output.sink? ∧
    ((t.line = line ∧ t.files = files ∧ View.On { v with output := t.device } e) ∨
      (line.isIdle = true ∧ ∃ w, e = .writes w ∧
        t.files = files.append loc (Numeral.decimal w ++ "\n") ∧
        t.line = v.output.signal true ∧ View.On { v with output := t.device } (.wrote w))) := by
  cases hbusy : v.output.isIdle with
  | true =>
    rw [Device.tick_of_isIdle hbusy] at ht
    subst ht
    exact ⟨rfl, .inl ⟨rfl, rfl, h⟩⟩
  | false =>
    have hside := h.side?_eq .output hbusy
    obtain ⟨w, rfl⟩ : ∃ w, e = .writes w := by
      cases e <;> simp_all [Errand.side?]
    have hheld : (Errand.writes w).Held v := h.held
    have hrequest : v.output.trap.isIdle = true ∨
        v.output.trap.trap? = some v.output.request := by
      rw [Device.IsOf.request .output houtput]
      exact hsound.lines .output
    obtain ⟨-, buffer, sink?, hlink⟩ := houtput
    obtain rfl : sink? = some ⟨loc, .plain⟩ := by
      have hbound := hsink hside
      rwa [Device.sink?, hlink] at hbound
    -- as long as the device has something to do and holds the word, the job stays on its errand
    have hwrites : ∀ d : Device, d.isIdle = false →
        Errand.Held { v with output := d } (.writes w) →
        View.On { v with output := d } (.writes w) := fun d hd =>
      h.withDevice .output rfl (by simp) rfl (by simp [Errand.side?])
        (by simp [hd, Errand.side?])
    rcases Device.tick_of_busy hbusy hrequest line none files with
      ⟨d, htick, hstill, ⟨htrap, rfl⟩ | ⟨hsame, hlink'⟩⟩ | ⟨hclear, hidle, htick⟩
    · rw [htick] at ht
      subst ht
      refine ⟨by simp [Device.sink?, Device.capture, hlink],
        .inl ⟨rfl, rfl, hwrites _ hstill (.inr ⟨rfl, some ⟨loc, .plain⟩, ?_⟩)⟩⟩
      simp [Device.capture, hlink, hheld.data_of_trap htrap]
    · rw [htick] at ht
      subst ht
      refine ⟨by simp only [Device.sink?, hlink'], .inl ⟨rfl, rfl, hwrites d hstill ?_⟩⟩
      simpa only [Errand.Held, hsame, hlink'] using hheld
    · obtain ⟨_, hlink'⟩ := hheld.link_of_isIdle hidle
      obtain ⟨rfl, -⟩ := Link.output.inj (hlink.symm.trans hlink')
      rw [htick, Device.transfer, hlink] at ht
      simp only [Device.writeWord, Sink.transfer, Sink.write, Sink.flush, Option.map_none,
        Option.isNone_none] at ht
      subst ht
      refine ⟨by simp [Device.sink?, hlink], .inr ⟨hclear, buffer, rfl, rfl, rfl, ?_⟩⟩
      exact h.withDevice .output rfl (by simp) rfl (by simp [Errand.side?])
        (by simpa [Errand.side?, Device.isIdle] using hidle) ⟨_, rfl⟩

end View

namespace Machine

variable {m m₁ m' : Machine} {j k : Nat} {e e' : Errand}

/-- What a tick of a device, from `m` to `m'`, does to the errand of job `k`. -/
inductive Chore (m m' : Machine) (k : Nat) : Errand → Errand → Prop
  /-- Nothing. -/
  | keeps {e : Errand} : m'.hardware.source? k = m.hardware.source? k →
      (∀ s text, m.Wrote k s text → m'.Wrote k s text) → Chore m m' k e e
  /-- A word is read for the job into the register `r`, or there is none to read. -/
  | reads {r : Word} {word : Except Device.TransferError Word} :
      Device.readWord (m.hardware.source? k) = (word, m'.hardware.source? k) →
      (∀ s text, m.Wrote k s text → m'.Wrote k s text) →
      Chore m m' k (.reads r) (.answer r word)
  /-- The word `w` is written for the job. -/
  | writes {w : Word} : m'.hardware.source? k = m.hardware.source? k →
      (∀ s text, m.Wrote k s text → m'.Wrote k s
        (if s = (m.job k).segments then text ++ (Numeral.decimal w ++ "\n") else text)) →
      Chore m m' k (.writes w) (.wrote w)

/-- What a tick of a device, from `m` to `m'`, does to an orderly machine. -/
structure Chores (m m' : Machine) : Prop where
  control : m'.control = m.control
  job : ∀ k < m.jobs.size, (m'.view k).job = (m.view k).job
  line : m'.line = m.line ∨
    (m.line.isIdle = true ∧ ∃ side : Side, m'.line.trap? = some side.completion)
  alike : m.hardware.files.Alike m'.hardware.files
  chore : ∀ k < m.jobs.size, ∀ e, m.On k e → ∃ e', m.Chore m' k e e' ∧ m'.On k e'

/-- If the device of job `k` is done, it has been signalled on the line. -/
theorem On.isIdle_line (h : m.On k e) (hdone : e.isDone = true) : m.line.isIdle = false := by
  have hsignalled := h.signalled
  cases e with
  | rest | reads r | writes w => simp [Errand.isDone] at hdone
  | got r w => exact TrapLine.isIdle_eq_false hsignalled.1
  | wrote w => exact TrapLine.isIdle_eq_false hsignalled.1
  | missed r =>
    rcases hsignalled.2 with ⟨htrap, _⟩ | ⟨htrap, _⟩
    · exact TrapLine.isIdle_eq_false htrap
    · exact TrapLine.isIdle_eq_false htrap

/-- What is signalled for the errand `e` stays on the line when a device ticks. -/
theorem On.signalled_of_line (h : m.On k e) (hline : m'.line = m.line ∨ m.line.isIdle = true)
    (hcontrol : m'.control = m.control) : e.Signalled m' k := by
  cases hdone : e.isDone with
  | false => exact signalled_of_isDone hdone
  | true =>
    -- the line is held by the signal itself
    have hsame := hline.resolve_right (by rw [h.isIdle_line hdone]; decide)
    have hculprit : m'.culprit? = m.culprit? := congrArg Control.culprit? hcontrol
    have hsignalled := h.signalled
    unfold Errand.Signalled at hsignalled ⊢
    rw [hsame, hculprit]
    exact hsignalled

/-- If the device of job `k` is done, the job stays on its errand when a device ticks. -/
theorem Chores.isDone (h : m.Chores m') (hk : k < m.jobs.size) (hon : m.On k e)
    (hdone : e.isDone = true) : m'.On k e := by
  obtain ⟨e', hchore, hon'⟩ := h.chore k hk e hon
  cases hchore with
  | keeps => exact hon'
  | reads | writes => simp [Errand.isDone] at hdone

theorem Chores.size (h : m.Chores m') : m'.jobs.size = m.jobs.size :=
  congrArg Control.size h.control

/-- A tick of a device keeps `m` orderly. What it signals comes from a job that waits for it. -/
theorem Chores.orderly (h : m.Chores m') (horderly : m.Orderly) (hsound : m.Sound)
    (hsignals : m.line.isIdle = true → m'.line.isIdle = true ∨
      ∃ (side : Side) (k : Nat) (e : Errand), k < m.jobs.size ∧ m'.On k e ∧ e.isDone = true ∧
        m'.line.trap? = some side.completion ∧ m'.line.data = .ofCount (side.number k)) :
    m'.Orderly := by
  -- a job that waits for what its device has done goes on waiting for it
  have hwaits : ∀ k < m.jobs.size, (m.job k).life = .waiting → (m.view k).Quiet →
      (m'.job k).life = .waiting ∧ (m'.view k).Quiet := by
    intro k hk hlife hquiet
    obtain ⟨e, hon⟩ := horderly.errand k hk
    have hdone := hon.isDone hlife hquiet
    have hon' := h.isDone hk hon hdone
    exact ⟨hon'.waits.2 (hon.waits.1 hlife), hon'.quiet (Errand.side?_of_isDone hdone)⟩
  constructor
  case errand =>
    intro k hk
    obtain ⟨e, hon⟩ := horderly.errand k (h.size ▸ hk)
    obtain ⟨e', _, hon'⟩ := h.chore k (h.size ▸ hk) e hon
    exact ⟨e', hon'⟩
  case signals =>
    intro side htrap
    rcases h.line with hsame | ⟨hclear, _⟩
    · rw [hsame] at htrap ⊢
      obtain ⟨k, hk, hlife, hquiet, hdata⟩ := horderly.signals side htrap
      obtain ⟨hlife', hquiet'⟩ := hwaits k hk hlife hquiet
      exact ⟨k, h.size.symm ▸ hk, hlife', hquiet', hdata⟩
    · rcases hsignals hclear with hclear' | ⟨side', k, e, hk, hon, hdone, htrap', hdata⟩
      · exact absurd hclear' (TrapLine.not_isIdle htrap)
      · have hsame : side' = side :=
          Side.completion_inj.1 (Option.some.inj (htrap'.symm.trans htrap))
        exact ⟨k, h.size.symm ▸ hk, hon.waits.2 (Errand.ne_rest_of_isDone hdone),
          hon.quiet (Errand.side?_of_isDone hdone), hsame ▸ hdata⟩
  case charged =>
    intro k hculprit
    rw [show m'.culprit? = m.culprit? from congrArg Control.culprit? h.control] at hculprit
    obtain ⟨hlife, hquiet⟩ := horderly.charged k hculprit
    exact hwaits k (hsound.charged.culprit k hculprit).1 hlife hquiet
  case regular => exact horderly.regular.of_alike (congrArg Control.config h.control) h.alike

/-- If job `k` waits, it is bound to its devices. -/
theorem On.opened (h : m.On k e) (hsound : m.Sound) (hk : k < m.jobs.size) (hrest : e ≠ .rest) :
    (m.job k).boot = .booted ∧ (m.job k).life ≠ .finished ∧ (m.view k).Open k := by
  have hlife : (m.view k).job.life = .waiting := h.waits.2 hrest
  have hboot := (hsound.job k hk).eq_booted hlife
  have hunfinished : (m.view k).job.life ≠ .finished := by
    rw [hlife]
    decide
  exact ⟨hboot, hunfinished, (hsound.job k hk).booted hboot hunfinished⟩

theorem Wrote.of_files {s : Nat} {text : String} (h : m.Wrote k s text)
    (hconfig : m'.config = m.config) (hfiles : m'.hardware.files = m.hardware.files) :
    m'.Wrote k s text := by
  obtain ⟨loc, hplaces, hentry⟩ := h
  refine ⟨loc, ?_, by rw [hfiles, hentry]⟩
  rw [hfiles, outputFile_congr hconfig]
  exact hplaces

/-- The output of job `k` goes to the same file after a tick of a device, in which text may have
been added to a file. -/
theorem Sinks.of_tick (h : m.Sinks k) (hconfig : m'.config = m.config)
    (hjob : (m'.view k).job = (m.view k).job)
    (hsink : (m'.view k).output.sink? = (m.view k).output.sink?)
    (halike : m.hardware.files.Alike m'.hardware.files)
    (hentry : ∀ loc text, m.hardware.files.entry? loc = some (.text text) →
      ∃ text', m'.hardware.files.entry? loc = some (.text text')) : m'.Sinks k := by
  intro hboot hlife
  rw [← view_boot, hjob] at hboot
  rw [← view_life, hjob] at hlife
  obtain ⟨loc, text, hbound, hplaces, htext⟩ := h hboot hlife
  obtain ⟨text', htext'⟩ := hentry loc text htext
  refine ⟨loc, text', hsink.trans hbound, ?_, htext'⟩
  rw [← view_segments, hjob, outputFile_congr hconfig]
  exact halike.places hplaces

theorem InputTicks.line {t : Device.Tick} (h : m.InputTicks j t m') : m'.line = t.line :=
  congrArg Processor.trap h.cpu

theorem OutputTicks.line {t : Device.Tick} (h : m.OutputTicks j t m') : m'.line = t.line :=
  congrArg Processor.trap h.cpu

/-- A tick of `d` leaves `line` as it is, or it signals on a free line. -/
theorem signals_tick (side : Side) {d : Device} (hd : d.IsOf side j) (line : TrapLine)
    (source? : Option Reader) (files : Files) :
    (d.tick line source? files).line = line ∨ (line.isIdle = true ∧
      ∃ side : Side, (d.tick line source? files).line.trap? = some side.completion) := by
  rcases line_tick d line source? files with hsame | ⟨hclear, _, ok, hsignal⟩
  · exact .inl hsame
  · exact .inr ⟨hclear, side, hsignal ▸ (trap?_signal side hd ok).1⟩

/-- The files are as before, or some text has been added to the output file of the segment that job
`j` is in. -/
def Extends (m m' : Machine) (j : Nat) : Prop :=
  m'.hardware.files = m.hardware.files ∨ ∃ loc text more,
    m.hardware.files.Places (m.outputFile j (m.job j).segments) loc ∧
    m.hardware.files.entry? loc = some (.text text) ∧
    m'.hardware.files = m.hardware.files.append loc more

theorem Extends.alike (h : m.Extends m' j) : m.hardware.files.Alike m'.hardware.files := by
  rcases h with hsame | ⟨loc, text, more, _, hentry, hadded⟩
  · exact hsame ▸ .refl _
  · exact hadded ▸ Files.alike_append _ _ more

/-- What was a text in `m` is a text in `m'`. -/
theorem Extends.entry (h : m.Extends m' j) {loc : Location} {text : String}
    (htext : m.hardware.files.entry? loc = some (.text text)) :
    ∃ text', m'.hardware.files.entry? loc = some (.text text') := by
  rcases h with hsame | ⟨loc', text', more, _, hentry, hadded⟩
  · exact ⟨text, hsame.symm ▸ htext⟩
  · rw [hadded, Files.entry_append hentry]
    split
    · exact ⟨_, rfl⟩
    · exact ⟨text, htext⟩

/-- The output of all segments but the latest one of job `j` is as before. -/
theorem Extends.wrote {s : Nat} {text : String} (h : m.Extends m' j)
    (hconfig : m'.config = m.config) (hne : k ≠ j ∨ s ≠ (m.job j).segments)
    (hwrote : m.Wrote k s text) : m'.Wrote k s text := by
  rcases h with hsame | ⟨loc, text', more, hplaces, hentry, hadded⟩
  · exact hwrote.of_files hconfig hsame
  · obtain ⟨loc', hplaces', hentry'⟩ := hwrote
    -- no two segments have one output file
    have hother : loc' ≠ loc := by
      rintro rfl
      obtain ⟨rfl, rfl⟩ := places_inj hplaces' hplaces
      rcases hne with hne | hne <;> exact hne rfl
    refine ⟨loc', ?_, ?_⟩
    · rw [outputFile_congr hconfig, hadded]
      exact (Files.alike_append _ _ more).places hplaces'
    · rw [hadded, Files.entry_append hentry, if_neg hother]
      exact hentry'

/-- A tick of a device is a chore if it is one to job `j`, to which the device belongs and whose
errand decides what the device does. -/
theorem SideTicks.chores {side : Side} (hsound : m.Sound) (horderly : m.Orderly)
    (hj : j < m.jobs.size) (hticks : m.SideTicks side j m') (hextends : m.Extends m' j)
    (hsink : (m'.view j).output.sink? = (m.view j).output.sink?)
    (hticked : ∀ e, m.On j e → ∃ e', m.Chore m' j e e' ∧ (m'.view j).On e' ∧
      ((e' = e ∧ m'.line = m.line) ∨ (e'.isDone = true ∧ e'.Signalled m' j ∧
        m'.line.trap? = some side.completion ∧ m'.line.data = .ofCount (side.number j)))) :
    m.Chores m' ∧ m'.Orderly := by
  have hconfig : m'.config = m.config := congrArg Control.config hticks.control
  have hsignals : m'.line = m.line ∨
      (m.line.isIdle = true ∧ ∃ side : Side, m'.line.trap? = some side.completion) := by
    obtain ⟨source?, _, hcpu⟩ := hticks.ticked
    rw [show m'.line = _ from congrArg Processor.trap hcpu]
    exact signals_tick side (hsound.wired.isOf hj side) _ _ _
  have hline := hsignals.imp_right And.left
  have hsinks : ∀ k, m.Sinks k → m'.Sinks k := by
    refine fun k h => h.of_tick hconfig (hticks.job k) ?_ hextends.alike fun loc text =>
      hextends.entry
    by_cases hk : k = j
    · rw [hk]
      exact hsink
    · rw [hticks.view k hk]
  have hjob : ∀ e, m.On j e → ∃ e', m.Chore m' j e e' ∧ m'.On j e' ∧
      (m'.line = m.line ∨ (e'.isDone = true ∧ m'.line.trap? = some side.completion ∧
        m'.line.data = .ofCount (side.number j))) := by
    intro e hon
    obtain ⟨e', hchore, hon', ⟨rfl, hsame⟩ | ⟨hdone, hsignalled, hsignal⟩⟩ := hticked e hon
    · exact ⟨e', hchore, ⟨hon', hon.signalled_of_line hline hticks.control, hsinks j hon.sinks⟩,
        .inl hsame⟩
    · exact ⟨e', hchore, ⟨hon', hsignalled, hsinks j hon.sinks⟩, .inr ⟨hdone, hsignal⟩⟩
  -- all other jobs see of the tick nothing but the line, and their files stay as they are
  have hchores : m.Chores m' := by
    refine ⟨hticks.control, fun k _ => hticks.job k, hsignals, hextends.alike,
      fun k _ e hon => ?_⟩
    by_cases hkj : k = j
    · subst hkj
      obtain ⟨e', hchore, hon', _⟩ := hjob e hon
      exact ⟨e', hchore, hon'⟩
    · have hview := hticks.view k hkj
      exact ⟨e, .keeps (congrArg View.source? hview) fun s text =>
          hextends.wrote hconfig (.inl hkj),
        hview ▸ hon.toOn, hon.signalled_of_line hline hticks.control, hsinks k hon.sinks⟩
  refine ⟨hchores, hchores.orderly horderly hsound fun hclear => ?_⟩
  obtain ⟨e, hon⟩ := horderly.errand j hj
  obtain ⟨e', _, hon', hsame | ⟨hdone, htrap, hdata⟩⟩ := hjob e hon
  · exact .inl (hsame.symm ▸ hclear)
  · exact .inr ⟨side, j, e', hj, hon', hdone, htrap, hdata⟩

/-- What an input device that has tried to read signals is the answer to its job `j`. -/
theorem signalled_answer {d : Device} {r : Word} {word : Except Device.TransferError Word}
    (hd : d.IsInputOf j) (hline : m.line = d.signal word.isOk) :
    (Errand.answer r word).Signalled m j := by
  obtain ⟨htrap, hdata⟩ := trap?_signal .input hd word.isOk
  rw [← hline] at htrap hdata
  cases word with
  | ok w => exact ⟨htrap, hdata, by rw [hline]; rfl⟩
  | error error =>
    refine ⟨hdata, .inl ⟨htrap, ?_⟩⟩
    rw [hline]
    exact (by decide : (1 : Word) ≠ 0)

theorem InputTicks.chores (hsound : m.Sound) (horderly : m.Orderly) (hj : j < m.jobs.size)
    (hticks : m.InputTicks j ((m.view j).input.tick m.line
      ((m.view j).input.job?.bind fun _ => (m.view j).source?) m.hardware.files) m') :
    m.Chores m' ∧ m'.Orderly := by
  have hinput := hsound.wired.input j hj
  have hwrote : ∀ s text, m.Wrote j s text → m'.Wrote j s text := fun s text h =>
    h.of_files (congrArg Control.config hticks.control) hticks.files
  refine hticks.sideTicks.chores hsound horderly hj (.inl hticks.files) (by rw [hticks.ticked])
    fun e hon => ?_
  have hbound : e.side? = some .input → (m.view j).input.job? = some j := fun hside =>
    (hon.opened hsound hj (by rintro rfl; simp [Errand.side?] at hside)).2.2.input
  rcases hon.toOn.inputTicked (hsound.job j hj) hinput hbound m.line m.hardware.files rfl
    hticks.ticked with ⟨hsame, hsource, hon'⟩ | ⟨_, r, word, rfl, hread, hsignal, hon'⟩
  · exact ⟨e, .keeps hsource hwrote, hon', .inl ⟨rfl, hticks.line.trans hsame⟩⟩
  · have hline := hticks.line.trans hsignal
    refine ⟨_, .reads hread hwrote, hon',
      .inr ⟨by cases word <;> rfl, signalled_answer hinput hline, ?_⟩⟩
    rw [hline]
    exact trap?_signal .input hinput word.isOk

/-- The text `more` that is added to an output file stands behind what has been written. -/
theorem Wrote.append {s : Nat} {text more : String} {loc : Location} (h : m.Wrote k s text)
    (hplaces : m.hardware.files.Places (m.outputFile k s) loc) (hconfig : m'.config = m.config)
    (hadded : m'.hardware.files = m.hardware.files.append loc more) :
    m'.Wrote k s (text ++ more) := by
  obtain ⟨loc', hplaces', hentry'⟩ := h
  obtain rfl := hplaces.eq hplaces'
  refine ⟨loc, ?_, ?_⟩
  · rw [outputFile_congr hconfig, hadded]
    exact (Files.alike_append _ _ more).places hplaces
  · rw [hadded, Files.entry_append hentry', if_pos rfl]

/-- The tick of its output device leaves job `j` on its errand `e`, or it adds a line to the file
that the job writes to. -/
theorem OutputTicks.ticked_cases (hsound : m.Sound) (hj : j < m.jobs.size)
    (hticks : m.OutputTicks j ((m.view j).output.tick m.line none m.hardware.files) m')
    (hon : m.On j e) : (m'.view j).output.sink? = (m.view j).output.sink? ∧
      ((m'.line = m.line ∧ m'.hardware.files = m.hardware.files ∧ (m'.view j).On e) ∨
        ∃ loc w text, e = .writes w ∧
          m.hardware.files.Places (m.outputFile j (m.job j).segments) loc ∧
          m.hardware.files.entry? loc = some (.text text) ∧
          m'.hardware.files = m.hardware.files.append loc (Numeral.decimal w ++ "\n") ∧
          m'.line = (m.view j).output.signal true ∧ (m'.view j).On (.wrote w)) := by
  -- a job that waits for its output device has an output file to which the device writes
  have hplace : ∃ loc, e.side? = some .output →
      (m.view j).output.sink? = some ⟨loc, .plain⟩ ∧
      m.hardware.files.Places (m.outputFile j (m.job j).segments) loc ∧
      ∃ text, m.hardware.files.entry? loc = some (.text text) := by
    by_cases hside : e.side? = some .output
    · obtain ⟨hboot, hlife, _⟩ :=
        hon.opened hsound hj (by rintro rfl; simp [Errand.side?] at hside)
      obtain ⟨loc, text, hbound, hplaces, hentry⟩ := hon.sinks hboot hlife
      exact ⟨loc, fun _ => ⟨hbound, hplaces, text, hentry⟩⟩
    · exact ⟨[], fun h => absurd h hside⟩
  obtain ⟨loc, hloc⟩ := hplace
  obtain ⟨hsink, hcases⟩ := hon.toOn.outputTicked (hsound.job j hj) (hsound.wired.output j hj)
    (fun hside => (hloc hside).1) m.line m.hardware.files rfl
  rw [hticks.line, hticks.files, hticks.ticked]
  refine ⟨hsink, hcases.imp id ?_⟩
  rintro ⟨_, w, rfl, hfiles, hsignal, hon'⟩
  obtain ⟨_, hplaces, text, hentry⟩ := hloc rfl
  exact ⟨loc, w, text, rfl, hplaces, hentry, hfiles, hsignal, hon'⟩

theorem OutputTicks.chores (hsound : m.Sound) (horderly : m.Orderly) (hj : j < m.jobs.size)
    (hticks : m.OutputTicks j ((m.view j).output.tick m.line none m.hardware.files) m') :
    m.Chores m' ∧ m'.Orderly := by
  have houtput := hsound.wired.output j hj
  have hconfig : m'.config = m.config := congrArg Control.config hticks.control
  have hsource : m'.hardware.source? j = m.hardware.source? j := by
    rw [← view_source?, hticks.ticked]
    rfl
  obtain ⟨e₀, hon₀⟩ := horderly.errand j hj
  obtain ⟨hsink, hcases⟩ := hticks.ticked_cases hsound hj hon₀
  have hextends : m.Extends m' j := by
    rcases hcases with ⟨_, hsame, _⟩ | ⟨loc, w, text, _, hplaces, hentry, hadded, _⟩
    · exact .inl hsame
    · exact .inr ⟨loc, text, _, hplaces, hentry, hadded⟩
  refine hticks.sideTicks.chores hsound horderly hj hextends hsink fun e hon => ?_
  -- the device counts down, or it adds the word to its file
  rcases (hticks.ticked_cases hsound hj hon).2 with
    ⟨hline, hsame, hon'⟩ | ⟨loc, w, text, rfl, hplaces, hentry, hadded, hsignal, hon'⟩
  · exact ⟨e, .keeps hsource fun s text h => h.of_files hconfig hsame, hon', .inl ⟨rfl, hline⟩⟩
  · obtain ⟨htrap, hdata⟩ := trap?_signal .output houtput true
    rw [← hsignal] at htrap hdata
    refine ⟨_, .writes hsource fun s text' hwrote => ?_, hon',
      .inr ⟨rfl, ⟨htrap, hdata, by rw [hsignal]; rfl⟩, htrap, hdata⟩⟩
    split
    · rename_i hs
      rw [← hs] at hplaces
      exact hwrote.append hplaces hconfig hadded
    · rename_i hs
      exact hextends.wrote hconfig (.inr hs) hwrote

/-- A property `P` that the devices keep one after the other they keep when all of them tick. -/
theorem Sound.tickDevices_chores {P : Machine → Prop} (hsound : m.Sound) (horderly : m.Orderly)
    (base : P m) (step : ∀ m₁ m₂ : Machine, m₁.Sound → m₁.Orderly → m₁.control = m.control →
      m₁.Chores m₂ → P m₁ → P m₂) : P m.tickDevices ∧ m.tickDevices.Orderly := by
  obtain ⟨⟨_, horderly', hP⟩, _⟩ := tickDevices_induction
    (P := fun _ m' => m'.Sound ∧ m'.Orderly ∧ P m') hsound.wired ⟨hsound, horderly, base⟩ (by
      rintro j m' hj _ hcontrol ⟨hsound', horderly', hP⟩
      have hj' : j < m'.jobs.size := hj.trans_eq (congrArg Control.size hcontrol).symm
      have hin := tickDevice_inputNumber hsound'.wired hj'
      have hsound₁ := hsound'.inputTicks hj' hin
      obtain ⟨hchores₁, horderly₁⟩ := hin.chores hsound' horderly' hj'
      have hj₁ := hj'.trans_eq hchores₁.size.symm
      have hout := tickDevice_outputNumber hsound₁.wired hj₁
      obtain ⟨hchores₂, horderly₂⟩ := hout.chores hsound₁ horderly₁ hj₁
      refine ⟨hsound₁.outputTicks hj₁ hout, horderly₂, ?_⟩
      exact step _ _ hsound₁ horderly₁ (hchores₁.control.trans hcontrol) hchores₂
        (step _ _ hsound' horderly' hcontrol hchores₁ hP))
  exact ⟨hP, horderly'⟩

/-! ## Ticks and runs -/

/-- Only a job of the table waits. -/
theorem lt_size_of_waiting (h : (m.job k).life = .waiting) : k < m.jobs.size := by
  by_contra hk
  simp [job, hk, Job.new] at h

/-- `m` and `m'` have the same processor, the same files and the same jobs with what belongs to
them. -/
structure Resembles (m m' : Machine) : Prop where
  control : m'.control = m.control
  cpu : m'.hardware.cpu = m.hardware.cpu
  files : m'.hardware.files = m.hardware.files
  view : ∀ k < m.jobs.size, m'.view k = m.view k

namespace Resembles

theorem line (h : m.Resembles m') : m'.line = m.line :=
  congrArg Processor.trap h.cpu

theorem size (h : m.Resembles m') : m'.jobs.size = m.jobs.size :=
  congrArg Control.size h.control

theorem config (h : m.Resembles m') : m'.config = m.config :=
  congrArg Control.config h.control

/-- Job `k` is on the same errand in a machine that resembles `m`. -/
theorem on (h : m.Resembles m') (hk : k < m.jobs.size) (hon : m.On k e) : m'.On k e := by
  have hview := h.view k hk
  refine ⟨hview ▸ hon.toOn, hon.signalled_of_line (.inl h.line) h.control, ?_⟩
  refine hon.sinks.of_tick h.config (by rw [hview]) (by rw [hview]) (h.files ▸ .refl _) ?_
  exact fun loc text htext => ⟨text, h.files.symm ▸ htext⟩

theorem orderly (h : m.Resembles m') (horderly : m.Orderly) : m'.Orderly := by
  have hlife : ∀ k < m.jobs.size, (m'.job k).life = (m.job k).life := by
    intro k hk
    rw [← view_life, h.view k hk, view_life]
  constructor
  case errand =>
    intro k hk
    obtain ⟨e, hon⟩ := horderly.errand k (h.size ▸ hk)
    exact ⟨e, h.on (h.size ▸ hk) hon⟩
  case signals =>
    intro side htrap
    rw [h.line] at htrap ⊢
    obtain ⟨k, hk, hwaits, hquiet, hdata⟩ := horderly.signals side htrap
    exact ⟨k, h.size.symm ▸ hk, (hlife k hk).trans hwaits, h.view k hk ▸ hquiet, hdata⟩
  case charged =>
    intro k hculprit
    rw [show m'.culprit? = m.culprit? from congrArg Control.culprit? h.control] at hculprit
    obtain ⟨hwaits, hquiet⟩ := horderly.charged k hculprit
    have hk := lt_size_of_waiting hwaits
    exact ⟨(hlife k hk).trans hwaits, h.view k hk ▸ hquiet⟩
  case regular => exact horderly.regular.of_alike h.config (h.files ▸ .refl _)

/-- Machines that resemble each other differ in nothing that the devices do. -/
theorem chores (h : m.Resembles m') : m.Chores m' := by
  refine ⟨h.control, fun k hk => by rw [h.view k hk], .inl h.line, h.files ▸ .refl _,
    fun k hk e hon => ?_⟩
  refine ⟨e, .keeps ?_ fun s text hwrote => hwrote.of_files h.config h.files, h.on hk hon⟩
  rw [← view_source?, h.view k hk, view_source?]

end Resembles

theorem Agrees.resembles (h : m.Agrees m') : m.Resembles m' :=
  ⟨h.control, by rw [h.hardware], by rw [h.hardware], fun _ _ => h.view⟩

/-- No request is offered in an orderly machine `m`. -/
theorem Offers.resembles (h : m.Offers m') (horderly : m.Orderly) : m.Resembles m' := by
  refine ⟨h.control, h.cpu, h.files, fun k hk => ?_⟩
  obtain ⟨e, hon⟩ := horderly.errand k hk
  rw [h.view k hk, View.offered, hon.pending]

/-- Whether the next instruction is lawful depends on the processor, which is the same. -/
theorem Resembles.isLawful (h : m.Resembles m') : m'.isLawful = m.isLawful := by
  have hidle : m'.idle = m.idle := congrArg Control.idle h.control
  have hactivity : m'.tickProcessor.1 = m.tickProcessor.1 := by
    change (m'.hardware.cpu.tick (!m'.idle)).1 = (m.hardware.cpu.tick (!m.idle)).1
    rw [h.cpu, hidle]
  unfold Machine.isLawful
  rw [hactivity]

/-- The parts of a tick of an orderly machine: the turn from `m₀` to `m₁`, and the ticks of the
devices. -/
theorem Sound.ticks_orderly {p : Progress} (hsound : m.Sound) (horderly : m.Orderly)
    (hfits : m.Fits) (hlawful : m.isLawful = true) (htick : m.tick = (p, m')) :
    ∃ m₀ m₁, m.Resembles m₀ ∧ m₀.Sound ∧ m₀.Orderly ∧ m₀.Turned p m₁ ∧ m₁.Orderly ∧
      ((∃ status, p = .exited status ∧ m₁.Resembles m') ∨
        (p = .running ∧ m₁.Sound ∧ m₁.tickDevices.Resembles m')) := by
  obtain ⟨m₀, m₁, hoffers, hsound₀, hturned, hend⟩ := hsound.ticks htick
  have hresembles := hoffers.resembles horderly
  have horderly₀ := hresembles.orderly horderly
  have hfits₀ : m₀.Fits := hfits.of_size hresembles.size
  have hlawful₀ : m₀.isLawful = true := hresembles.isLawful.trans hlawful
  refine ⟨m₀, m₁, hresembles, hsound₀, horderly₀, hturned,
    hturned.orderly hsound₀ horderly₀ hfits₀ hlawful₀, hend.imp ?_ ?_⟩
  · exact fun ⟨status, hp, hagrees⟩ => ⟨status, hp, hagrees.resembles⟩
  · exact fun ⟨hp, hsound₁, hagrees⟩ => ⟨hp, hsound₁, hagrees.resembles⟩

/-- A lawful tick keeps `m` orderly. -/
theorem Sound.tick_orderly {p : Progress} (hsound : m.Sound) (horderly : m.Orderly)
    (hfits : m.Fits) (hlawful : m.isLawful = true) (htick : m.tick = (p, m')) : m'.Orderly := by
  obtain ⟨m₀, m₁, _, _, _, _, horderly₁, ⟨_, _, hend⟩ | ⟨_, hsound₁, hend⟩⟩ :=
    hsound.ticks_orderly horderly hfits hlawful htick
  · exact hend.orderly horderly₁
  · have hdevices := hsound₁.tickDevices_chores (P := fun _ => True) horderly₁ trivial
      fun _ _ _ _ _ _ _ => trivial
    exact hend.orderly hdevices.2

/-- What `P` says of job `k` on an errand goes on to hold when devices tick. -/
def KeptByChores (k : Nat) (P : Machine → Errand → Prop) : Prop :=
  ∀ ⦃m m' e e'⦄, k < m.jobs.size → m.Chores m' → m.On k e → m'.On k e' → m.Chore m' k e e' →
    (e ≠ .rest → (m.job k).boot = .booted ∧ (m.job k).life ≠ .finished) → P m e → P m' e'

/-- The parts of a tick as job `k` sees them: a turn of the processor that does something to it, and
what the devices do before the next tick. -/
theorem Sound.tick_job {p : Progress} (hsound : m.Sound) (horderly : m.Orderly)
    (hfits : m.Fits) (hlawful : m.isLawful = true) (htick : m.tick = (p, m'))
    (hk : k < m.jobs.size) (hon : m.On k e) :
    ∃ m₀ m₁ e₁, m.Resembles m₀ ∧ m₀.Sound ∧ m₀.Orderly ∧ m₀.On k e ∧ m₀.Turned p m₁ ∧
      m₀.Deed m₁ k e e₁ ∧ m₁.On k e₁ ∧ (m'.view k).job = (m₁.view k).job ∧
      ∀ P, KeptByChores k P → (P m e → P m₀ e) ∧ (P m₁ e₁ → ∃ e', m'.On k e' ∧ P m' e') := by
  obtain ⟨m₀, m₁, hresembles, hsound₀, horderly₀, hturned, horderly₁, hend⟩ :=
    hsound.ticks_orderly horderly hfits hlawful htick
  have hk₀ : k < m₀.jobs.size := hresembles.size.symm ▸ hk
  have hfits₀ : m₀.Fits := hfits.of_size hresembles.size
  have hon₀ := hresembles.on hk hon
  obtain ⟨e₁, hdeed, hon₁⟩ := hturned.deed hsound₀ horderly₀ hfits₀ hk₀ hon₀
  have hk₁ : k < m₁.jobs.size := hturned.size.symm ▸ hk₀
  have hopened : ∀ {m : Machine} {e : Errand}, m.Sound → k < m.jobs.size → m.On k e →
      e ≠ .rest → (m.job k).boot = .booted ∧ (m.job k).life ≠ .finished :=
    fun hsound hk hon hrest => ⟨(hon.opened hsound hk hrest).1, (hon.opened hsound hk hrest).2.1⟩
  -- what two machines that resemble each other have in common is kept, too
  have hsame : ∀ {m₂ m₃ : Machine} {e₂ : Errand} {P}, KeptByChores k P → k < m₂.jobs.size →
      m₂.Resembles m₃ → m₂.On k e₂ →
      (e₂ ≠ .rest → (m₂.job k).boot = .booted ∧ (m₂.job k).life ≠ .finished) →
      P m₂ e₂ → P m₃ e₂ := by
    intro m₂ m₃ e₂ P hkept hk₂ hresembles₂ hon₂ hopened₂ hP
    refine hkept hk₂ hresembles₂.chores hon₂ (hresembles₂.on hk₂ hon₂) (.keeps ?_ ?_) hopened₂ hP
    · rw [← view_source?, hresembles₂.view k hk₂, view_source?]
    · exact fun s text hwrote => hwrote.of_files hresembles₂.config hresembles₂.files
  refine ⟨m₀, m₁, e₁, hresembles, hsound₀, horderly₀, hon₀, hturned, hdeed, hon₁, ?_⟩
  rcases hend with ⟨status, hp, hend⟩ | ⟨_, hsound₁, hend⟩
  · -- after the exit no job waits
    have hrest : e₁ = .rest := hon₁.eq_rest (by
      rw [view_life, hturned.finished status hp k hk₀]
      decide)
    refine ⟨by rw [hend.view k hk₁], fun P hkept => ⟨?_, fun hP => ?_⟩⟩
    · exact hsame hkept hk hresembles hon (hopened hsound hk hon)
    · exact ⟨e₁, hend.on hk₁ hon₁, hsame hkept hk₁ hend hon₁ (fun h => absurd hrest h) hP⟩
  · have hdevices : ∀ P, KeptByChores k P → P m₁ e₁ →
        ∃ e₂, m₁.tickDevices.On k e₂ ∧ (m₁.tickDevices.view k).job = (m₁.view k).job ∧
          k < m₁.tickDevices.jobs.size ∧ P m₁.tickDevices e₂ := by
      intro P hkept hP
      refine (hsound₁.tickDevices_chores (P := fun m₂ => ∃ e₂, m₂.On k e₂ ∧
        (m₂.view k).job = (m₁.view k).job ∧ k < m₂.jobs.size ∧ P m₂ e₂) horderly₁
        ⟨e₁, hon₁, rfl, hk₁, hP⟩ ?_).1
      rintro m₂ m₃ hsound₂ _ _ hchores ⟨e₂, hon₂, hjob, hk₂, hP₂⟩
      obtain ⟨e₃, hchore, hon₃⟩ := hchores.chore k hk₂ e₂ hon₂
      exact ⟨e₃, hon₃, (hchores.job k hk₂).trans hjob, hchores.size.symm ▸ hk₂,
        hkept hk₂ hchores hon₂ hon₃ hchore (hopened hsound₂ hk₂ hon₂) hP₂⟩
    obtain ⟨_, _, hjob, hk₂, _⟩ := hdevices (fun _ _ => True)
      (fun _ _ _ _ _ _ _ _ _ _ _ => trivial) trivial
    refine ⟨by rw [hend.view k hk₂, hjob], fun P hkept => ⟨?_, fun hP => ?_⟩⟩
    · exact hsame hkept hk hresembles hon (hopened hsound hk hon)
    · obtain ⟨e₂, hon₂, _, _, hP₂⟩ := hdevices P hkept hP
      exact ⟨e₂, hend.on hk₂ hon₂, hsame hkept hk₂ hend hon₂
        (hopened hsound₁.tickDevices.1 hk₂ hon₂) hP₂⟩

section Launch

variable {jobs : List (Job × Option Reader)} {config : Config} {files : Files} {journal : Journal}
  {first : Machine}

/-- Before the start job `k` is at rest. -/
theorem Launches.on_new (h : Launches jobs config files journal first) (hk : k < jobs.length) :
    (new jobs config files journal).On k .rest := by
  obtain ⟨index, origin, path?, hview⟩ := exists_view_new config files journal h.1 hk
  refine ⟨?_, trivial, fun hboot => ?_⟩
  · rw [hview]
    exact View.on_rest rfl (by simp [Job.new]) rfl fun side => by cases side <;> rfl
  · rw [← view_boot, hview] at hboot
    exact absurd hboot (by simp [Job.new])

/-- What the start does to job `k`. -/
theorem Launches.deed (h : Launches jobs config files journal first)
    (hregular : (new jobs config files journal).Regular) (hk : k < jobs.length) :
    (new jobs config files journal).Deed first k .rest .rest ∧ first.On k .rest := by
  have hsettles := h.hands.settles
  have hk' : k < (new jobs config files journal).jobs.size := by simpa [new] using hk
  have hsubject : (new jobs config files journal).subject? ≠ some k := by
    rw [subject?_of_isIdle rfl]
    simp [running?, new]
  exact (h.shift hk).deed hsubject rfl hregular hsettles.config hsettles.opens
    (wired_new config files journal h.ne_nil h.1) hk' (h.on_new hk)

/-- A machine that has started is orderly. -/
theorem Launches.orderly (h : Launches jobs config files journal first)
    (hregular : (new jobs config files journal).Regular) : first.Orderly := by
  have hsettles := h.hands.settles
  constructor
  case errand => exact fun k hk => ⟨.rest, (h.deed hregular (h.size ▸ hk)).2⟩
  case signals =>
    intro side htrap
    exact absurd hsettles.line (TrapLine.not_isIdle htrap)
  case charged =>
    intro k hculprit
    rw [hsettles.culprit] at hculprit
    simp [new] at hculprit
  case regular => exact hregular.of_alike hsettles.config hsettles.opens.alike

theorem Run.fits (hlaunch : Launches jobs config files journal first)
    (hfew : 2 * jobs.length < 2 ^ 31) {past : List Machine} {p : Progress}
    (hrun : Run first p past m) : m.Fits := by
  unfold Fits
  rw [hrun.size hlaunch]
  exact hfew

/-- The machines of a lawful run are orderly, those in `past` and `m`. -/
theorem Run.orderly (hlaunch : Launches jobs config files journal first)
    (hregular : (new jobs config files journal).Regular) (hfew : 2 * jobs.length < 2 ^ 31)
    {past : List Machine} {p : Progress} (hrun : Run first p past m)
    (hlawful : ∀ x ∈ past, x.isLawful = true) :
    (∀ x ∈ past, x.Orderly) ∧ m.Orderly := by
  induction hrun with
  | start => exact ⟨by simp, hlaunch.orderly hregular⟩
  | @tick past m m' p hrun htick ih =>
    obtain ⟨hpast, horderly⟩ := ih fun x hx => hlawful x (List.mem_cons_of_mem _ hx)
    refine ⟨fun x hx => ?_, ?_⟩
    · rcases List.mem_cons.1 hx with rfl | hmem
      · exact horderly
      · exact hpast x hmem
    · exact ((hrun.sound hlaunch.sound).2 rfl).tick_orderly horderly (hrun.fits hlaunch hfew)
        (hlawful m List.mem_cons_self) htick

/-- What `P` says of job `k` at the start, and what turns of the processor and ticks of devices
keep, holds of the job in every lawful run. -/
theorem Run.keeps (hlaunch : Launches jobs config files journal first)
    (hregular : (new jobs config files journal).Regular) (hfew : 2 * jobs.length < 2 ^ 31)
    {P : Machine → Errand → Prop} (hk : k < jobs.length) (base : P first .rest)
    (turn : ∀ {m m' e e' p}, m.Sound → k < m.jobs.size → m.isLawful = true → m.Turned p m' →
      m.On k e → m'.On k e' → m.Deed m' k e e' → P m e → P m' e')
    (chore : KeptByChores k P) {past : List Machine} {p : Progress} (hrun : Run first p past m)
    (hlawful : ∀ x ∈ past, x.isLawful = true) : ∃ e, m.On k e ∧ P m e := by
  induction hrun with
  | start => exact ⟨.rest, (hlaunch.deed hregular hk).2, base⟩
  | @tick past m m' p hrun htick ih =>
    have hpast : ∀ x ∈ past, x.isLawful = true := fun x hx => hlawful x (List.mem_cons_of_mem _ hx)
    obtain ⟨e, hon, hP⟩ := ih hpast
    have hsize : k < m.jobs.size := hrun.size hlaunch ▸ hk
    have hm := hlawful m List.mem_cons_self
    obtain ⟨m₀, m₁, e₁, hresembles, hsound₀, _, hon₀, hturned, hdeed, hon₁, _, hkept⟩ :=
      ((hrun.sound hlaunch.sound).2 rfl).tick_job (hrun.orderly hlaunch hregular hfew hpast).2
        (hrun.fits hlaunch hfew) hm htick hsize hon
    obtain ⟨hbefore, hafter⟩ := hkept P chore
    exact hafter (turn hsound₀ (hresembles.size.symm ▸ hsize) (hresembles.isLawful.trans hm)
      hturned hon₀ hon₁ hdeed (hbefore hP))

end Launch

end Machine

end BatchMachine
