import BatchMachine.Proofs.OutputFiles
import BatchMachine.Proofs.WakeUps

/-!
# Errands

As long as programs leave the completions to the devices, a job that waits is on exactly one errand:
its input or its output device is at work for it, or that device has signalled on the processor's
line. No request is ever held back, no completion goes to another job than the one that asked, and
every turn of the processor takes each job from one errand to the next.

* `Machine.isLawful`: the next instruction leaves the completions to the devices.
* `Errand`, `View.On`, `Machine.On`: what a job waits for.
* `Machine.Orderly`: every job is on an errand, and the processor's line fits the errands.
* `Machine.Deed`, `Machine.Turned.deed`: what a turn of the processor does to a job on an errand.
* `Machine.Turned.orderly`: a lawful turn keeps a machine orderly.
-/

namespace BatchMachine

open JobText

/-- `i` does not raise a trap that is kept for devices. -/
def Instruction.isLawful (i : Instruction) : Bool :=
  !(i.opcode = .trap && (i.first = Trap.getwReady.code || i.first = Trap.putwReady.code))

theorem Instruction.ne_completion {i : Instruction} (h : i.isLawful = true)
    (htrap : i.opcode = .trap) (side : Side) : i.first ≠ side.completion.code := by
  simp only [isLawful, htrap, decide_true, Bool.true_and, Bool.not_eq_true', Bool.or_eq_false_iff,
    decide_eq_false_iff_not] at h
  cases side
  · exact h.1
  · exact h.2

/-- If `m` executes an instruction in its next tick, then one that does not raise a trap that is
kept for devices. -/
def Machine.isLawful (m : Machine) : Bool :=
  match m.tickProcessor.1 with
  | .stepped (.ok i) => i.isLawful
  | _ => true

/-- What a job waits for, with the words that its request is about. -/
inductive Errand where
  /-- Nothing. -/
  | rest
  /-- The input device is to read a word for `register`. -/
  | reads (register : Word)
  /-- The input device has read `word` for `register`. -/
  | got (register word : Word)
  /-- The input device has not been able to read a word for `register`. -/
  | missed (register : Word)
  /-- The output device is to write `word`. -/
  | writes (word : Word)
  /-- The output device has written `word`. -/
  | wrote (word : Word)
  deriving DecidableEq

namespace Errand

variable {e : Errand}

/-- The device that is at work for an errand, if one is. -/
def side? : Errand → Option Side
  | reads _ => some .input
  | writes _ => some .output
  | _ => none

/-- The register that gets an input word, as `Job.target?` names it. -/
def target? : Errand → Option Word
  | reads r | got r _ | missed r => some r
  | _ => none

/-- The devices of `v` hold the words that they are to write or have read for an errand. -/
def Held (v : View) : Errand → Prop
  | got _ w => v.input.trap.data = w
  | writes w =>
    (v.output.trap.isIdle = false ∧ v.output.trap.data = w) ∨
      (v.output.trap.isIdle = true ∧ ∃ sink?, v.output.link = .output w sink?)
  | wrote w => ∃ sink?, v.output.link = .output w sink?
  | _ => True

/-- What the errand of job `k` has on the processor's line. -/
def Signalled (m : Machine) (k : Nat) : Errand → Prop
  | got _ _ =>
    m.line.trap? = some .getwReady ∧ m.line.data = .ofCount (inputNumber k) ∧ m.line.status = 0
  | missed _ =>
    m.line.data = .ofCount (inputNumber k) ∧
      ((m.line.trap? = some .getwReady ∧ m.line.status ≠ 0) ∨
        (m.line.trap? = some .fatal ∧ m.culprit? = some k))
  | wrote _ =>
    m.line.trap? = some .putwReady ∧ m.line.data = .ofCount (outputNumber k) ∧ m.line.status = 0
  | _ => True

/-- The device is done, well or not. -/
def isDone : Errand → Bool
  | got _ _ | missed _ | wrote _ => true
  | _ => false

/-- No device is at work any more for an errand that is done. -/
theorem side?_of_isDone (h : e.isDone = true) : e.side? = none := by
  cases e with
  | rest | reads r | writes w => simp [isDone] at h
  | got r w | missed r | wrote w => rfl

theorem ne_rest_of_isDone (h : e.isDone = true) : e ≠ .rest := by
  rintro rfl
  simp [isDone] at h

end Errand

namespace View

variable {v : View} {e : Errand} {j : Nat}

/-- Nothing has been asked of the devices of `v` that they have not done. -/
def Quiet (v : View) : Prop :=
  ∀ side, (v.device side).isIdle = true

/-- What belongs to the job that `v` shows fits its errand `e`. No request of it is held back. -/
structure On (v : View) (e : Errand) : Prop where
  pending : v.job.pending? = none
  waits : v.job.life = .waiting ↔ e ≠ .rest
  target : v.job.target? = e.target?
  idle : ∀ side, (v.device side).isIdle = true ↔ e.side? ≠ some side
  held : e.Held v

namespace On

theorem quiet (h : v.On e) (hside : e.side? = none) : v.Quiet :=
  fun side => (h.idle side).2 (by simp [hside])

/-- If a job does not wait it is on no errand. -/
theorem eq_rest (h : v.On e) (hlife : v.job.life ≠ .waiting) : e = .rest := by
  by_contra hrest
  exact hlife (h.waits.2 hrest)

/-- If the job that `v` shows is on an errand `e` it is not over. -/
theorem unfinished (h : v.On e) (hrest : e ≠ .rest) : v.job.life ≠ .finished := by
  rw [h.waits.2 hrest]
  decide

/-- If the job that `v` shows waits while its devices have nothing to do, it waits for one that is
done. -/
theorem isDone (h : v.On e) (hlife : v.job.life = .waiting) (hquiet : v.Quiet) :
    e.isDone = true := by
  have hrest := h.waits.1 hlife
  have hside : ∀ side, e.side? ≠ some side := fun side => (h.idle side).1 (hquiet side)
  cases e with
  | rest => exact absurd rfl hrest
  | reads r => exact absurd rfl (hside .input)
  | writes w => exact absurd rfl (hside .output)
  | got r w | missed r | wrote w => rfl

end On

/-- If the job that `v` shows does not wait, has named no register and its devices have nothing to
do, it is on no errand. -/
theorem on_rest (hpending : v.job.pending? = none) (hlife : v.job.life ≠ .waiting)
    (htarget : v.job.target? = none) (hquiet : v.Quiet) : v.On .rest :=
  ⟨hpending, by simp [hlife], htarget, fun side => by simp [hquiet side, Errand.side?], trivial⟩

theorem quiet_entered (h : v.Quiet) (reader : Reader) (image : List Instruction) (s : Sink) :
    (v.entered j reader image s).Quiet := by
  intro side
  cases side with
  | input => exact h .input
  | output =>
    rw [← h .output]
    exact Device.isIdle_withSink s

theorem quiet_dismissed (h : v.Quiet) : v.dismissed.Quiet := by
  intro side
  cases side with
  | input => exact Device.isIdle_release.trans (h .input)
  | output => exact Device.isIdle_release.trans (h .output)

/-- When there is nothing on the trap line of the device of `v` on the side `side`, it has no more
to do than before. -/
theorem quiet_acknowledged (h : v.Quiet) (side : Side) : (v.acknowledged side).Quiet := by
  intro side'
  rw [acknowledged, device_withDevice]
  have hidle := h side
  split
  · simp only [Device.isIdle, Bool.and_eq_true] at hidle ⊢
    exact ⟨rfl, hidle.2⟩
  · exact h side'

theorem quiet_collected (h : v.Quiet) (side : Side) : (v.collected side).Quiet := by
  intro side'
  have hquiet := quiet_acknowledged h side side'
  cases side' <;> exact hquiet

end View

/-- The errand of a job that has asked for a transfer with its device on this side, naming a
register and the word in it. -/
def Side.errand : Side → Word → Word → Errand
  | .input, register, _ => .reads register
  | .output, _, value => .writes value

/-- When job `j` has asked for a transfer on the side `side`, it is on an errand. -/
theorem View.On.asks {v : View} {j : Nat} (h : v.On .rest) (side : Side) (register value : Word) :
    (v.asks j side register value).On (side.errand register value) ∧
      (v.asks j side register value).source? = v.source? ∧
      (v.asks j side register value).job =
        { v.job with life := .waiting, target? := (side.errand register value).target? } ∧
      (v.asks j side register value).output.sink? = v.output.sink? := by
  have hquiet := h.quiet rfl
  have hin : v.input.isIdle = true := hquiet .input
  have hout : v.output.isIdle = true := hquiet .output
  -- the request is on the line of the one device that is asked, and the other stays quiet
  have hraised : ∀ (d : Device) (trap : Trap) (data : Word),
      { d with trap := .raise trap data }.isIdle = false := by
    intro d trap data
    rw [Device.isIdle, TrapLine.isIdle_raise]
    rfl
  obtain ⟨job, source?, input, output⟩ := v
  have hpending : job.pending? = none := h.pending
  have htarget : job.target? = none := h.target
  have hne : outputNumber j ≠ inputNumber j := by simp [outputNumber, inputNumber]
  cases side with
  | input =>
    simp only [View.asks, View.asking, View.offered, View.device, hin, if_true, View.withDevice]
    refine ⟨⟨rfl, by simp [Side.errand], rfl, fun side => ?_, trivial⟩, trivial, ?_, trivial⟩
    · cases side with
      | input => simp [View.device, hraised, Side.errand, Errand.side?]
      | output => simpa [View.device, Side.errand, Errand.side?] using hout
    · rw [← hpending]
      rfl
  | output =>
    simp only [View.asks, View.asking, View.offered, View.device, hne, if_false, hout, if_true,
      View.withDevice]
    refine ⟨⟨rfl, by simp [Side.errand], htarget, fun side => ?_, .inl ⟨?_, rfl⟩⟩, trivial, ?_, rfl⟩
    · cases side with
      | input => simpa [View.device, Side.errand, Errand.side?] using hin
      | output => simp [View.device, hraised, Side.errand, Errand.side?]
    · exact TrapLine.isIdle_raise _ _
    · rw [← hpending, htarget]
      rfl

/-- What the device on the side `side` has fetched or written for a job that has asked for it has
arrived. -/
theorem View.On.collected {v : View} {e : Errand} (h : v.On e) (side : Side)
    (hdone : e.isDone = true) :
    (v.collected side).On .rest ∧ (v.collected side).output.sink? = v.output.sink? := by
  have hlife : v.job.life = .waiting := h.waits.2 (Errand.ne_rest_of_isDone hdone)
  have hquiet := h.quiet (Errand.side?_of_isDone hdone)
  refine ⟨View.on_rest h.pending ?_ rfl (View.quiet_collected hquiet side),
    by cases side <;> rfl⟩
  simp [View.collected, hlife]

namespace Machine

variable {m m₁ m' : Machine} {j k : Nat} {e e' : Errand}

/-- If job `k` has been booted and is not over, its output device writes to the file of the job's
latest segment. -/
def Sinks (m : Machine) (k : Nat) : Prop :=
  (m.job k).boot = .booted → (m.job k).life ≠ .finished →
    ∃ loc text, (m.view k).output.sink? = some ⟨loc, .plain⟩ ∧
      m.hardware.files.Places (m.outputFile k (m.job k).segments) loc ∧
      m.hardware.files.entry? loc = some (.text text)

/-- Job `k` is on the errand `e`, and its output goes to the file of its segment. -/
structure On (m : Machine) (k : Nat) (e : Errand) : Prop extends (m.view k).On e where
  signalled : e.Signalled m k
  sinks : m.Sinks k

/-- Every job of `m` is on an errand. What the processor's line carries from devices comes from jobs
that wait for it, and output files are files. -/
structure Orderly (m : Machine) : Prop where
  errand : ∀ k < m.jobs.size, ∃ e, m.On k e
  signals : ∀ side : Side, m.line.trap? = some side.completion →
    ∃ k < m.jobs.size, (m.job k).life = .waiting ∧ (m.view k).Quiet ∧
      m.line.data = .ofCount (side.number k)
  charged : ∀ k, m.culprit? = some k → (m.job k).life = .waiting ∧ (m.view k).Quiet
  regular : m.Regular

/-- The numbers of the devices of `m` fit into words. -/
def Fits (m : Machine) : Prop :=
  2 * m.jobs.size < 2 ^ 31

theorem Fits.number_lt (h : m.Fits) (hk : k < m.jobs.size) (side : Side) :
    side.number k < 2 ^ 31 := by
  unfold Fits at h
  cases side <;> simp only [Side.number, inputNumber, outputNumber] <;> omega

theorem Fits.of_size (h : m.Fits) (hsize : m'.jobs.size = m.jobs.size) : m'.Fits := by
  unfold Fits
  rw [hsize]
  exact h

/-- What is on the line does not matter to a job `k` whose devices are not done. -/
theorem signalled_of_isDone (hdone : e.isDone = false) : e.Signalled m k := by
  cases e <;> simp_all [Errand.isDone, Errand.Signalled]

/-- The turn is about job `k` if its device is done. -/
theorem On.subject? (h : m.On k e) (w : m.Wired) (hfits : m.Fits) (hk : k < m.jobs.size)
    (hdone : e.isDone = true) : m.subject? = some k := by
  have hcompletes : ∀ side side' : Side, m.line.trap? = some side'.completion →
      m.line.data = .ofCount (side.number k) → m.subject? = some k := by
    intro side side' htrap hdata
    have hindex : Word.index? m.line.data = some (side.number k) := by
      rw [hdata]
      exact Word.index?_ofCount (hfits.number_lt hk side)
    rw [subject?_of_completion htrap, completedBy?_number w hk hindex]
    rfl
  have hsignalled := h.signalled
  cases e with
  | rest | reads r | writes w => simp [Errand.isDone] at hdone
  | got r w => exact hcompletes .input .input hsignalled.1 hsignalled.2.1
  | wrote w => exact hcompletes .output .output hsignalled.1 hsignalled.2.1
  | missed r =>
    rcases hsignalled.2 with ⟨htrap, _⟩ | ⟨htrap, hculprit⟩
    · exact hcompletes .input .input htrap hsignalled.1
    · rw [subject?_of_fatal htrap, hculprit]
      rfl

/-- If the turn is not about job `k`, the job is on an errand that is not done. -/
theorem On.isDone_eq_false (h : m.On k e) (w : m.Wired) (hfits : m.Fits) (hk : k < m.jobs.size)
    (hsubject : m.subject? ≠ some k) : e.isDone = false := by
  rw [Bool.eq_false_iff]
  exact fun hdone => hsubject (h.subject? w hfits hk hdone)

/-- If job `k` runs it is on no errand. -/
theorem On.rest_of_runs (h : m.On k e) (hsound : m.Sound) (hrun : m.runs k = true) : e = .rest :=
  h.eq_rest (by rw [view_life, (hsound.of_runs hrun).1]; decide)

/-- How the segment of job `k`, which is on an errand, ends with an outcome. -/
inductive Ending (m : Machine) (k : Nat) : Errand → Outcome → Prop
  /-- The job halts or is at the end of its image. -/
  | stops {o : Outcome} {status : Word} : m.runs k = true → m.culprit? = none → m.Stops o status →
      Ending m k .rest o
  /-- The job has made an error. -/
  | errs : m.runs k = true → m.culprit? = none → m.line.trap? = some .fatal →
      Ending m k .rest (.fatal m.line.data)
  /-- There is no word for the job to read into the register `r`. -/
  | misses {r : Word} : m.culprit? = some k →
      Ending m k (.missed r) (.fatal (.ofCount (inputNumber k)))

/-- No device is at work for job `k` when its segment ends. -/
theorem Ending.side?_eq {o : Outcome} (h : m.Ending k e o) : e.side? = none := by
  cases h <;> rfl

/-- The segment of job `k` ends, with the outcome `o`, in no other way. -/
theorem On.ending (h : m.On k e) (hsound : m.Sound) (horderly : m.Orderly) {o : Outcome}
    (hcloses : m.Closes k o) : m.Ending k e o := by
  rcases hcloses with ⟨hrun, status, hstops⟩ | ⟨htrap, hcharged, rfl⟩
  · obtain rfl := h.rest_of_runs hsound hrun
    exact .stops hrun (hsound.runs_of_stops hstops).2.1 hstops
  · cases hculprit : m.culprit? with
    | none =>
      rw [hculprit] at hcharged
      have hidle := hsound.busy_of_fatal htrap hculprit
      have hrun : m.runs k = true := runs_eq_true_iff.2 ⟨hidle, hcharged⟩
      obtain rfl := h.rest_of_runs hsound hrun
      exact .errs hrun hculprit htrap
    | some i =>
      rw [hculprit] at hcharged
      obtain rfl : i = k := hcharged
      obtain ⟨hlife, hquiet⟩ := horderly.charged i hculprit
      have hdone := h.isDone hlife hquiet
      have hsignalled := h.signalled
      -- the line carries an error, so that the device has not done what it was asked to do
      cases e with
      | rest | reads r | writes w => simp [Errand.isDone] at hdone
      | got r w =>
        exact absurd (htrap.symm.trans hsignalled.1) (by decide)
      | wrote w =>
        exact absurd (htrap.symm.trans hsignalled.1) (by decide)
      | missed r =>
        rw [hsignalled.1]
        exact .misses hculprit

/-- If a device of job `k` signals, it is the one that the job waits for. -/
theorem On.of_completes (h : m.On k e) (hfits : m.Fits) (horderly : m.Orderly)
    (hk : k < m.jobs.size) {side : Side} (hcompletes : m.Completes k side) :
    (∃ r w, e = .got r w ∧ side = .input ∧ m.line.status = 0) ∨
      (∃ r, e = .missed r ∧ side = .input ∧ m.line.status ≠ 0) ∨
      (∃ w, e = .wrote w ∧ side = .output ∧ m.line.status = 0) := by
  obtain ⟨⟨side', htrap⟩, hindex⟩ := hcompletes
  obtain ⟨i, hi, hlife, hquiet, hdata⟩ := horderly.signals side' htrap
  rw [hdata, Word.index?_ofCount (hfits.number_lt hi side'), Option.some.injEq,
    Side.number_inj] at hindex
  obtain ⟨rfl, rfl⟩ := hindex
  -- the wait of the job is over, as none of its devices is at work
  have hdone := h.isDone hlife hquiet
  have hsignalled := h.signalled
  have hinj : ∀ side : Side, m.line.data = .ofCount (side.number i) → side' = side := by
    intro side hside
    have hcount := Word.index?_ofCount (hfits.number_lt hi side')
    rw [← hdata, hside, Word.index?_ofCount (hfits.number_lt hi side), Option.some.injEq,
      Side.number_inj] at hcount
    exact hcount.1.symm
  cases e with
  | rest | reads r | writes w => simp [Errand.isDone] at hdone
  | got r w => exact .inl ⟨r, w, rfl, hinj .input hsignalled.2.1, hsignalled.2.2⟩
  | wrote w =>
    exact .inr (.inr ⟨w, rfl, hinj .output hsignalled.2.1, hsignalled.2.2⟩)
  | missed r =>
    rcases hsignalled.2 with ⟨_, hstatus⟩ | ⟨hfatal, _⟩
    · exact .inr (.inl ⟨r, rfl, hinj .input hsignalled.1, hstatus⟩)
    · simp [htrap] at hfatal

/-! ## What a turn of the processor does -/

/-- What a turn of the processor, from `m` to `m'`, does to the errand of job `k`. -/
inductive Deed (m m' : Machine) (k : Nat) : Errand → Errand → Prop
  /-- The turn is not about the job. -/
  | stays {e : Errand} : m.subject? ≠ some k → m'.view k = m.view k → Deed m m' k e e
  /-- The job is booted with the code `image`. -/
  | boots {r reader : Reader} {image : List Instruction} {s : Sink} :
      (m.job k).boot = .fresh → (m.job k).life = .runnable → m.subject? ≠ some k →
      (∀ r', m.hardware.source? k = some r' → r' = r) →
      r.nextImage = (.ok (some image), reader) → m'.Wrote k ((m.job k).segments + 1) "" →
      m'.view k = (m.view k).started k reader image s → Deed m m' k .rest .rest
  /-- The job is given up. -/
  | drops {files : Files} : (m.job k).boot = .fresh → (m.job k).life = .runnable →
      m.subject? ≠ some k → m.Opens files → m.Barred k files →
      m'.view k = (m.view k).dropped → Deed m m' k .rest .rest
  /-- The job executes an instruction. -/
  | steps : m.line.isIdle = true → m.runs k = true → m.hardware.cpu.atEnd = false →
      m'.hardware.cpu = m.hardware.cpu.step.2 → m'.control = m.control →
      m'.view k = { m.view k with
        job := { (m.view k).job with registers := m.hardware.cpu.step.2.regs } } →
      Deed m m' k .rest .rest
  /-- A trap of the job becomes an error. -/
  | rejects : m.runs k = true → m.Misuses → m'.line = .raise .fatal 0 →
      m'.control = m.control → m'.view k = m.view k → Deed m m' k .rest .rest
  /-- A segment of the job ends with the outcome `o`, and the next one, `image`, is loaded. -/
  | reloads {e : Errand} {o : Outcome} {r reader : Reader} {image : List Instruction} {s : Sink} :
      m.Ending k e o → m.hardware.source? k = some r →
      r.nextImage = (.ok (some image), reader) → m'.Wrote k ((m.job k).segments + 1) "" →
      m'.view k = ((m.view k).withOutcome o).entered k reader image s → Deed m m' k e .rest
  /-- The last segment of the job ends with the outcome `o`. -/
  | retires {e : Errand} {o : Outcome} : m.Ending k e o → m.Barred k m.hardware.files →
      m'.view k = ((m.view k).withOutcome o).dismissed → Deed m m' k e .rest
  /-- The job asks for a transfer on the side `side`, naming a register with the word `value` in
  it. -/
  | asks {side : Side} {value : Word} : m.runs k = true → m.line.trap? = some side.request →
      m.hardware.cpu.regs.get? m.line.data = some value →
      m'.view k = (m.view k).asks k side m.line.data value →
      Deed m m' k .rest (side.errand m.line.data value)
  /-- There is no word for the job to read. -/
  | fails {r : Word} : m.line.status ≠ 0 → m'.line = .raise .fatal m.line.data →
      m'.culprit? = some k → m'.view k = (m.view k).acknowledged .input →
      Deed m m' k (.missed r) (.missed r)
  /-- The word `w` that the job reads into the register `r` arrives. -/
  | fetches {r w : Word} : m'.view k = (m.view k).collected .input → Deed m m' k (.got r w) .rest
  /-- The word `w` of the job has been written. -/
  | delivers {w : Word} : m'.view k = (m.view k).collected .output →
      Deed m m' k (.wrote w) .rest

/-- The output file of the latest segment of job `k` stays in place in a turn. -/
theorem Sinks.of_view (h : m.Sinks k) (hopens : m.Opens m'.hardware.files)
    (hconfig : m'.config = m.config) {v : View} (hview : m'.view k = v)
    (hboot : v.job.boot = (m.view k).job.boot)
    (hlife : v.job.life ≠ .finished → (m.view k).job.life ≠ .finished)
    (hsegments : v.job.segments = (m.view k).job.segments)
    (hsink : v.output.sink? = (m.view k).output.sink?) : m'.Sinks k := by
  subst hview
  intro hbooted hunfinished
  obtain ⟨loc, text, hbound, hplaces, hentry⟩ := h (hboot.symm.trans hbooted) (hlife hunfinished)
  refine ⟨loc, text, hsink.trans hbound, ?_, (hopens.entry_eq hplaces le_rfl).trans hentry⟩
  rw [← view_segments, hsegments, outputFile_congr hconfig]
  exact hopens.alike.places hplaces

/-- If job `k` enters a segment, its output goes to the file at `loc`, which has been created
last. -/
theorem sinks_entered (w : m.Wired) (hk : k < m.jobs.size) {loc : Location}
    (hplaces : m'.hardware.files.Places (m'.outputFile k ((m.job k).segments + 1)) loc)
    (hwrote : m'.Wrote k ((m.job k).segments + 1) "")
    (hsegments : (m'.view k).job.segments = (m.job k).segments + 1)
    (houtput : (m'.view k).output = (m.view k).output.withSink ⟨loc, .plain⟩) : m'.Sinks k := by
  obtain ⟨loc', hplaces', hentry⟩ := hwrote
  obtain rfl := hplaces.eq hplaces'
  refine fun _ _ => ⟨loc, "", ?_, ?_, hentry⟩
  · rw [houtput]
    exact (w.output k hk).sink?_withSink _
  · rw [← view_segments, hsegments]
    exact hplaces

/-- The search for the next job does no more to a job `k` that the turn is not about. -/
theorem Shift.deed (hshift : m.Shift m' k) (hsubject : m.subject? ≠ some k)
    (hdone : e.isDone = false) (hregular : m.Regular) (hconfig : m'.config = m.config)
    (hopens : m.Opens m'.hardware.files) (w : m.Wired) (hk : k < m.jobs.size) (h : m.On k e) :
    m.Deed m' k e e ∧ m'.On k e := by
  cases hshift with
  | stays hview =>
    exact ⟨.stays hsubject hview, hview ▸ h.toOn, signalled_of_isDone hdone,
      h.sinks.of_view hopens hconfig hview rfl id rfl rfl⟩
  | @boots r reader image files loc hboot hlife _ hsource hnext _ hfiles hcreate hview =>
    obtain rfl := h.eq_rest (by rw [view_life, hlife]; decide)
    obtain ⟨hwrote, hplaces, hsink⟩ := hregular.wrote hconfig hfiles hcreate
    refine ⟨.boots hboot hlife hsubject hsource hnext hwrote hview, ?_, trivial,
      sinks_entered w hk hplaces hwrote (by rw [hview]; rfl) (by rw [hview, ← hsink]; rfl)⟩
    rw [hview]
    exact View.on_rest rfl (by simp [View.started, View.entered, View.attached, Job.enter]) rfl
      (View.quiet_entered (h.quiet rfl) reader image _)
  | drops hboot hlife hfiles hbarred hview =>
    obtain rfl := h.eq_rest (by rw [view_life, hlife]; decide)
    refine ⟨.drops hboot hlife hsubject hfiles hbarred hview, ?_, trivial, fun _ hover => ?_⟩
    · rw [hview]
      exact View.on_rest rfl (by simp [View.dropped, View.dismissed]) rfl
        (View.quiet_dismissed (h.quiet rfl))
    · rw [← view_life, hview] at hover
      exact absurd rfl hover

/-- A turn does something to job `k` on the errand `e` that takes it to the next one. -/
theorem Turned.deed {p : Progress} (hturned : m.Turned p m') (hsound : m.Sound)
    (horderly : m.Orderly) (hfits : m.Fits) (hk : k < m.jobs.size) (h : m.On k e) :
    ∃ e', m.Deed m' k e e' ∧ m'.On k e' := by
  have w := hsound.wired
  cases hturned.move k hk with
  | shifts hsubject hshift =>
    exact ⟨e, hshift.deed hsubject (h.isDone_eq_false w hfits hk hsubject) horderly.regular
      hturned.config hturned.opens w hk h⟩
  -- a job that runs waits for nothing
  | steps hline hrun hend hcpu hcontrol hview =>
    obtain rfl := h.rest_of_runs hsound hrun
    refine ⟨.rest, .steps hline hrun hend hcpu hcontrol hview, ?_, trivial,
      h.sinks.of_view hturned.opens hturned.config hview rfl id rfl rfl⟩
    rw [hview]
    exact ⟨h.pending, h.waits, h.target, h.idle, trivial⟩
  | rejects hrun hmisuses hline hcontrol hview =>
    obtain rfl := h.rest_of_runs hsound hrun
    exact ⟨.rest, .rejects hrun hmisuses hline hcontrol hview, hview ▸ h.toOn, trivial,
      h.sinks.of_view hturned.opens hturned.config hview rfl id rfl rfl⟩
  | @reloads o r reader image loc hcloses hsource hnext hhealthy hcreate hview =>
    have hending := h.ending hsound horderly hcloses
    -- the new output file is empty, and that of no other segment
    obtain ⟨hwrote, hplaces, hsink⟩ :=
      horderly.regular.wrote hturned.config (.refl (m := m)) hcreate
    refine ⟨.rest, .reloads hending hsource hnext hwrote hview, ?_, trivial,
      sinks_entered w hk hplaces hwrote (by rw [hview]; rfl) (by rw [hview, ← hsink]; rfl)⟩
    rw [hview]
    exact View.on_rest rfl (by simp [View.entered, View.attached, Job.enter]) rfl
      (View.quiet_entered (h.quiet hending.side?_eq) reader image _)
  | retires hcloses hbarred hview =>
    have hending := h.ending hsound horderly hcloses
    refine ⟨.rest, .retires hending hbarred hview, ?_, trivial, fun _ hover => ?_⟩
    · rw [hview]
      exact View.on_rest rfl (by simp [View.dismissed]) rfl
        (View.quiet_dismissed (h.quiet hending.side?_eq))
    · rw [← view_life, hview] at hover
      exact absurd rfl hover
  | @asks side value hrun htrap hregister hview =>
    obtain rfl := h.rest_of_runs hsound hrun
    obtain ⟨hon, _, hjob, hsink⟩ := h.toOn.asks (j := k) side m.line.data value
    refine ⟨_, .asks hrun htrap hregister hview, hview ▸ hon, ?_,
      h.sinks.of_view hturned.opens hturned.config hview ?_ ?_ ?_ hsink⟩
    · cases side <;> trivial
    · rw [hjob]
    · intro _ hover
      rw [view_life, (hsound.of_runs hrun).1] at hover
      exact absurd hover (by decide)
    · rw [hjob]
  | @fails side hcompletes hstatus hline hculprit hview =>
    -- of the errands that a completion can name, only one ends with a failure
    rcases h.of_completes hfits horderly hk hcompletes with
      ⟨_, _, _, _, hzero⟩ | ⟨r, rfl, rfl, _⟩ | ⟨_, _, _, hzero⟩
    · exact absurd hzero hstatus
    · have hquiet := View.quiet_acknowledged (h.quiet rfl) .input
      refine ⟨_, .fails hstatus hline hculprit hview, ?_, ⟨?_, .inr ⟨?_, hculprit⟩⟩,
        h.sinks.of_view hturned.opens hturned.config hview rfl id rfl rfl⟩
      · rw [hview]
        exact ⟨h.pending, h.waits, h.target, fun side => by simp [hquiet side, Errand.side?],
          trivial⟩
      · rw [hline]
        exact h.signalled.1
      · rw [hline]
        exact TrapLine.trap?_raise _ _
    · exact absurd hzero hstatus
  | @collects side hcompletes hstatus hview =>
    rcases h.of_completes hfits horderly hk hcompletes with
      ⟨r, w, rfl, rfl, _⟩ | ⟨_, _, _, hfailed⟩ | ⟨w, rfl, rfl, _⟩
    · obtain ⟨hon, hsink⟩ := h.toOn.collected .input rfl
      exact ⟨_, .fetches hview, hview ▸ hon, trivial, h.sinks.of_view hturned.opens hturned.config
        hview rfl (fun _ => h.unfinished (by simp)) rfl hsink⟩
    · exact absurd hstatus hfailed
    · obtain ⟨hon, hsink⟩ := h.toOn.collected .output rfl
      exact ⟨_, .delivers hview, hview ▸ hon, trivial, h.sinks.of_view hturned.opens hturned.config
        hview rfl (fun _ => h.unfinished (by simp)) rfl hsink⟩

/-- If `m` is lawful it executes a lawful instruction `i`. -/
theorem isLawful_of_step (h : m.isLawful = true) (hline : m.line.isIdle = true)
    (hidle : m.idle = false) (hend : m.hardware.cpu.atEnd = false) {i : Instruction}
    (hstep : m.hardware.cpu.step.1 = .ok i) : i.isLawful = true := by
  have hactivity : m.tickProcessor.1 = .stepped m.hardware.cpu.step.1 := by
    have hclear : m.hardware.cpu.trap.isIdle = true := hline
    change (m.hardware.cpu.tick (!m.idle)).1 = _
    simp [Processor.tick, hclear, hidle, hend]
  unfold isLawful at h
  rw [hactivity, hstep] at h
  exact h

/-- After a lawful turn no completion is on the line of `m'`. -/
theorem Lines.ne_completion (hlines : m.Lines m') (hlawful : m.isLawful = true) (side : Side) :
    m'.line.trap? ≠ some side.completion := by
  intro htrap
  cases hlines with
  | calm hclear =>
    exact absurd hclear (TrapLine.not_isIdle htrap)
  | steps hclear hidle hend hcpu =>
    rw [line, hcpu] at htrap
    rcases Processor.trap_step m.hardware.cpu with hsame | ⟨i, _, hop, hstep, hraised⟩ |
      ⟨_, hfatal⟩
    · rw [hsame] at htrap
      exact absurd hclear (TrapLine.not_isIdle htrap)
    · -- a lawful instruction does not name a completion
      have hcode := TrapLine.number_eq htrap
      rw [hraised] at hcode
      have hi := isLawful_of_step hlawful hclear hidle hend hstep
      exact Instruction.ne_completion hi hop side hcode
    · rw [hfatal, TrapLine.trap?_raise, Option.some.injEq] at htrap
      exact absurd htrap.symm side.completion_ne_fatal
  | rejects _ hfatal | fails _ _ _ hfatal =>
    rw [hfatal, TrapLine.trap?_raise, Option.some.injEq] at htrap
    exact absurd htrap.symm side.completion_ne_fatal

/-- A lawful turn keeps `m` orderly. -/
theorem Turned.orderly {p : Progress} (hturned : m.Turned p m') (hsound : m.Sound)
    (horderly : m.Orderly) (hfits : m.Fits) (hlawful : m.isLawful = true) : m'.Orderly := by
  constructor
  case errand =>
    intro k hk
    have hk' : k < m.jobs.size := hturned.size ▸ hk
    obtain ⟨e, hon⟩ := horderly.errand k hk'
    obtain ⟨e', _, hon'⟩ := hturned.deed hsound horderly hfits hk' hon
    exact ⟨e', hon'⟩
  case signals => exact fun side htrap => absurd htrap (hturned.lines.ne_completion hlawful side)
  case regular => exact horderly.regular.of_alike hturned.config hturned.opens.alike
  case charged =>
    intro k hculprit
    cases hturned.lines with
    | calm _ hnone =>
      rw [hnone] at hculprit
      simp at hculprit
    | steps hclear _ _ _ hcontrol =>
      rw [show m'.culprit? = m.culprit? from congrArg Control.culprit? hcontrol,
        hsound.culprit_of_isIdle hclear] at hculprit
      simp at hculprit
    | rejects hmisuses _ hcontrol =>
      rw [show m'.culprit? = m.culprit? from congrArg Control.culprit? hcontrol,
        hsound.culprit_eq_none hmisuses.trap?_ne.1] at hculprit
      simp at hculprit
    | @fails side j hj hcompletes hstatus _ hcontrol =>
      obtain rfl : j = k := by
        rw [show m'.culprit? = some j from congrArg Control.culprit? hcontrol] at hculprit
        exact Option.some.inj hculprit
      obtain ⟨e, hon⟩ := horderly.errand j hj
      obtain ⟨e', hdeed, hon'⟩ := hturned.deed hsound horderly hfits hj hon
      have hnone := hsound.culprit_eq_none hcompletes.trap?_ne_fatal
      -- the job whose transfer failed goes on waiting, now for the error
      rcases hon.of_completes hfits horderly hj hcompletes with
        ⟨_, _, _, _, hzero⟩ | ⟨r, rfl, rfl, _⟩ | ⟨_, _, _, hzero⟩
      · exact absurd hzero hstatus
      · cases hdeed with
        | stays hsubject =>
          exact absurd (hon.subject? hsound.wired hfits hj rfl) hsubject
        | reloads hending | retires hending =>
          cases hending with
          | misses hsome =>
            rw [hnone] at hsome
            simp at hsome
        | fails => exact ⟨hon'.waits.2 (by simp), hon'.quiet rfl⟩
      · exact absurd hzero hstatus

end Machine

end BatchMachine
