import BatchMachine.Proofs.View

/-!
# What loading a segment does

To load a segment is to read its code, to create its output file, to bind the two devices of the
job and to let the job enter the segment. What goes wrong on the way goes wrong before the output
file is created, but for one thing: that the text is not healthy shows last, when the input device
is to be bound to it.

* `Machine.Spoilt`: the output file of the next segment of a job will be created in vain.
* `Machine.loadNext_cases`: the next segment of a job is loaded (`Machine.Loads`), or the job is
  as it was (`Machine.Spares`), or its text is spoilt (`Machine.Spoils`).
* `Machine.endSegment_cases`: at the end of a segment a job loads the next one or is dismissed
  (`Machine.Dismisses`).
* `Machine.boot_cases`: a job is booted with its first segment, or left as it was.
-/

namespace BatchMachine

open JobText

namespace Device

/-- The output device `d`, bound to the sink `s`. -/
def withSink (d : Device) (s : Sink) : Device :=
  match d.link with
  | .output buffer _ => { d with link := .output buffer (some s) }
  | .input _ => d

/-- The input device `d`, bound to the text of job `j`. -/
def withJob (d : Device) (j : Nat) : Device :=
  { d with link := .input (some j) }

variable {d : Device} {j : Nat}

theorem IsInputOf.withJob (h : d.IsInputOf j) : (d.withJob j).IsInputOf j :=
  ⟨h.1, .inr rfl⟩

theorem IsOutputOf.withSink (h : d.IsOutputOf j) (s : Sink) : (d.withSink s).IsOutputOf j := by
  obtain ⟨hnumber, buffer, sink?, hlink⟩ := h
  refine ⟨?_, buffer, some s, ?_⟩ <;> simp [Device.withSink, hlink, hnumber]

theorem IsInputOf.release (h : d.IsInputOf j) : d.release.2.IsInputOf j := by
  obtain ⟨hnumber, hlink | hlink⟩ := h <;> simp [Device.release, hlink, IsInputOf, hnumber]

theorem IsOutputOf.release (h : d.IsOutputOf j) : d.release.2.IsOutputOf j := by
  obtain ⟨hnumber, buffer, sink?, hlink⟩ := h
  simp [Device.release, hlink, IsOutputOf, hnumber]

/-- When `d` is released it forgets the sink `s` that it was bound to. -/
theorem release_withSink (d : Device) (s : Sink) : (d.withSink s).release.2 = d.release.2 := by
  unfold withSink release
  cases hlink : d.link <;> simp [hlink]

end Device

/-- The sink of a file that has just been created at `loc` passes on at once. -/
theorem Sink.flush_ofFile (files : Files) (loc : Location) :
    (Sink.ofFile files loc).flush = (none, Sink.ofFile files loc) := by
  unfold Sink.ofFile
  split <;> rfl

namespace View

/-- Job `j` as `v` shows it, with its devices bound to its text and to the fresh sink `s`. -/
def attached (v : View) (j : Nat) (s : Sink) : View :=
  { v with input := v.input.withJob j, output := v.output.withSink s }

/-- Job `j` as `v` shows it when it has entered the segment with the code `image`, which `reader`
has read. -/
def entered (v : View) (j : Nat) (reader : Reader) (image : List Instruction) (s : Sink) : View :=
  { v.attached j s with
    job := v.job.enter reader.name image.toArray
    source? := some reader }

/-- `v` when the job is over, with its devices released. -/
def dismissed (v : View) : View where
  job := { v.job with life := .finished, pending? := none, target? := none }
  source? := none
  input := v.input.release.2
  output := v.output.release.2

end View

namespace JobText.Reader

/-- If `image` hands out the instructions `is`, they fit into `room`. -/
theorem length_image_le {room : Nat} {r r' : Reader} {is : List Instruction}
    (h : r.image room = (.ok is, r')) : is.length ≤ room := by
  induction room generalizing r r' is with
  | zero =>
    unfold image at h
    split at h <;> simp_all
  | succ room ih =>
    unfold image at h
    split at h
    · simp at h
    · simp only [Prod.mk.injEq, Except.ok.injEq] at h
      simp [← h.1]
    · simp only at h
      split at h
      · rename_i hrest
        simp only [Prod.mk.injEq, Except.ok.injEq] at h
        have := ih hrest
        simp only [← h.1, List.length_cons]
        omega
      · simp at h

theorem length_nextImage_le {r r' : Reader} {is : List Instruction}
    (h : r.nextImage = (.ok (some is), r')) : is.length ≤ imageLimit := by
  unfold nextImage at h
  split at h
  · simp at h
  · simp at h
  · split at h
    · rename_i himage
      simp only [Prod.mk.injEq, Except.ok.injEq, Option.some.injEq] at h
      exact h.1 ▸ length_image_le himage
    · simp at h

theorem healthy_seekCode {r r' : Reader} {found : Bool} (h : r.seekCode = (.ok found, r')) :
    r'.healthy = r.healthy := by
  unfold seekCode at h
  split at h
  · rw [(Prod.mk.inj h).2]
  · split at h
    · rw [← (Prod.mk.inj h).2]
    · split at h
      · rw [← (Prod.mk.inj h).2]
      · simp [fail] at h

theorem healthy_readInstruction {r r' : Reader} {i? : Option Instruction}
    (h : r.readInstruction = (.ok i?, r')) : r'.healthy = r.healthy := by
  have htake : (r.takeLine .afterCode).2.healthy = r.healthy := by
    unfold takeLine
    split
    · rfl
    · split <;> rfl
  unfold readInstruction readLine at h
  split at h
  · rename_i hline
    rw [← (Prod.mk.inj h).2, ← htake, hline]
  · rename_i hline
    split at h
    · rw [← (Prod.mk.inj h).2, ← htake, hline]
    · simp [fail] at h

theorem healthy_fetchInstruction {r r' : Reader} {i? : Option Instruction}
    (h : r.fetchInstruction = (.ok i?, r')) : r'.healthy = r.healthy := by
  unfold fetchInstruction at h
  split at h
  · exact healthy_readInstruction h
  · unfold enter at h
    split at h
    · rename_i hseek
      exact (healthy_readInstruction h).trans (healthy_seekCode hseek)
    · rename_i hseek
      rw [← (Prod.mk.inj h).2, healthy_seekCode hseek]
    · simp at h
  · rw [(Prod.mk.inj h).2]

theorem healthy_image {room : Nat} {r r' : Reader} {is : List Instruction}
    (h : r.image room = (.ok is, r')) : r'.healthy = r.healthy := by
  induction room generalizing r r' is with
  | zero =>
    unfold image at h
    split at h
    · simp at h
    · rename_i hfetch
      rw [← (Prod.mk.inj h).2, healthy_fetchInstruction hfetch]
    · simp at h
  | succ room ih =>
    unfold image at h
    split at h
    · simp at h
    · rename_i hfetch
      rw [← (Prod.mk.inj h).2, healthy_fetchInstruction hfetch]
    · rename_i hfetch
      simp only at h
      split at h
      · rename_i hrest
        rw [← (Prod.mk.inj h).2, ih hrest, healthy_fetchInstruction hfetch]
      · simp at h

/-- Only a read that fails makes a text unhealthy, so that handing out an image by `nextImage` does
not. -/
theorem healthy_nextImage {r r' : Reader} {is : List Instruction}
    (h : r.nextImage = (.ok (some is), r')) : r'.healthy = r.healthy := by
  unfold nextImage at h
  split at h
  · simp at h
  · simp at h
  · rename_i hseek
    split at h
    · rename_i himage
      rw [← (Prod.mk.inj h).2, healthy_image himage, healthy_seekCode hseek]
    · simp at h

end JobText.Reader

namespace Machine

variable {m m' : Machine} {j k : Nat}

/-! ## Releasing and dismissing -/

theorem release_inputNumber (w : m.Wired) (hj : j < m.jobs.size) :
    ∃ events, m.release (inputNumber j) =
      ({ m with hardware := m.hardware.setDevice (inputNumber j) (m.view j).input.release.2 }
        ).noteAll (inputNumber j) events := by
  unfold release Hardware.release
  rw [device?_inputNumber w hj]
  exact ⟨_, rfl⟩

theorem release_outputNumber (w : m.Wired) (hj : j < m.jobs.size) :
    ∃ events, m.release (outputNumber j) =
      ({ m with hardware := m.hardware.setDevice (outputNumber j) (m.view j).output.release.2 }
        ).noteAll (outputNumber j) events := by
  unfold release Hardware.release
  rw [device?_outputNumber w hj]
  exact ⟨_, rfl⟩

theorem releaseJob_spec (w : m.Wired) (hj : j < m.jobs.size) :
    m.Touches j (m.releaseJob j) ∧ (m.releaseJob j).hardware.files = m.hardware.files ∧
      (m.releaseJob j).view j =
        { m.view j with
          input := (m.view j).input.release.2, output := (m.view j).output.release.2 } := by
  obtain ⟨events, hin⟩ := release_inputNumber w hj
  have htouch := (touches_setInput w hj (w.input j hj).release).noteAll (inputNumber j) events
  rw [← hin] at htouch
  have hj' : j < (m.release (inputNumber j)).jobs.size := htouch.size ▸ hj
  have hview : (m.release (inputNumber j)).view j =
      { m.view j with input := (m.view j).input.release.2 } := by
    rw [hin, view_noteAll, view_setInput w hj, if_pos rfl]
  have hfiles : (m.release (inputNumber j)).hardware.files = m.hardware.files := by
    rw [hin]
    rfl
  obtain ⟨events', hout⟩ := release_outputNumber htouch.wired hj'
  have htouch' := (touches_setOutput htouch.wired hj'
    (htouch.wired.output j hj').release).noteAll (outputNumber j) events'
  rw [← hout] at htouch'
  refine ⟨htouch.trans htouch', ?_, ?_⟩
  · unfold releaseJob
    rw [hout]
    exact hfiles
  · unfold releaseJob
    rw [hout, view_noteAll, view_setOutput htouch.wired hj', if_pos rfl, hview]

/-- `m'` comes from `m` by dismissing job `j`. Its files are the same, but for an output file that
may have been created for a segment that could not be loaded. -/
structure Dismisses (j : Nat) (m m' : Machine) : Prop extends m.Touches j m' where
  dismissed : m'.view j = (m.view j).dismissed

theorem dismiss_spec (w : m.Wired) (hj : j < m.jobs.size) :
    m.Dismisses j (m.dismiss j) ∧ (m.dismiss j).hardware.files = m.hardware.files := by
  have hadm : Job.Administrative fun job =>
      { job with life := .finished, pending? := none, target? := none } := fun _ _ _ _ => rfl
  have hmod := touches_modifyJob w hadm hj
  have hj₁ := hmod.size.symm ▸ hj
  have hset := touches_setSource hmod.wired none hj₁
  have hj₂ := hset.size.symm ▸ hj₁
  obtain ⟨hrel, hfiles, hview⟩ := releaseJob_spec hset.wired hj₂
  refine ⟨⟨((hmod.trans hset).trans hrel).note _, ?_⟩, hfiles⟩
  unfold dismiss
  rw [view_note, hview, view_setSource none hmod.wired hj₁, view_modifyJob hadm hj, if_pos rfl,
    if_pos rfl]
  rfl

/-! ## Binding the devices -/

/-- There is a next segment of job `j`, and its output file can be created, but the text of the job
is not healthy any more, so that the input device cannot be bound to it. -/
def Spoilt (m : Machine) (j : Nat) : Prop :=
  ∃ r image reader created, m.hardware.source? j = some r ∧
    r.nextImage = (.ok (some image), reader) ∧ reader.healthy = false ∧
    m.hardware.files.create (m.outputFile j ((m.job j).segments + 1)) = .ok created

theorem spoilt_congr (hconfig : m'.config = m.config)
    (hsegments : (m'.job j).segments = (m.job j).segments)
    (hsource : m'.hardware.source? j = m.hardware.source? j)
    (hfiles : m'.hardware.files = m.hardware.files) : m'.Spoilt j ↔ m.Spoilt j := by
  simp only [Spoilt, outputFile, hconfig, hsegments, hsource, hfiles]

/-- `m'` has the same files as `m`, unless the text of job `j` is spoilt: then the output file of
the job's next segment is created on the way from `m` to `m'`. -/
def MayCreate (j : Nat) (m m' : Machine) : Prop :=
  (¬ m.Spoilt j ∧ m'.hardware.files = m.hardware.files) ∨
    (m.Spoilt j ∧ ∃ loc, m.hardware.files.create (m.outputFile j ((m.job j).segments + 1)) =
      .ok (m'.hardware.files, loc))

theorem bind_outputNumber (w : m.Wired) (hj : j < m.jobs.size) {s : Sink}
    (hs : s.flush = (none, s)) :
    ∃ m', m.bind (outputNumber j) (.sink s) = .ok m' ∧ m.Touches j m' ∧
      m'.hardware.files = m.hardware.files ∧
      m'.view j = { m.view j with output := (m.view j).output.withSink s } := by
  obtain ⟨hnumber, buffer, old?, hlink⟩ := w.output j hj
  have hbind : m.hardware.bind (outputNumber j) (.sink s) =
      .ok (old?.bind fun old => old.flush.1,
        m.hardware.setDevice (outputNumber j) ((m.view j).output.withSink s)) := by
    have hne : outputNumber j ≠ processorNumber := by simp [outputNumber, processorNumber]
    simp only [Hardware.bind, if_neg hne, device?_outputNumber w hj, hlink, Hardware.bindSink, hs,
      hnumber, Device.withSink]
  unfold bind
  rw [hbind]
  refine ⟨_, rfl, (touches_setOutput w hj ((w.output j hj).withSink s)).noteAll _ _, rfl, ?_⟩
  rw [view_noteAll, view_setOutput w hj, if_pos rfl]

theorem bind_inputNumber (w : m.Wired) (hj : j < m.jobs.size) :
    (∃ m' r, m.bind (inputNumber j) (.source j) = .ok m' ∧ m.Touches j m' ∧
      m'.hardware.files = m.hardware.files ∧
      m.hardware.source? j = some r ∧ r.healthy = true ∧
      m'.view j = { m.view j with input := (m.view j).input.withJob j }) ∨
    ∃ e, m.bind (inputNumber j) (.source j) = .error e ∧
      ∀ r, m.hardware.source? j = some r → r.healthy = false := by
  obtain ⟨hnumber, hlink⟩ := w.input j hj
  -- both devices go through `bind`; at the number of an input device it is `bindSource`
  have hbind : m.hardware.bind (inputNumber j) (.source j) =
      (m.hardware.bindSource (m.view j).input j).map fun hw => (none, hw) := by
    have hne : inputNumber j ≠ processorNumber := by simp [inputNumber, processorNumber]
    rcases hlink with hlink | hlink <;>
      simp only [Hardware.bind, if_neg hne, device?_inputNumber w hj, hlink]
  unfold bind
  rw [hbind]
  cases hsource : m.hardware.source? j with
  | none =>
    simp only [Hardware.bindSource, hsource]
    exact .inr ⟨_, rfl, by simp⟩
  | some r =>
    cases hhealthy : r.healthy with
    | false =>
      simp only [Hardware.bindSource, hsource, hhealthy, Bool.false_eq_true, if_false]
      exact .inr ⟨_, rfl, fun r' hr' => Option.some.inj hr' ▸ hhealthy⟩
    | true =>
      have hok : m.hardware.bindSource (m.view j).input j =
          .ok (m.hardware.setDevice (inputNumber j) ((m.view j).input.withJob j)) := by
        simp only [Hardware.bindSource, hsource, hhealthy, if_true, hnumber, Device.withJob]
      rw [hok]
      refine .inl ⟨_, r, rfl, (touches_setInput w hj (w.input j hj).withJob).noteAll _ _, rfl,
        rfl, hhealthy, ?_⟩
      exact (view_setInput w hj _).trans (if_pos rfl)

theorem createOutput_cases (w : m.Wired) (path : String) :
    (∃ m' loc, m.createOutput path = .ok (.ofFile m'.hardware.files loc, m') ∧
      m.Touches j m' ∧ m'.view j = m.view j ∧ m'.hardware.sources = m.hardware.sources ∧
      m.hardware.files.create path = .ok (m'.hardware.files, loc)) ∨
    ∃ e e', m.createOutput path = .error e ∧ m.hardware.files.create path = .error e' := by
  unfold createOutput
  cases h : m.hardware.files.create path with
  | error e => exact .inr ⟨_, e, rfl, rfl⟩
  | ok created =>
    obtain ⟨files, loc⟩ := created
    refine .inl ⟨{ m with hardware := { m.hardware with files } }, loc, rfl, ?_, rfl, rfl, rfl⟩
    exact ⟨⟨w.devices, w.sources, w.current, w.program, w.saved, w.input, w.output⟩, rfl, rfl,
      fun _ _ => rfl⟩

/-- `attach` gives job `j` a fresh output file and binds its devices, or nothing changes since the
file cannot be created, or it has been created and bound before the text turns out not to be
healthy. -/
theorem attach_cases (w : m.Wired) (hj : j < m.jobs.size) (path : String) :
    (∃ m' r loc, m.attach j path = (.ok (), m') ∧ m.Touches j m' ∧
      m.hardware.source? j = some r ∧ r.healthy = true ∧
      m.hardware.files.create path = .ok (m'.hardware.files, loc) ∧
      m'.view j = (m.view j).attached j (.ofFile m'.hardware.files loc)) ∨
    (∃ e, m.attach j path = (.error e, m) ∧
      ∀ created, m.hardware.files.create path ≠ .ok created) ∨
    ∃ m' e loc, m.attach j path = (.error e, m') ∧ m.Touches j m' ∧
      (∀ r, m.hardware.source? j = some r → r.healthy = false) ∧
      m.hardware.files.create path = .ok (m'.hardware.files, loc) ∧
      m'.view j = { m.view j with
        output := (m.view j).output.withSink (.ofFile m'.hardware.files loc) } := by
  unfold attach
  rcases createOutput_cases (j := j) w path with
    ⟨m₁, loc, hcreate, htouch₁, hview₁, hsources₁, hfiles₁⟩ | ⟨e, e', hcreate, herror⟩
  · rw [hcreate]
    have hj₁ : j < m₁.jobs.size := htouch₁.size.symm ▸ hj
    obtain ⟨m₂, hout, htouch₂, hfiles₂, hview₂⟩ :=
      bind_outputNumber htouch₁.wired hj₁ (Sink.flush_ofFile m₁.hardware.files loc)
    rw [hview₁] at hview₂
    have hj₂ : j < m₂.jobs.size := htouch₂.size.symm ▸ hj₁
    -- neither the new file nor the sink changes the text of the job, which the source is bound to
    have hsource : m₂.hardware.source? j = m.hardware.source? j := congrArg View.source? hview₂
    simp only [hout]
    rcases bind_inputNumber htouch₂.wired hj₂ with
      ⟨m₃, r, hin, htouch₃, hfiles₃, hr, hhealthy, hview₃⟩ | ⟨e, hin, hunhealthy⟩
    · left
      simp only [hin]
      refine ⟨m₃, r, loc, rfl, (htouch₁.trans htouch₂).trans htouch₃, hsource ▸ hr, hhealthy,
        ?_, ?_⟩
      · rw [hfiles₃, hfiles₂]
        exact hfiles₁
      · rw [hview₃, hview₂, hfiles₃, hfiles₂]
        rfl
    · right
      right
      simp only [hin]
      -- the file stays bound: an unhealthy text does not undo what has been done before it
      rw [← hfiles₂] at hview₂ hfiles₁
      exact ⟨m₂, _, loc, rfl, htouch₁.trans htouch₂, fun r hr => hunhealthy r (hsource ▸ hr),
        hfiles₁, hview₂⟩
  · right
    left
    rw [hcreate]
    exact ⟨_, rfl, by simp [herror]⟩

/-! ## Loading a segment -/

/-- The next segment of job `j` cannot be loaded: its text has none, or its output file cannot be
created among `files`. -/
def Barred (m : Machine) (j : Nat) (files : Files) : Prop :=
  ∀ r image reader created, m.hardware.source? j = some r → r.healthy = true → r.atEnd = false →
    r.nextImage = (.ok (some image), reader) → reader.healthy = true →
    files.create (m.outputFile j ((m.job j).segments + 1)) ≠ .ok created

/-- The second machine comes from the first by loading the next segment of a job, whose code is
`image` and after whose code the job's text is at `reader`. -/
structure Loads (j : Nat) (image : List Instruction) (reader : Reader) (m m' : Machine) :
    Prop where
  wired : m'.Wired
  control : m'.control = m.control
  line : m'.line = if m.runs j then .clear else m.line
  view : ∀ k, k ≠ j → m'.view k = m.view k
  source : ∃ r, m.hardware.source? j = some r ∧ r.nextImage = (.ok (some image), reader)
  healthy : reader.healthy = true
  entered : ∃ loc, m.hardware.files.create (m.outputFile j ((m.job j).segments + 1)) =
      .ok (m'.hardware.files, loc) ∧
    m'.view j = (m.view j).entered j reader image (.ofFile m'.hardware.files loc)

/-- `m'` comes from `m` by an attempt to load the next segment of job `j`, which leaves the job as
it was, but for its text, and creates no file. -/
structure Spares (j : Nat) (m m' : Machine) : Prop extends m.Touches j m' where
  job : (m'.view j).job = (m.view j).job
  input : (m'.view j).input = (m.view j).input
  output : (m'.view j).output = (m.view j).output
  files : m'.hardware.files = m.hardware.files

/-- `m'` comes from `m` by an attempt to load the next segment of job `j`, whose text is spoilt. The
output device of the job is bound to the file that has been created, and the job is as it was in
every other way, but for its text. -/
structure Spoils (j : Nat) (m m' : Machine) : Prop extends m.Touches j m' where
  spoilt : m.Spoilt j
  job : (m'.view j).job = (m.view j).job
  input : (m'.view j).input = (m.view j).input
  created : ∃ loc, m.hardware.files.create (m.outputFile j ((m.job j).segments + 1)) =
      .ok (m'.hardware.files, loc) ∧
    (m'.view j).output = (m.view j).output.withSink (.ofFile m'.hardware.files loc)

theorem Spares.refl (w : m.Wired) : m.Spares j m :=
  ⟨.refl w, rfl, rfl, rfl, rfl⟩

/-- If job `j` was spared, it is dismissed as if nothing had been tried. -/
theorem Spares.dismissed (h : m.Spares j m') : (m'.view j).dismissed = (m.view j).dismissed := by
  simp only [View.dismissed, h.job, h.input, h.output]

/-- So it is if its text is spoilt, since `dismissed` releases its output device. -/
theorem Spoils.dismissed (h : m.Spoils j m') : (m'.view j).dismissed = (m.view j).dismissed := by
  obtain ⟨loc, _, houtput⟩ := h.created
  simp only [View.dismissed, h.job, h.input, houtput, Device.release_withSink]

/-- The next segment of job `j` could not be loaded on the way from `m` to `m'`: nothing has been
tried, or in vain. -/
def Misses (j : Nat) (m m' : Machine) : Prop :=
  (¬ m.Spoilt j ∧ m.Spares j m') ∨ m.Spoils j m'

namespace Misses

theorem touches (h : m.Misses j m') : m.Touches j m' :=
  h.elim (fun hspares => hspares.2.toTouches) Spoils.toTouches

theorem dismissed (h : m.Misses j m') : (m'.view j).dismissed = (m.view j).dismissed :=
  h.elim (fun hspares => hspares.2.dismissed) Spoils.dismissed

theorem mayCreate (h : m.Misses j m') : m.MayCreate j m' := by
  rcases h with ⟨hspoilt, hspares⟩ | hspoils
  · exact .inl ⟨hspoilt, hspares.files⟩
  · obtain ⟨loc, hcreate, _⟩ := hspoils.created
    exact .inr ⟨hspoils.spoilt, loc, hcreate⟩

/-- What is noted in the journal does not matter. -/
theorem note (h : m.Misses j m') (event : Event) : m.Misses j (m'.note event) := by
  rcases h with ⟨hspoilt, h⟩ | h
  · exact .inl ⟨hspoilt, h.toTouches.note event, h.job, h.input, h.output, h.files⟩
  · exact .inr ⟨h.toTouches.note event, h.spoilt, h.job, h.input, h.created⟩

/-- A job `j` whose next segment could not be loaded is dismissed as if nothing had been tried, but
for a file that may have been created. -/
theorem dismiss (h : m.Misses j m') (hj : j < m.jobs.size) :
    m.Dismisses j (m'.dismiss j) ∧ m.MayCreate j (m'.dismiss j) := by
  have htouch := h.touches
  obtain ⟨hdismiss, hfiles⟩ := dismiss_spec htouch.wired (htouch.size.symm ▸ hj)
  refine ⟨⟨htouch.trans hdismiss.toTouches, hdismiss.dismissed.trans h.dismissed⟩, ?_⟩
  unfold MayCreate
  rw [hfiles]
  exact h.mayCreate

end Misses

theorem Loads.size {image : List Instruction} {reader : Reader}
    (h : m.Loads j image reader m') : m'.jobs.size = m.jobs.size :=
  congrArg Control.size h.control

section Enter

variable (name : String) (image : Array Instruction) (path : String)

/-- The processor follows job `j` into a segment only if the job runs. -/
theorem enterSegment_eq :
    ∃ event, m.enterSegment j name image path =
      if m.runs j then
        ((m.modifyJob j fun job => job.enter name image).note event).modifyCpu fun cpu =>
          { cpu with program := image, regs := cpu.regs.setPc 0, trap := .clear }
      else (m.modifyJob j fun job => job.enter name image).note event :=
  ⟨_, rfl⟩

theorem control_enterSegment : (m.enterSegment j name image path).control = m.control := by
  have hmodify : (m.modifyJob j fun job => job.enter name image).control = m.control :=
    control_modifyJob _
  obtain ⟨event, heq⟩ := enterSegment_eq (m := m) (j := j) name image path
  rw [heq]
  split <;> exact hmodify

theorem job_enterSegment (hj : j < m.jobs.size) :
    (m.enterSegment j name image path).job k =
      if k = j then (m.job k).enter name image else m.job k := by
  rw [← job_modifyJob (fun job => job.enter name image) hj]
  obtain ⟨event, heq⟩ := enterSegment_eq (m := m) (j := j) name image path
  rw [heq]
  split <;> rfl

theorem hardware_enterSegment :
    (m.enterSegment j name image path).hardware =
      { m.hardware with
        cpu :=
          if m.runs j then
            { m.hardware.cpu with
              program := image, regs := m.hardware.cpu.regs.setPc 0, trap := .clear }
          else m.hardware.cpu } := by
  obtain ⟨event, heq⟩ := enterSegment_eq (m := m) (j := j) name image path
  rw [heq]
  split <;> rfl

theorem line_enterSegment :
    (m.enterSegment j name image path).line = if m.runs j then .clear else m.line := by
  rw [line, hardware_enterSegment]
  simp only
  split <;> rfl

/-- Whether it runs or not, job `j` enters a segment with its program counter at the start. -/
theorem regsOf_enterSegment (hj : j < m.jobs.size) :
    (m.enterSegment j name image path).regsOf k =
      if k = j then (m.regsOf k).setPc 0 else m.regsOf k := by
  have hruns : (m.enterSegment j name image path).runs k = m.runs k :=
    runs_congr (control_enterSegment name image path)
  unfold regsOf
  rw [hruns, hardware_enterSegment, job_enterSegment name image path hj]
  -- the registers of `j` are reset where they are kept, and nobody else's are kept there
  by_cases hk : k = j
  · subst hk
    simp only [if_true]
    split <;> rfl
  · by_cases hrun : m.runs k = true
    · have hne : m.runs j = false := by
        rw [runs_eq_true_iff] at hrun
        simp [runs, hrun.1, hrun.2 ▸ hk]
      simp only [hk, hne, hrun, if_true, if_false, Bool.false_eq_true]
    · simp only [hk, hrun, if_false, Bool.false_eq_true]

theorem view_enterSegment (hj : j < m.jobs.size) :
    (m.enterSegment j name image path).view k =
      if k = j then { m.view k with job := (m.view k).job.enter name image } else m.view k := by
  simp only [view, regsOf_enterSegment name image path hj, job_enterSegment name image path hj,
    hardware_enterSegment]
  split <;> rfl

theorem Wired.enterSegment (w : m.Wired) (hj : j < m.jobs.size) :
    (m.enterSegment j name image path).Wired := by
  have hcontrol := control_enterSegment (m := m) (j := j) name image path
  have hsize : (m.enterSegment j name image path).jobs.size = m.jobs.size :=
    congrArg Control.size hcontrol
  have hcurrent : (m.enterSegment j name image path).current = m.current :=
    congrArg Control.current hcontrol
  have hidle : (m.enterSegment j name image path).idle = m.idle :=
    congrArg Control.idle hcontrol
  constructor
  case devices =>
    rw [hardware_enterSegment, hsize]
    exact w.devices
  case sources =>
    rw [hardware_enterSegment, hsize]
    exact w.sources
  case current =>
    rw [hcurrent, hsize]
    exact w.current
  case program =>
    intro hbusy
    rw [hidle] at hbusy
    have hprogram := w.program hbusy
    rw [hcurrent, job_enterSegment name image path hj, hardware_enterSegment]
    -- the new image is loaded at once if the job that runs is the one that enters the segment
    by_cases h : m.current = j
    · simp [h, runs, hbusy, Job.enter]
    · simpa [h, runs, hbusy] using hprogram
  case saved =>
    intro k hk
    rw [hsize] at hk
    rw [job_enterSegment name image path hj]
    split
    · rfl
    · exact w.saved k hk
  case input =>
    intro k hk
    rw [hsize] at hk
    rw [view_enterSegment name image path hj]
    split <;> exact w.input k hk
  case output =>
    intro k hk
    rw [hsize] at hk
    rw [view_enterSegment name image path hj]
    split <;> exact w.output k hk

end Enter

/-- If the reader of job `j` has been left where the code of the next segment ends, and the job is
attached like this, it loads the segment by entering it. -/
theorem Touches.loads {m₁ : Machine} {r reader : Reader} {image : List Instruction}
    {loc : Location} {path : String} (h : m.Touches j m₁) (hj : j < m.jobs.size)
    (hsource : m.hardware.source? j = some r) (hcode : r.nextImage = (.ok (some image), reader))
    (hhealthy : reader.healthy = true)
    (hcreate : m.hardware.files.create (m.outputFile j ((m.job j).segments + 1)) =
      .ok (m₁.hardware.files, loc))
    (hview : m₁.view j = View.attached { m.view j with source? := some reader } j
      (.ofFile m₁.hardware.files loc)) :
    m.Loads j image reader (m₁.enterSegment j reader.name image.toArray path) := by
  have hj₁ : j < m₁.jobs.size := h.size.symm ▸ hj
  constructor
  case wired => exact h.wired.enterSegment _ _ _ hj₁
  case control => rw [control_enterSegment, h.control]
  case line => rw [line_enterSegment, h.runs, line, h.cpu, line]
  case view =>
    intro k hk
    rw [view_enterSegment _ _ _ hj₁, if_neg hk, h.view k hk]
  case source => exact ⟨r, hsource, hcode⟩
  case healthy => exact hhealthy
  case entered =>
    refine ⟨loc, ?_, ?_⟩
    · rw [hardware_enterSegment]
      exact hcreate
    · rw [view_enterSegment _ _ _ hj₁, if_pos rfl, hardware_enterSegment, hview]
      rfl

/-- `loadNext` loads the next segment of job `j`, or the job is left as it was unless its text is
spoilt. -/
theorem loadNext_cases (w : m.Wired) (hj : j < m.jobs.size) :
    (∃ m' image reader, m.loadNext j = (.ok true, m') ∧ m.Loads j image reader m') ∨
      ∃ m' res, m.loadNext j = (res, m') ∧ res ≠ .ok true ∧ m.Misses j m' ∧
        m.Barred j m.hardware.files := by
  unfold loadNext Barred
  cases hsource : m.hardware.source? j with
  | none =>
    have hspoilt : ¬ m.Spoilt j := by
      rintro ⟨r, _, _, _, hr, _⟩
      simp [hsource] at hr
    exact .inr ⟨m, _, rfl, by simp, .inl ⟨hspoilt, .refl w⟩, by simp⟩
  | some r =>
    rcases hcode : r.nextImage with ⟨code, reader⟩
    have htouch := touches_setSource w (some reader) hj
    have hview : (m.setSource j (some reader)).view j =
        { m.view j with source? := some reader } := by
      rw [view_setSource _ w hj, if_pos rfl]
    -- whatever happens next, the text has been read up to the end of this segment
    have hspare : m.Spares j (m.setSource j (some reader)) :=
      ⟨htouch, by rw [hview], by rw [hview], by rw [hview], rfl⟩
    have hread : ∀ {r' image' reader'}, some r = some r' →
        r'.nextImage = (.ok (some image'), reader') →
          code = .ok (some image') ∧ reader = reader' := by
      intro r' image' reader' hr' hcode'
      rw [← Option.some.inj hr', hcode] at hcode'
      exact Prod.mk.inj hcode'
    have hmiss : (∀ image', code ≠ .ok (some image')) →
        m.Misses j (m.setSource j (some reader)) := by
      refine fun hnone => .inl ⟨?_, hspare⟩
      rintro ⟨r', image', reader', _, hr', hcode', _⟩
      exact hnone image' (hread (hsource.symm.trans hr') hcode').1
    simp only [hcode]
    -- without a next segment no file is asked for
    match code with
    | .error e =>
      exact .inr ⟨_, _, rfl, by simp, hmiss (by simp), fun r' image' reader' _ hr' _ _ hcode' =>
        absurd (hread hr' hcode').1 (by simp)⟩
    | .ok none =>
      exact .inr ⟨_, _, rfl, by simp, hmiss (by simp), fun r' image' reader' _ hr' _ _ hcode' =>
        absurd (hread hr' hcode').1 (by simp)⟩
    -- there is a next segment, and its output file decides
    | .ok (some image) =>
      simp only
      have hpath : (m.setSource j (some reader)).outputFile j
          (((m.setSource j (some reader)).job j).segments + 1) =
            m.outputFile j ((m.job j).segments + 1) := rfl
      rw [hpath]
      rcases attach_cases htouch.wired (htouch.size.symm ▸ hj)
          (m.outputFile j ((m.job j).segments + 1)) with
        ⟨m₂, r', loc, hattach, htouch₂, hr', hhealthy, hfiles, hview₂⟩ |
        ⟨e, hattach, hbarred⟩ |
        ⟨m₂, e, loc, hattach, htouch₂, hunhealthy, hfiles, hview₂⟩
      · left
        -- the reader that is attached is the one that was left
        have hsame : r' = reader := by
          have hset := congrArg View.source? hview
          simp only [view_source?] at hset
          rw [hset] at hr'
          exact (Option.some.inj hr').symm
        subst hsame
        rw [hview] at hview₂
        simp only [hattach]
        exact ⟨_, image, r', rfl,
          (htouch.trans htouch₂).loads hj hsource hcode hhealthy hfiles hview₂⟩
      -- the file cannot be created, and then nothing else has been tried
      · right
        simp only [hattach]
        refine ⟨_, _, rfl, by simp, .inl ⟨?_, hspare⟩,
          fun _ _ _ created _ _ _ _ _ => hbarred created⟩
        rintro ⟨_, _, _, created, _, _, _, hcreate⟩
        exact hbarred created hcreate
      -- the check comes after the file has been created and the output device bound to it
      · right
        have hhealthy := hunhealthy reader (congrArg View.source? hview)
        simp only [hattach]
        refine ⟨m₂, _, rfl, by simp, .inr ⟨htouch.trans htouch₂, ?_, ?_, ?_, loc, hfiles, ?_⟩, ?_⟩
        · exact ⟨r, image, reader, _, hsource, hcode, hhealthy, hfiles⟩
        · rw [hview₂, hview]
        · rw [hview₂, hview]
        · rw [hview₂, hview]
        · intro r' image' reader' created hr' _ _ hcode' hhealthy'
          rw [← (hread hr' hcode').2, hhealthy] at hhealthy'
          exact absurd hhealthy' (by decide)

/-- At the end of a segment job `j` loads its next one, or it is dismissed. -/
theorem endSegment_cases (w : m.Wired) (hj : j < m.jobs.size) :
    (∃ m' image reader, m.endSegment j = (true, m') ∧ m.Loads j image reader m') ∨
      ∃ m', m.endSegment j = (false, m') ∧ m.Dismisses j m' ∧ m.MayCreate j m' ∧
        m.Barred j m.hardware.files := by
  unfold endSegment
  rcases loadNext_cases w hj with
    ⟨m', image, reader, hload, h⟩ | ⟨m', res, hload, hres, h, hbarred⟩
  · left
    simp only [hload]
    exact ⟨m', image, reader, rfl, h⟩
  · right
    rw [hload]
    match res with
    | .ok true => exact absurd rfl hres
    | .ok false =>
      obtain ⟨hdismiss, hcreate⟩ := h.dismiss hj
      exact ⟨_, rfl, hdismiss, hcreate, hbarred⟩
    | .error e =>
      obtain ⟨hdismiss, hcreate⟩ := (h.note (.segmentFailed j e.message)).dismiss hj
      exact ⟨_, rfl, hdismiss, hcreate, hbarred⟩

/-! ## Booting -/

/-- `m'` comes from `m` by booting job `j` with its first segment, whose code is `image`. -/
structure Boots (j : Nat) (image : List Instruction) (reader : Reader) (m m' : Machine) :
    Prop where
  wired : m'.Wired
  control : m'.control = m.control
  line : m'.line = if m.runs j then .clear else m.line
  view : ∀ k, k ≠ j → m'.view k = m.view k
  source : ∃ r, (∀ r', m.hardware.source? j = some r' → r' = r) ∧
    r.nextImage = (.ok (some image), reader)
  healthy : reader.healthy = true
  entered : ∃ loc, m.hardware.files.create (m.outputFile j ((m.job j).segments + 1)) =
      .ok (m'.hardware.files, loc) ∧
    m'.view j =
      let v := (m.view j).entered j reader image (.ofFile m'.hardware.files loc)
      { v with job := { v.job with boot := .booted } }

theorem Boots.size {image : List Instruction} {reader : Reader}
    (h : m.Boots j image reader m') : m'.jobs.size = m.jobs.size :=
  congrArg Control.size h.control

/-- Job `j` boots with an image that fits. -/
theorem Boots.fits {image : List Instruction} {reader : Reader} (h : m.Boots j image reader m') :
    (m'.job j).image.size ≤ imageLimit := by
  obtain ⟨r, _, hnext⟩ := h.source
  obtain ⟨loc, _, hentered⟩ := h.entered
  rw [← view_image, hentered]
  simpa [View.entered, Job.enter] using Reader.length_nextImage_le hnext

/-- Where the output of the next segment of job `j` will go does not depend on its text. -/
theorem Touches.outputFile_next {m₁ : Machine} {source? : Option Reader} (h : m.Touches j m₁)
    (hview : m₁.view j = { m.view j with source? }) :
    m₁.outputFile j ((m₁.job j).segments + 1) = m.outputFile j ((m.job j).segments + 1) := by
  have hconfig : m₁.config = m.config := congrArg Control.config h.control
  have hsegments : (m₁.job j).segments = (m.job j).segments :=
    congrArg (fun v : View => v.job.segments) hview
  simp only [outputFile, hconfig, hsegments]

/-- If job `j` loads its first segment after its text has been opened, it is booted by it. -/
theorem Loads.boots {m₁ m₂ : Machine} {r reader : Reader} {image : List Instruction}
    (h : m₁.Loads j image reader m₂) (htouch : m.Touches j m₁) (hj : j < m.jobs.size)
    (hfiles : m₁.hardware.files = m.hardware.files)
    (hsource : ∀ r', m.hardware.source? j = some r' → r' = r)
    (hview : m₁.view j = { m.view j with source? := some r }) :
    m.Boots j image reader ((m₂.modifyJob j fun job => { job with boot := .booted }).note
      (.booted j (m.job j).origin)) := by
  have hadm : Job.Administrative fun job => { job with boot := .booted } := fun _ _ _ _ => rfl
  have hj₂ : j < m₂.jobs.size := h.size.symm ▸ htouch.size.symm ▸ hj
  have hbooted := (touches_modifyJob h.wired hadm hj₂).note (.booted j (m.job j).origin)
  obtain ⟨loc, hcreate, hentered⟩ := h.entered
  obtain ⟨r', hr', hnext⟩ := h.source
  -- the text that has been read on is the one that has been opened
  have hsame : r' = r := by
    rw [show m₁.hardware.source? j = some r from congrArg View.source? hview] at hr'
    exact (Option.some.inj hr').symm
  constructor
  case wired => exact hbooted.wired
  case control => exact hbooted.control.trans (h.control.trans htouch.control)
  case line =>
    rw [Machine.line, hbooted.cpu]
    show m₂.line = _
    rw [h.line, htouch.runs, Machine.line, htouch.cpu, Machine.line]
  case view =>
    intro k hk
    rw [hbooted.view k hk, h.view k hk, htouch.view k hk]
  case source => exact ⟨r, hsource, hsame ▸ hnext⟩
  case healthy => exact h.healthy
  case entered =>
    refine ⟨loc, ?_, ?_⟩
    · rw [← hfiles, ← htouch.outputFile_next hview]
      exact hcreate
    · rw [view_note, view_modifyJob hadm hj₂, if_pos rfl, hentered, hview]
      rfl

/-- The text of job `j` is open, or `openSource` opens it, or it cannot be opened. -/
theorem openSource_cases (w : m.Wired) (hj : j < m.jobs.size) :
    (∃ m' r, m.openSource j = .ok (r, m') ∧ m.Touches j m' ∧
      m'.hardware.files = m.hardware.files ∧ (∀ r', m.hardware.source? j = some r' → r' = r) ∧
      m'.view j = { m.view j with source? := some r }) ∨
    ∃ e, m.openSource j = .error e ∧ m.hardware.source? j = none := by
  unfold openSource
  cases hsource : m.hardware.source? j with
  | some r =>
    refine .inl ⟨m, r, rfl, .refl w, rfl, fun r' h => (Option.some.inj h).symm, ?_⟩
    simp only [view, hsource]
  | none =>
    cases hpath : (m.job j).path? with
    | none => exact .inr ⟨_, rfl, rfl⟩
    | some path =>
      simp only
      cases hread : m.hardware.files.read path with
      | error e => exact .inr ⟨_, rfl, trivial⟩
      | ok text =>
        refine .inl ⟨_, _, rfl, touches_setSource w _ hj, rfl, by simp, ?_⟩
        rw [view_setSource _ w hj, if_pos rfl]

/-- `boot` boots job `j` with its first segment, or leaves it as it was. -/
theorem boot_cases (w : m.Wired) (hj : j < m.jobs.size) :
    (∃ m' image reader, m.boot j = (.ok (), m') ∧ m.Boots j image reader m') ∨
      ∃ m' e, m.boot j = (.error e, m') ∧ m.Spares j m' ∧ m.Barred j m.hardware.files := by
  unfold boot
  rcases openSource_cases w hj with
    ⟨m₁, r, hopen, htouch, hfiles, hsource, hview⟩ | ⟨e, hopen, hnone⟩
  · simp only [hopen]
    have hspare : m.Spares j m₁ :=
      ⟨htouch, by rw [hview], by rw [hview], by rw [hview], hfiles⟩
    split
    · rename_i hunhealthy
      refine .inr ⟨m₁, _, rfl, hspare, fun r' _ _ _ hr' hhealthy => ?_⟩
      rw [← hsource r' hr', hhealthy] at hunhealthy
      exact absurd hunhealthy (by decide)
    rename_i hhealthy
    split
    · rename_i hend
      refine .inr ⟨m₁, _, rfl, hspare, fun r' _ _ _ hr' _ hatEnd => ?_⟩
      rw [← hsource r' hr', hatEnd] at hend
      exact absurd hend (by decide)
    have hj₁ : j < m₁.jobs.size := htouch.size.symm ▸ hj
    have hset : m₁.hardware.source? j = some r := congrArg View.source? hview
    -- the text has been found healthy, and reading code does not change that
    have hspoilt : ¬ m₁.Spoilt j := by
      rintro ⟨r', image, reader, _, hr', hnext, hunhealthy, _⟩
      rw [hset] at hr'
      rw [Reader.healthy_nextImage hnext, ← Option.some.inj hr'] at hunhealthy
      simp [hunhealthy] at hhealthy
    rcases loadNext_cases htouch.wired hj₁ with
      ⟨m₂, image, reader, hload, h⟩ | ⟨m₂, res, hload, hres, h, hbarred₁⟩
    · simp only [hload]
      exact .inl ⟨_, image, reader, rfl, h.boots htouch hj hfiles hsource hview⟩
    · right
      -- the boot is given up where the first segment could not be loaded
      have hspare₂ : m₁.Spares j m₂ :=
        h.elim And.right fun hspoils => absurd hspoils.spoilt hspoilt
      have hspare' : m.Spares j m₂ :=
        ⟨htouch.trans hspare₂.toTouches, hspare₂.job.trans hspare.job,
          hspare₂.input.trans hspare.input, hspare₂.output.trans hspare.output,
          hspare₂.files.trans hfiles⟩
      have hbarred : m.Barred j m.hardware.files := by
        intro r' image reader created hr' hhealthy hatEnd hnext
        rw [← htouch.outputFile_next hview, ← hfiles]
        refine hbarred₁ r' image reader created ?_ hhealthy hatEnd hnext
        rw [hsource r' hr']
        exact hset
      rw [hload]
      match res with
      | .ok true => exact absurd rfl hres
      | .ok false => exact ⟨m₂, _, rfl, hspare', hbarred⟩
      | .error e => exact ⟨m₂, _, rfl, hspare', hbarred⟩
  · rw [hopen]
    refine .inr ⟨m, e, rfl, .refl w, fun r' _ _ _ hr' => ?_⟩
    rw [hnone] at hr'
    simp at hr'

end Machine

end BatchMachine
