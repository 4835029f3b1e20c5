import BatchMachine.Proofs.Activation
import BatchMachine.Proofs.Finality
import BatchMachine.Proofs.HeldRequests
import BatchMachine.Proofs.InstructionSet
import BatchMachine.Proofs.SegmentOrder

/-!
# Reloading a job

A segment of a job ends while the job runs, or an error of one of its devices ends it while the job
waits. What belongs to the job is in the processor in the one case and in its slot in the other, and
the next segment is loaded to the same effect: the program counter is zero, the other registers are
left alone, and nothing is pending. So it stays until the job gets its turn, at once, after the
processor has idled, or behind other jobs.

* `Device.WritesTo`: a device is bound to a file, and adds to no other.
* `Machine.HasNext`: a job has a next segment that can be loaded.
* `Machine.Reenters`, `Machine.Sound.reenters`: the turn in which the segment before it ends.
* `Machine.Proceeds`: the processor goes on with a job.
* `Machine.Awaits`, `Machine.Awaits.tick`, `Machine.Run.awaits`: a job in a certain state, which it
  keeps until the processor goes on with it.
* `Machine.Reloaded`, `Machine.segment_reload`: what a reload does to a job, and to the others.
-/

namespace BatchMachine

open JobText

namespace Registers

/-- `setPc` shows in no register `r` but the program counter. -/
theorem get?_setPc (regs : Registers) (value : Word) {r : Word} (hr : r ≠ 0) :
    (regs.setPc value).get? r = regs.get? r := by
  rw [setPc_eq, get?_set, if_neg]
  exact fun h => hr h.1.symm

end Registers

/-- The start of `image` is its end only if there is nothing in it. -/
theorem Processor.atEnd_iff_of_start {cpu : Processor} {image : List Instruction}
    (hprogram : cpu.program = image.toArray) (hpc : cpu.regs.pc = 0) :
    cpu.atEnd = true ↔ image = [] := by
  rw [atEnd, hpc, hprogram, show Word.index? 0 = some 0 from rfl, List.size_toArray, beq_iff_eq,
    Option.some.injEq, eq_comm, List.length_eq_zero_iff]

/-! ## The file that a device writes to -/

theorem Sink.target_ofFile (files : Files) (loc : Location) :
    (Sink.ofFile files loc).target = loc := by
  unfold ofFile
  split <;> rfl

namespace Device

variable {d : Device} {loc : Location}

/-- The device `d` is bound to the file at `loc`. Whatever it does in a tick, it adds to this file
at most. -/
structure WritesTo (d : Device) (loc : Location) : Prop where
  bound : d.sink?.map Sink.target = some loc
  adds : ∀ (line : TrapLine) (source? : Option Reader) (files : Files),
    (d.tick line source? files).files = files ∨
      ∃ more, (d.tick line source? files).files = files.append loc more

/-- In its tick the device `d` stays bound to its file, and adds to no other. -/
theorem tick_of_bound (h : d.sink?.map Sink.target = some loc) (line : TrapLine)
    (source? : Option Reader) (files : Files) :
    (d.tick line source? files).device.sink?.map Sink.target = some loc ∧
      ((d.tick line source? files).files = files ∨
        ∃ more, (d.tick line source? files).files = files.append loc more) := by
  have hlink : ∃ buffer s, d.link = .output buffer (some s) ∧ s.target = loc := by
    unfold sink? at h
    cases hlink : d.link with
    | input job? => simp [hlink] at h
    | output buffer sink? =>
      rw [hlink] at h
      obtain ⟨s, rfl, htarget⟩ := Option.map_eq_some_iff.1 h
      exact ⟨buffer, s, rfl, htarget⟩
  obtain ⟨buffer, s, hlink, rfl⟩ := hlink
  rcases tick_cases d line source? files with
    ⟨_, htick⟩ | ⟨_, ⟨_, htick⟩ | ⟨_, htick⟩ | ⟨_, _, htick⟩ | ⟨_, _, htick⟩⟩ <;> rw [htick]
  · exact ⟨by simp [capture, sink?, hlink], .inl rfl⟩
  · exact ⟨h, .inl rfl⟩
  · exact ⟨h, .inl rfl⟩
  · exact ⟨h, .inl rfl⟩
  · -- the transfer writes a word, if the sink takes it
    obtain ⟨htarget, hfiles⟩ := s.transfer_spec (Numeral.decimal buffer ++ "\n") files
    rw [transfer, hlink]
    exact ⟨congrArg some htarget, hfiles.imp_right fun hadds => ⟨_, hadds⟩⟩

theorem writesTo_of_bound (h : d.sink?.map Sink.target = some loc) : d.WritesTo loc where
  bound := h
  adds line source? files := (tick_of_bound h line source? files).2

theorem WritesTo.tick (h : d.WritesTo loc) (line : TrapLine) (source? : Option Reader)
    (files : Files) : (d.tick line source? files).device.WritesTo loc :=
  writesTo_of_bound (tick_of_bound h.bound line source? files).1

theorem WritesTo.of_sink? {d' : Device} (h : d.WritesTo loc) (hsink : d'.sink? = d.sink?) :
    d'.WritesTo loc :=
  writesTo_of_bound (by rw [hsink, h.bound])

end Device

namespace View

variable {v : View}

/-- The job of `v`, if it does not wait and has named no register, gets nothing from a
completion. -/
theorem job_collected (side : Side) (htarget : v.job.target? = none)
    (hlife : v.job.life = .runnable) : (v.collected side).job = v.job := by
  rcases v with ⟨job, source?, input, output⟩
  cases job
  simp only at htarget hlife
  simp [collected, htarget, hlife]

/-- A request that is offered to the output device of job `j` does not show in what this is bound
to. -/
theorem sink?_offered (v : View) (j : Nat) : (v.offered j).output.sink? = v.output.sink? := by
  rcases v.offered_cases j with hsame | ⟨side, r, _, _, htaken⟩
  · rw [hsame]
  · rw [htaken]
    cases side <;> rfl

theorem sink?_asks (v : View) (j : Nat) (side : Side) (register value : Word) :
    (v.asks j side register value).output.sink? = v.output.sink? := by
  cases side <;> exact sink?_offered _ j

/-- A trap line that has been cleared does not show in what the output device is bound to,
either. -/
theorem sink?_acknowledged (v : View) (side : Side) :
    (v.acknowledged side).output.sink? = v.output.sink? := by
  cases side <;> rfl

end View

namespace Machine

variable {m m₀ m₁ m' first x : Machine} {j k : Nat} {o : Outcome} {image : List Instruction}
  {reader : Reader} {created : Files} {loc : Location} {p : Progress} {past later : List Machine}

/-! ## The next segment -/

/-- Job `j` has a next segment, whose code is `image` and after whose code the text of the job is at
`reader`: no read of the text has failed, and the output file of the segment can be created, at
`loc`, after which the files are `created`. -/
structure HasNext (m : Machine) (j : Nat) (image : List Instruction) (reader : Reader)
    (created : Files) (loc : Location) : Prop where
  source : ∃ r, m.hardware.source? j = some r ∧ r.healthy = true ∧
    r.nextImage = (.ok (some image), reader)
  output : m.hardware.files.create (m.outputFile j ((m.job j).segments + 1)) = .ok (created, loc)

namespace HasNext

theorem congr (h : m.HasNext j image reader created loc) (hconfig : m'.config = m.config)
    (hsegments : (m'.job j).segments = (m.job j).segments)
    (hsource : m'.hardware.source? j = m.hardware.source? j)
    (hfiles : m'.hardware.files = m.hardware.files) : m'.HasNext j image reader created loc where
  source := by
    rw [hsource]
    exact h.source
  output := by
    rw [hfiles, hsegments, outputFile, hconfig]
    exact h.output

theorem agrees (h : m.HasNext j image reader created loc) (hagrees : m.Agrees m') :
    m'.HasNext j image reader created loc :=
  h.congr (congrArg Control.config hagrees.control)
    (congrArg (fun v : View => v.job.segments) hagrees.view) (congrArg View.source? hagrees.view)
    (by rw [hagrees.hardware])

/-- `loadNext` succeeds for job `j` if it has a next segment. -/
theorem fst_loadNext (h : m.HasNext j image reader created loc) (w : m.Wired)
    (hj : j < m.jobs.size) : (m.loadNext j).1 = .ok true := by
  obtain ⟨r, hsource, hhealthy, hcode⟩ := h.source
  have htouch := touches_setSource w (some reader) hj
  have hset : (m.setSource j (some reader)).hardware.source? j = some reader := by
    have hview := view_setSource (k := j) (some reader) w hj
    rw [if_pos rfl] at hview
    exact congrArg View.source? hview
  have hpath : (m.setSource j (some reader)).outputFile j
      (((m.setSource j (some reader)).job j).segments + 1) =
        m.outputFile j ((m.job j).segments + 1) := rfl
  -- what has been read of the text shows in no file, so that the output file is found as before
  unfold loadNext
  rw [hsource]
  simp only [hcode, hpath]
  rcases attach_cases htouch.wired (htouch.size.symm ▸ hj)
      (m.outputFile j ((m.job j).segments + 1)) with
    ⟨m₂, _, _, hattach, _⟩ | ⟨_, _, hbarred⟩ | ⟨_, _, _, _, _, hunhealthy, _⟩
  · rw [hattach]
  · exact absurd h.output (hbarred _)
  · rw [← Reader.healthy_nextImage hcode, hunhealthy reader hset] at hhealthy
    exact absurd hhealthy (by decide)

end HasNext

/-- The code of the next segment of job `j`, if it can be loaded. -/
def nextCode? (m : Machine) (j : Nat) : Option (List Instruction) :=
  match m.hardware.source? j, m.hardware.files.create (m.outputFile j ((m.job j).segments + 1)) with
  | some r, .ok _ => if r.healthy then r.nextImage.1.toOption.join else none
  | _, _ => none

theorem nextCode?_eq_some_iff : m.nextCode? j = some image ↔
    ∃ reader created loc, m.HasNext j image reader created loc := by
  unfold nextCode?
  constructor
  · intro h
    split at h
    case h_1 r created hsource hcreate =>
      split at h
      case isTrue hhealthy =>
        rcases hcode : r.nextImage with ⟨e | image?, reader⟩
        · simp [hcode, Except.toOption] at h
        · simp only [hcode, Except.toOption, Option.join_some] at h
          exact ⟨reader, created.1, created.2, ⟨r, hsource, hhealthy, h ▸ hcode⟩, hcreate⟩
      case isFalse => simp at h
    case h_2 => simp at h
  · rintro ⟨reader, created, loc, ⟨r, hsource, hhealthy, hcode⟩, hcreate⟩
    simp [hsource, hcreate, hcode, hhealthy, Except.toOption]

/-! ## The turn in which a segment ends -/

/-- `loadNext` for job `j` changes no other job `k`. -/
theorem job_loadNext (hj : j < m.jobs.size) (hk : k ≠ j) : (m.loadNext j).2.job k = m.job k := by
  rcases hload : m.loadNext j with ⟨res, m'⟩
  rcases loadNext_inv hload with ⟨_, hprepares⟩ | ⟨_, m₁, name, image, path, hprepares, _, rfl⟩
  · exact hprepares.job k hk
  · rw [job_enterSegment name image path (hprepares.size.symm ▸ hj), if_neg hk, hprepares.job k hk]

/-- A trap that is taken off the line leaves the next segment of job `j` as it is. -/
theorem HasNext.signals {line : TrapLine} {culprit? : Option Nat}
    (h : m.HasNext j image reader created loc) (hsignals : m.Signals line culprit? m₀) :
    m₀.HasNext j image reader created loc :=
  h.congr (congrArg Control.config hsignals.control) (hsignals.segments_eq j)
    (congrArg View.source? (hsignals.view j)) hsignals.files

/-- What comes of the segment of job `j` that has ended does not matter to the next one. -/
theorem HasNext.setOutcome (h : m.HasNext j image reader created loc) (hj : j < m.jobs.size)
    (o : Outcome) : (m.setOutcome j o).HasNext j image reader created loc := by
  have hview := view_modifyJob (k := j) (m := m)
    (f := fun job => { job with outcome? := some o }) (fun _ _ _ _ => rfl) hj
  rw [if_pos rfl] at hview
  exact h.congr rfl (congrArg (fun v : View => v.job.segments) hview)
    (congrArg View.source? hview) rfl

/-- What is loaded for job `j` is its next segment: the text hands out one image, and the file is
created at one place. -/
theorem HasNext.of_reloads {culprit? : Option Nat} {image' : List Instruction} {reader' : Reader}
    (h : m.HasNext j image reader created loc)
    (hreloads : m.Reloads j o culprit? image' reader' m') :
    m.Reloads j o culprit? image reader m' ∧
      m'.view j = ((m.view j).withOutcome o).entered j reader image (.ofFile created loc) := by
  obtain ⟨r, hsource, _, hcode⟩ := h.source
  obtain ⟨r', hsource', hcode'⟩ := hreloads.source
  obtain rfl : r = r' := Option.some.inj (hsource.symm.trans hsource')
  rw [hcode, Prod.mk.injEq, Except.ok.injEq, Option.some.injEq] at hcode'
  obtain ⟨rfl, rfl⟩ := hcode'
  obtain ⟨loc', hcreate, hview⟩ := hreloads.entered
  rw [h.output, Except.ok.injEq, Prod.mk.injEq] at hcreate
  obtain ⟨hfiles, rfl⟩ := hcreate
  exact ⟨hreloads, hfiles ▸ hview⟩

/-- At the end of a segment of job `j` that has a next one, this is loaded, and no other job
changes. -/
theorem HasNext.endSegment {line : TrapLine} {culprit? : Option Nat}
    (h : m.HasNext j image reader created loc) (hsignals : m.Signals line culprit? m₀)
    (hline : line.isIdle = true) (hj : j < m.jobs.size) (o : Outcome) :
    ∃ m', (m₀.setOutcome j o).endSegment j = (true, m') ∧
      m.Reloads j o culprit? image reader m' ∧
      m'.view j = ((m.view j).withOutcome o).entered j reader image (.ofFile created loc) ∧
      ∀ k, k ≠ j → m'.job k = m₀.job k := by
  have hj₀ : j < m₀.jobs.size := hsignals.size.symm ▸ hj
  have htouch : m₀.Touches j (m₀.setOutcome j o) :=
    touches_modifyJob hsignals.wired (fun _ _ _ _ => rfl) hj₀
  have hj₁ : j < (m₀.setOutcome j o).jobs.size := htouch.size.symm ▸ hj₀
  have hloaded := ((h.signals hsignals).setOutcome hj₀ o).fst_loadNext htouch.wired hj₁
  rcases hload : (m₀.setOutcome j o).loadNext j with ⟨res, m'⟩
  rw [hload] at hloaded
  obtain rfl : res = .ok true := hloaded
  have hend : (m₀.setOutcome j o).endSegment j = (true, m') := by
    unfold Machine.endSegment
    rw [hload]
  refine ⟨m', hend, ?_⟩
  -- the load has succeeded, so the segment does not end the job
  rcases endSegment_ends hsignals hline hj o with ⟨m₁, image', reader', hend', hreloads⟩ |
      ⟨m₁, hend', _⟩
  · obtain rfl : m' = m₁ := (Prod.mk.inj (hend.symm.trans hend')).2
    obtain ⟨hnext, hview⟩ := h.of_reloads hreloads
    refine ⟨hnext, hview, fun k hk => ?_⟩
    have hother := job_loadNext hj₁ hk
    rw [hload] at hother
    exact hother.trans (job_modifyJob_of_ne _ hk)
  · exact absurd (Prod.mk.inj (hend.symm.trans hend')).1 (by decide)

/-- `m'` comes from `m` by the turn in which a segment of job `j` ends with the outcome `o` and the
next one is loaded. -/
structure Reenters (j : Nat) (o : Outcome) (image : List Instruction) (reader : Reader)
    (created : Files) (loc : Location) (m m' : Machine) : Prop where
  /-- The job enters the segment, whether it runs or not. -/
  own : m'.view j = ((m.view j).withOutcome o).entered j reader image (.ofFile created loc)
  /-- No other job changes. -/
  others : ∀ k, k ≠ j → m'.job k = m.job k
  /-- The running job goes on. If none runs, the job gets the processor. -/
  running : m'.running? = some (if m.idle then j else m.current)

theorem Reenters.of_agrees (hagrees : m.Agrees m₁)
    (h : Reenters j o image reader created loc m₁ m') :
    Reenters j o image reader created loc m m' where
  own := by rw [h.own, hagrees.view]
  others k hk := (h.others k hk).trans hagrees.job
  running := by
    rw [h.running, show m₁.idle = m.idle from congrArg Control.idle hagrees.control,
      show m₁.current = m.current from congrArg Control.current hagrees.control]

theorem Agrees.closes (hagrees : m.Agrees m') : m'.Closes j o ↔ m.Closes j o := by
  have hidle : m'.idle = m.idle := congrArg Control.idle hagrees.control
  have hcurrent : m'.current = m.current := congrArg Control.current hagrees.control
  have hculprit : m'.culprit? = m.culprit? := congrArg Control.culprit? hagrees.control
  unfold Closes Stops
  rw [hagrees.runs, hagrees.line, hagrees.hardware, hidle, hcurrent, hculprit]

/-- The processor stays with the job that it works for when job `j` enters a segment. -/
theorem Reloads.running? {culprit? : Option Nat} (h : m.Reloads j o culprit? image reader m')
    (hidle : m.idle = false) : m'.running? = some (if m.idle then j else m.current) := by
  rw [Machine.running?, h.idle, hidle, h.current]
  rfl

/-- `serveSegmentEnd` for a job with a next segment: the running job comes to the end of its
image. -/
theorem HasNext.serveSegmentEnd (h : m.HasNext m.current image reader created loc) (w : m.Wired)
    (hline : m.line.isIdle = true) (hidle : m.idle = false) :
    ∃ m', m.serveSegmentEnd = (.running, m') ∧
      Reenters m.current .completed image reader created loc m m' := by
  obtain ⟨m', hend, hreloads, hview, hother⟩ :=
    h.endSegment ((signals_refl w).note (.reachedEnd m.current)) hline w.current .completed
  refine ⟨m', ?_, hview, hother, hreloads.running? hidle⟩
  unfold Machine.serveSegmentEnd retire
  simp only [hend]

/-- `serveHalt` for a job with a next segment: the running job halts. -/
theorem HasNext.serveHalt (h : m.HasNext m.current image reader created loc) (w : m.Wired)
    (line : TrapLine) (hidle : m.idle = false) :
    ∃ m', m.serveHalt line = (.running, m') ∧
      Reenters m.current (.halted ((m.hardware.cpu.regs.get? line.data).getD 0)) image reader
        created loc m m' := by
  obtain ⟨m', hend, hreloads, hview, hother⟩ :=
    h.endSegment ((signals_setTrap w .clear).note (.halted m.current
      ((m.hardware.cpu.regs.get? line.data).getD 0))) rfl w.current
      (.halted ((m.hardware.cpu.regs.get? line.data).getD 0))
  refine ⟨m', ?_, hview, hother, hreloads.running? hidle⟩
  unfold Machine.serveHalt retire
  simp only [hend]

/-- Job `j`, if it can run, gets the processor while no job is loaded, and no other job `k`
changes. -/
theorem job_resume (hj : j < m.jobs.size) (hidle : m.idle = true)
    (hboot : (m.job j).boot = .booted) (hfits : (m.job j).image.size ≤ imageLimit)
    (status : Word) (hk : k ≠ j) : (m.resume j status).2.job k = m.job k := by
  have hstopped : ∀ i, m.runs i = false := fun i => by simp [runs, hidle]
  obtain ⟨m', hact, hswitches⟩ := switchesTo_of_booted hj (hstopped j) hboot hfits
  unfold resume
  rw [hact]
  exact hswitches.job k hk (hstopped k)

/-- `serveFatal` for job `j` with a next segment: an error is charged to the job. -/
theorem HasNext.serveFatal (h : m.HasNext j image reader created loc) (hsound : m.Sound)
    (htrap : m.line.trap? = some .fatal) (hj : m.culprit?.getD m.current = j) :
    ∃ m', m.serveFatal m.line = (.running, m') ∧
      Reenters j (.fatal m.line.data) image reader created loc m m' := by
  obtain ⟨hlt, hbegun⟩ := hsound.charged_job htrap
  have hsignals : m.Signals .clear none
      (({ m with culprit? := none }.setTrap .clear).note (.failed j m.line.data)) :=
    (signals_setTrap_culprit hsound.wired .clear none).note _
  rw [hj] at hlt hbegun
  obtain ⟨m₁, hend, hreloads, hview, hother⟩ :=
    h.endSegment hsignals rfl hlt (.fatal m.line.data)
  have hserve : m.serveFatal m.line =
      if m.idle then m₁.resume j m.line.data else (.running, m₁) := by
    unfold Machine.serveFatal
    simp only [hj, hend, hreloads.idle]
  cases hidle : m.idle with
  | false =>
    refine ⟨m₁, by rw [hserve, hidle]; rfl, hview, hother, hreloads.running? hidle⟩
  | true =>
    -- the processor has waited for this job
    have hbooted := (hreloads.able hsound hlt hbegun).2
    have hidle₁ : m₁.idle = true := hreloads.idle.trans hidle
    have hlt₁ : j < m₁.jobs.size := hreloads.size.symm ▸ hlt
    obtain ⟨m₂, hresume, hinstalls⟩ := resume_spec hreloads.wired hlt₁ hreloads.line
      hreloads.fits hidle₁ hbooted m.line.data
    refine ⟨m₂, by rw [hserve, hidle]; exact hresume, ?_, fun k hk => ?_, ?_⟩
    · rw [hinstalls.view, hview]
    · have hsame := job_resume hlt₁ hidle₁ hbooted hreloads.fits m.line.data hk
      rw [hresume] at hsame
      exact hsame.trans (hother k hk)
    · rw [running?, hinstalls.busy, hinstalls.current, hidle]
      rfl

/-- `serveTrap` when the trap ends a segment of job `j` that has a next one. -/
theorem HasNext.serveTrap (h : m.HasNext j image reader created loc) (hsound : m.Sound)
    (hbusy : m.line.isIdle = false) (hcloses : m.Closes j o) :
    ∃ m', m.serveTrap = (.running, m') ∧ Reenters j o image reader created loc m m' := by
  -- the journal comes first
  have hagrees : m.Agrees (m.note (.interrupt m.line)) := agrees_note _
  have hnoted := h.agrees hagrees
  have hsound' := hsound.agrees hagrees
  unfold Machine.serveTrap
  rw [← line]
  rcases hcloses with ⟨hrun, status, ⟨hline, _⟩ | ⟨htrap, rfl, rfl⟩⟩ | ⟨htrap, hj, rfl⟩
  · rw [hbusy] at hline
    exact absurd hline (by decide)
  · obtain ⟨hidle, rfl⟩ := runs_eq_true_iff.1 hrun
    obtain ⟨m', hserve, hreenters⟩ := HasNext.serveHalt hnoted hsound'.wired m.line hidle
    exact ⟨m', by simp only [htrap]; exact hserve, hreenters.of_agrees hagrees⟩
  · obtain ⟨m', hserve, hreenters⟩ := HasNext.serveFatal hnoted hsound' htrap hj
    exact ⟨m', by simp only [htrap]; exact hserve, hreenters.of_agrees hagrees⟩

/-- A turn in which a segment of job `j` ends that has a next one. -/
theorem Sound.reenters (h : m.Sound) (hcloses : m.Closes j o)
    (hnext : m.HasNext j image reader created loc) :
    ∃ m', m.stepProcessor = (.running, m') ∧ Reenters j o image reader created loc m m' := by
  have hpc : m.idle = true → m.hardware.cpu.regs.pc = Registers.idlePc :=
    fun hidle => (h.resting hidle).pc
  unfold stepProcessor
  rcases tickProcessor_cases hpc with
    ⟨hbusy, m₁, htick, hagrees⟩ | ⟨hline, hfree⟩
  · obtain ⟨m', hserve, hreenters⟩ := (hnext.agrees hagrees).serveTrap (h.agrees hagrees)
      (hagrees.line ▸ hbusy) (hagrees.closes.2 hcloses)
    exact ⟨m', by simp only [htick]; exact hserve, hreenters.of_agrees hagrees⟩
  · -- with nothing on the line it is the running job that is at the end of its image
    rcases hcloses with ⟨hrun, status, ⟨_, _, hend, rfl, _⟩ | ⟨htrap, _⟩⟩ | ⟨htrap, _⟩
    · obtain ⟨hidle, rfl⟩ := runs_eq_true_iff.1 hrun
      rcases hfree with ⟨hidle', _⟩ | ⟨_, _, m₁, htick, hagrees⟩ | ⟨_, hend', _⟩
      · rw [hidle] at hidle'
        exact absurd hidle' (by decide)
      · have hcurrent : m₁.current = m.current := congrArg Control.current hagrees.control
        obtain ⟨m', hserve, hreenters⟩ := (hcurrent ▸ hnext.agrees hagrees).serveSegmentEnd
          (hagrees.wired h.wired) (hagrees.line ▸ hline)
          ((congrArg Control.idle hagrees.control).trans hidle)
        rw [hcurrent] at hreenters
        exact ⟨m', by simp only [htick]; exact hserve, hreenters.of_agrees hagrees⟩
      · rw [hend] at hend'
        exact absurd hend' (by decide)
    all_goals exact absurd hline (TrapLine.not_isIdle htrap)

/-! ## Until the job gets its turn -/

/-- The processor goes on with job `j` in the next tick: the job runs, and nothing is pending. So it
executes an instruction of the job, or finds the job at the end of its image. -/
def Proceeds (m : Machine) (j : Nat) : Prop :=
  m.runs j = true ∧ m.line.isIdle = true

instance (m : Machine) (j : Nat) : Decidable (m.Proceeds j) :=
  inferInstanceAs (Decidable (_ ∧ _))

/-- What is pending in `m` has come from a device, or an error of a device has become of it. -/
def Foreign (m : Machine) : Prop :=
  (∃ side : Side, m.line.trap? = some side.completion) ∨ m.culprit?.isSome = true

/-- What is foreign in `m` is a completion or an error. -/
theorem Foreign.trap?_eq (h : m.Foreign) (hsound : m.Sound) :
    (∃ side : Side, m.line.trap? = some side.completion) ∨ m.line.trap? = some .fatal := by
  refine h.imp_right fun hsome => ?_
  obtain ⟨k, hculprit⟩ := Option.isSome_iff_exists.1 hsome
  exact (hsound.charged.culprit k hculprit).2.2

/-- A program does not misuse what is foreign in `m`. -/
theorem Foreign.not_misuses (h : m.Foreign) (hsound : m.Sound) : ¬ m.Misuses := by
  intro hmisuses
  obtain ⟨hfatal, hcompletion⟩ := hmisuses.trap?_ne
  rcases h.trap?_eq hsound with ⟨side, htrap⟩ | htrap
  · exact hcompletion side htrap
  · exact hfatal htrap

/-- No program asks for a transfer with what is foreign in `m`. -/
theorem Foreign.trap?_ne_request (h : m.Foreign) (hsound : m.Sound) (side : Side) :
    m.line.trap? ≠ some side.request := by
  intro hrequest
  rcases h.trap?_eq hsound with ⟨side', htrap⟩ | htrap
  · simp [hrequest] at htrap
  · simp [hrequest] at htrap

/-- The running job does not end its segment with what is foreign in `m`. -/
theorem Foreign.not_stops {status : Word} (h : m.Foreign) (hsound : m.Sound)
    (hbusy : m.line.isIdle = false) : ¬ m.Stops o status := by
  rintro (⟨hline, _⟩ | ⟨hhalt, _⟩)
  · rw [hbusy] at hline
    exact absurd hline (by decide)
  · rcases h.trap?_eq hsound with ⟨side, htrap⟩ | htrap
    · rw [hhalt, Option.some.injEq] at htrap
      exact side.completion_ne_halt htrap.symm
    · simp [hhalt] at htrap

/-- An instruction is executed while nothing is pending in `m`, and before the end of the image. -/
theorem Sound.isIdle_of_activity (h : m.Sound) {result : Except Fault Instruction}
    (hactivity : m.activity = .stepped result) :
    m.line.isIdle = true ∧ m.hardware.cpu.atEnd = false := by
  rcases h.activity_cases with ⟨_, heq⟩ | ⟨_, _, heq⟩ | ⟨_, _, _, heq⟩ | ⟨hline, _, hend, _⟩
  · simp [hactivity] at heq
  · simp [hactivity] at heq
  · simp [hactivity] at heq
  · exact ⟨hline, hend⟩

/-- When the processor goes on with job `j` it executes an instruction, unless the job is at the end
of its image. -/
theorem Sound.activity_of_proceeds (h : m.Sound) (hproceeds : m.Proceeds j) :
    m.activity = if m.hardware.cpu.atEnd then .ended else .stepped m.hardware.cpu.step.1 := by
  obtain ⟨hrun, hline⟩ := hproceeds
  have hbusy := (runs_eq_true_iff.1 hrun).1
  rcases h.activity_cases with ⟨hline', _⟩ | ⟨_, hidle, _⟩ | ⟨_, _, hend, heq⟩ | ⟨_, _, hend, heq⟩
  · rw [hline] at hline'
    exact absurd hline' (by decide)
  · rw [hbusy] at hidle
    exact absurd hidle (by decide)
  · rw [heq, if_pos hend]
  · rw [heq, hend]
    rfl

/-- When an instruction of job `j` is executed the processor goes on with the job. -/
theorem Sound.proceeds_of_activity (h : m.Sound) {result : Except Fault Instruction}
    (hactivity : m.activity = .stepped result) (hrunning : m.running? = some j) : m.Proceeds j :=
  ⟨running?_eq_some_iff.1 hrunning, (h.isIdle_of_activity hactivity).1⟩

/-- What a tick leaves on the line while job `j` runs is foreign, unless the job has executed an
instruction or misused a trap. -/
theorem Sound.foreign_of_tick (h : m.Sound) (htick : m.tick = (.running, m'))
    (hrun : m'.runs j = true) (hbusy : m'.line.isIdle = false)
    (hstep : ∀ result, m.activity = .stepped result → m.running? ≠ some j)
    (hmisuse : m.Misuses → m.running? ≠ some j) : m'.Foreign := by
  have hrunning := running?_eq_some_iff.2 hrun
  cases h.origin htick hbusy with
  | traps hbefore hactivity _ _ hafter =>
    rw [hrunning] at hafter
    exact absurd (hafter ▸ hbefore) (hstep _ hactivity)
  | faults hbefore hactivity _ hafter =>
    rw [hrunning] at hafter
    exact absurd (hafter ▸ hbefore) (hstep _ hactivity)
  | rejects hbefore hmisuses _ hafter =>
    rw [hrunning] at hafter
    exact absurd (hafter ▸ hbefore) (hmisuse hmisuses)
  | fails _ _ _ _ hculprit => exact .inr (by rw [hculprit]; rfl)
  | signals hlt htransfers hline => exact .inl ⟨_, hline ▸ htransfers.trap?_eq h hlt⟩

/-- Job `j` is booted, can run and asks for nothing, and with the registers that it would run on it
is `job`. What is pending while it runs does not come from the job itself. -/
structure Awaits (j : Nat) (job : Job) (m : Machine) : Prop where
  state : (m.view j).job = job
  life : job.life = .runnable
  boot : job.boot = .booted
  pending : job.pending? = none
  target : job.target? = none
  foreign : m.runs j = true → m.line.isIdle = false → m.Foreign

namespace Awaits

variable {job : Job}

theorem life_eq (h : m.Awaits j job) : (m.job j).life = .runnable := by
  rw [← view_life, h.state, h.life]

/-- What is pending in `m` while job `j` runs is foreign. -/
theorem foreign_of_runs (h : m.Awaits j job) (hwaits : ¬ m.Proceeds j) (hrun : m.runs j = true) :
    m.line.isIdle = false ∧ m.Foreign := by
  have hbusy : m.line.isIdle = false := by
    rw [Bool.eq_false_iff]
    exact fun hline => hwaits ⟨hrun, hline⟩
  exact ⟨hbusy, h.foreign hrun hbusy⟩

/-- No segment of job `j` ends. -/
theorem not_closes (h : m.Awaits j job) (hsound : m.Sound) (htidy : m.Tidy j)
    (hwaits : ¬ m.Proceeds j) : ¬ m.Closes j o := by
  -- an error is charged to a job only while the job waits for its device
  have hspared : m.culprit? ≠ some j := by
    intro hculprit
    have hwaiting := htidy.charged hculprit
    rw [h.life_eq] at hwaiting
    exact absurd hwaiting (by decide)
  intro hcloses
  cases hrun : m.runs j with
  | false => exact hspared (hsound.culprit_of_closes hcloses hrun).2.1
  | true =>
    obtain ⟨hbusy, hforeign⟩ := h.foreign_of_runs hwaits hrun
    rcases hcloses with ⟨_, status, hstops⟩ | ⟨htrap, hcharged, _⟩
    · exact hforeign.not_stops hsound hbusy hstops
    · rcases hforeign with ⟨side, hside⟩ | hsome
      · rw [htrap, Option.some.injEq] at hside
        exact side.completion_ne_fatal hside.symm
      · obtain ⟨k, hculprit⟩ := Option.isSome_iff_exists.1 hsome
        rw [hculprit, Option.getD_some] at hcharged
        exact hspared (hcharged ▸ hculprit)

/-- A turn leaves job `j` as it is, unless the processor goes on with it. -/
theorem job_of_move (h : m.Awaits j job) (hsound : m.Sound) (htidy : m.Tidy j)
    (hwaits : ¬ m.Proceeds j) (hmove : m.Move m' j) : (m'.view j).job = job := by
  have hboot : (m.job j).boot = .booted := by rw [← view_boot, h.state, h.boot]
  rw [← h.state]
  cases hmove with
  | shifts _ hshift =>
    cases hshift with
    | stays hview => rw [hview]
    | boots hfresh | drops hfresh =>
      rw [hboot] at hfresh
      exact absurd hfresh (by decide)
  | steps hline hrun => exact absurd ⟨hrun, hline⟩ hwaits
  -- what is on the line while the job runs is not its own
  | rejects hrun hmisuses =>
    exact absurd hmisuses ((h.foreign_of_runs hwaits hrun).2.not_misuses hsound)
  | reloads hcloses | retires hcloses => exact absurd hcloses (h.not_closes hsound htidy hwaits)
  | asks hrun htrap =>
    exact absurd htrap ((h.foreign_of_runs hwaits hrun).2.trap?_ne_request hsound _)
  | fails hcompletes hstatus =>
    have hwaiting := htidy.failed _ hcompletes hstatus
    rw [h.life_eq] at hwaiting
    exact absurd hwaiting (by decide)
  | @collects side _ _ hview =>
    -- this would wake a job that waits, and fill a register that it has named
    have htarget : (m.view j).job.target? = none := by rw [h.state, h.target]
    have hlife : (m.view j).job.life = .runnable := by rw [h.state, h.life]
    rw [hview]
    exact View.job_collected side htarget hlife

/-- Offering the held requests makes no difference to job `j`. -/
theorem offers (h : m.Awaits j job) (hview : m₀.view j = m.view j) (hoffers : m.Offers m₀) :
    m₀.Awaits j job := by
  refine { h with state := by rw [hview, h.state], foreign := fun hrun hbusy => ?_ }
  rw [runs_congr hoffers.control] at hrun
  unfold Foreign
  rw [hoffers.line, hoffers.culprit?]
  exact h.foreign hrun (hoffers.line ▸ hbusy)

/-- `tick` leaves job `j` as it is, unless the processor goes on with it. -/
theorem tick (h : m.Awaits j job) (hsound : m.Sound) (hj : j < m.jobs.size) (htidy : m.Tidy j)
    (hwaits : ¬ m.Proceeds j) (htick : m.tick = (.running, m')) : m'.Awaits j job := by
  obtain ⟨m₀, hoffers, hsound₀, hmove⟩ := hsound.move_of_tick
  obtain ⟨hview, htidy₀⟩ := htidy.offers hj hoffers
  have hwaits₀ : ¬ m₀.Proceeds j := by
    unfold Proceeds
    rwa [runs_congr hoffers.control, hoffers.line]
  refine { h with state := ?_, foreign := fun hrun hbusy => ?_ }
  · -- the devices that tick after the turn change no job
    exact (hsound.job_of_tick htick j).trans
      ((h.offers hview hoffers).job_of_move hsound₀ htidy₀ hwaits₀ (hmove j hj))
  · refine hsound.foreign_of_tick htick hrun hbusy (fun result hactivity hrunning => ?_)
      fun hmisuses hrunning => ?_
    · exact hwaits (hsound.proceeds_of_activity hactivity hrunning)
    · exact (h.foreign_of_runs hwaits (running?_eq_some_iff.1 hrunning)).2.not_misuses hsound
        hmisuses

end Awaits

/-! ## As long as the segment lasts -/

/-- A turn binds the output device of job `j` to a file other than that at `loc` only if it loads a
segment of the job, or if the job is over afterwards. -/
theorem Move.writesTo (hmove : m.Move m' j) (h : (m.view j).output.WritesTo loc)
    (hsegments : (m'.job j).segments = (m.job j).segments) (hlife : (m'.job j).life ≠ .finished) :
    (m'.view j).output.WritesTo loc := by
  rw [← view_segments, ← view_segments] at hsegments
  rw [← view_life] at hlife
  -- a load would show in the number of segments
  have hloads : ∀ {v : View}, v.job.segments = (m.view j).job.segments + 1 → m'.view j ≠ v := by
    rintro v hmore rfl
    omega
  have hends : ∀ {v : View}, v.job.life = .finished → m'.view j ≠ v := by
    rintro v hover rfl
    exact hlife hover
  cases hmove with
  | shifts _ hshift =>
    cases hshift with
    | stays hview => exact hview ▸ h
    | boots _ _ _ _ _ _ _ _ hview => exact absurd hview (hloads rfl)
    | drops _ _ _ _ hview => exact absurd hview (hends rfl)
  | steps _ _ _ _ _ hview => exact hview ▸ h
  | rejects _ _ _ _ hview => exact hview ▸ h
  | reloads _ _ _ _ _ hview => exact absurd hview (hloads rfl)
  | retires _ _ hview => exact absurd hview (hends rfl)
  | asks _ _ _ hview => exact h.of_sink? (by rw [hview, View.sink?_asks])
  | fails _ _ _ _ hview => exact h.of_sink? (by rw [hview, View.sink?_acknowledged])
  | collects _ _ hview => exact h.of_sink? (by rw [hview]; exact View.sink?_acknowledged _ _)

/-- After the turn of the processor the output device of job `j` ticks once, and stays bound to the
file at `loc`. -/
theorem Sound.writesTo_of_served (hsound : m.Sound) (hj : j < m.jobs.size)
    (htick : m.tick = (.running, m')) (h : (m.served.view j).output.WritesTo loc) :
    (m'.view j).output.WritesTo loc := by
  obtain ⟨hwired, hsize⟩ := hsound.served_wired
  have hj' : j < m'.jobs.size := (hsound.lasts htick hj).1.symm ▸ hj
  have hticked := device?_of_tick_running htick (device?_outputNumber hwired (hsize.symm ▸ hj))
  have hsame := (device?_outputNumber (hsound.tick htick).wired hj').symm.trans hticked
  rw [Option.some.inj hsame]
  exact h.tick _ _ _

/-- `tick` binds the output device of job `j` to no other file than the turn in it does. -/
theorem Sound.writesTo (hsound : m.Sound) (hj : j < m.jobs.size) (htick : m.tick = (.running, m'))
    (h : (m.view j).output.WritesTo loc) (hsegments : (m'.job j).segments = (m.job j).segments)
    (hlife : (m'.job j).life ≠ .finished) : (m'.view j).output.WritesTo loc := by
  obtain ⟨m₀, hoffers, hsound₀, hmove⟩ := hsound.move_of_tick
  have hafter := hsound.unmoved_of_tick htick j
  have hoffered : (m₀.view j).output.WritesTo loc :=
    h.of_sink? (by rw [hoffers.view j hj, View.sink?_offered])
  have hserved := (hmove j hj).writesTo hoffered
    (hafter.segments.symm.trans (hsegments.trans (hoffers.unmoved hj).segments.symm))
    (hafter.life ▸ hlife)
  exact hsound.writesTo_of_served hj htick hserved

/-- In a run from `m` to `x` job `j` does not fall back to an earlier segment, and its output goes
to the same file as long as the segment lasts. -/
theorem Run.writesTo (hsound : m.Sound) (hj : j < m.jobs.size) (hrun : Run m p later x)
    (hp : p = .running) (h : (m.view j).output.WritesTo loc) :
    (m.job j).segments ≤ (x.job j).segments ∧
      ((x.job j).segments = (m.job j).segments → (x.job j).life ≠ .finished →
        (x.view j).output.WritesTo loc) := by
  induction hrun with
  | start => exact ⟨Nat.le_refl _, fun _ _ => h⟩
  | @tick later y x _ hrun htick ih =>
    subst hp
    obtain ⟨hle, hwrites⟩ := ih rfl
    have hsound' := (hrun.sound hsound).2 rfl
    have hj' : j < y.jobs.size := (hrun.lasts hsound hj).1.symm ▸ hj
    have hsegments := hsound'.segments_tick htick hj'
    refine ⟨by omega, fun hsame hlife => ?_⟩
    -- the segment has lasted up to here
    have hbefore : (y.job j).segments = (m.job j).segments := by omega
    have hunfinished : (y.job j).life ≠ .finished := fun hover =>
      hlife ((hsound'.lasts htick hj').2 hover).1
    exact hsound'.writesTo hj' htick (hwrites hbefore hunfinished) (hsame.trans hbefore.symm) hlife

/-! ## The reload -/

/-- What is forged for job `j` is forged by an instruction. -/
theorem exists_step_of_forged? (h : m.forged? = some j) :
    ∃ i, m.activity = .stepped (.ok i) ∧ i.isLawful = false := by
  unfold forged? at h
  split at h
  case h_1 i hstep =>
    refine ⟨i, hstep, ?_⟩
    rw [Bool.eq_false_iff]
    intro hlawful
    simp [hlawful] at h
  case h_2 => simp at h

/-- A program that leaves the completions to the devices forges none for job `j`. -/
theorem not_forges_of_isLawful (h : m.isLawful = true) : ¬ m.Forges j := by
  rintro ⟨hforged, _⟩
  obtain ⟨i, hstep, hunlawful⟩ := exists_step_of_forged? hforged
  have hactivity : m.tickProcessor.1 = m.activity := m.activity_eq.symm
  rw [isLawful, hactivity, hstep] at h
  exact absurd (h.symm.trans hunlawful) (by decide)

/-- The tick in which a segment of job `j` ends executes no instruction. -/
theorem Closes.not_forges (hcloses : m.Closes j o) (h : m.Sound) : ¬ m.Forges k := by
  rintro ⟨hforged, _⟩
  obtain ⟨i, hstep, _⟩ := exists_step_of_forged? hforged
  obtain ⟨hline, hend⟩ := h.isIdle_of_activity hstep
  exact not_closes_of_isIdle hline hend hcloses

/-- What job `j` becomes when it enters a segment after one that has ended with the outcome `o`. -/
def reenteredJob (m : Machine) (j : Nat) (o : Outcome) (reader : Reader)
    (image : List Instruction) : Job :=
  (((m.view j).withOutcome o).job).enter reader.name image.toArray

/-- A tick in which a segment of job `j` ends that has a next one. -/
theorem Sound.reload (h : m.Sound) (hj : j < m.jobs.size) (htidy : m.Tidy j)
    (hcloses : m.Closes j o) (hnext : m.HasNext j image reader created loc) :
    ∃ m', m.tick = (.running, m') ∧ Reenters j o image reader created loc m.ready m.served ∧
      m'.Awaits j (m.reenteredJob j o reader image) ∧ (m'.view j).output.WritesTo loc := by
  have hoffers := h.offers_ready
  have hview := (htidy.offers hj hoffers).1
  have hready : m.ready.HasNext j image reader created loc :=
    hnext.congr (congrArg Control.config hoffers.control) (hoffers.unmoved hj).segments
      (congrArg View.source? hview) hoffers.files
  obtain ⟨m₁, hstep, hreenters⟩ := (h.offers hoffers).reenters (hoffers.closes.2 hcloses) hready
  obtain rfl : m.served = m₁ := congrArg Prod.snd hstep
  obtain ⟨m', htick⟩ : ∃ m', m.tick = (.running, m') := by
    rw [tick_eq, congrArg Prod.fst hstep]
    exact ⟨_, rfl⟩
  refine ⟨m', htick, hreenters, ?_, ?_⟩
  · obtain ⟨r, hsource, _⟩ := hnext.source
    constructor
    case state =>
      rw [h.job_of_tick htick j, hreenters.own, hview]
      rfl
    case life => rfl
    case boot => exact h.booted_of_source hj (h.begun_of_closes hcloses) hsource
    case pending => rfl
    case target => rfl
    case foreign =>
      -- in this tick no instruction has been executed, and no trap has been rejected
      intro hrun hbusy
      refine h.foreign_of_tick htick hrun hbusy (fun result hactivity _ => ?_) fun hmisuses _ => ?_
      · obtain ⟨hline, hend⟩ := h.isIdle_of_activity hactivity
        exact not_closes_of_isIdle hline hend hcloses
      · exact hmisuses.not_closes hcloses
  · refine h.writesTo_of_served hj htick (Device.writesTo_of_bound ?_)
    rw [hreenters.own, hview]
    have hbound : ((m.view j).output.withSink (.ofFile created loc)).sink? = _ :=
      (h.wired.output j hj).sink?_withSink _
    exact (congrArg (Option.map Sink.target) hbound).trans
      (congrArg some (Sink.target_ofFile created loc))

/-- What job `j` is like in `x`, after it has been reloaded in the tick of `m` with `image` and the
output file at `loc`, until the processor goes on with it. -/
structure Reloaded (m : Machine) (j : Nat) (image : List Instruction) (loc : Location)
    (x : Machine) : Prop where
  /-- The job can run. -/
  life : (x.job j).life = .runnable
  /-- No request of it is held, and it has named no register for a word. -/
  asks : (x.job j).pending? = none ∧ (x.job j).target? = none
  /-- It is in the next segment. -/
  segments : (x.job j).segments = (m.job j).segments + 1
  /-- Its output goes to the file of this segment, and to no other. -/
  output : (x.view j).output.WritesTo loc
  /-- When the processor goes on with it, the first instruction of the segment is executed, if it
  has one, with nothing pending and on the registers that the job has had at the end of the segment
  before. -/
  proceeds : x.Proceeds j → x.line.isIdle = true ∧ x.hardware.cpu.program = image.toArray ∧
    x.hardware.cpu.regs.pc = 0 ∧
    (∀ r, r ≠ 0 → x.hardware.cpu.regs.get? r = (m.regsOf j).get? r) ∧
    x.activity = if image = [] then .ended else .stepped x.hardware.cpu.step.1

/-- Job `j` is as `Reloaded` says while it is in the state that the reload has left it in. -/
theorem Awaits.reloaded (h : x.Awaits j (m.reenteredJob j o reader image)) (hsound : x.Sound)
    (hwrites : (x.view j).output.WritesTo loc) : m.Reloaded j image loc x := by
  constructor
  case life => exact h.life_eq
  case asks =>
    rw [← view_pending?, ← view_target?, h.state]
    exact ⟨rfl, rfl⟩
  case segments =>
    rw [← view_segments, h.state]
    rfl
  case output => exact hwrites
  case proceeds =>
    rintro ⟨hrun, hline⟩
    obtain ⟨hidle, hcurrent⟩ := runs_eq_true_iff.1 hrun
    have hregs : x.hardware.cpu.regs = (m.regsOf j).setPc 0 := by
      have hsame : x.regsOf j = (m.regsOf j).setPc 0 := congrArg Job.registers h.state
      rwa [regsOf, if_pos hrun] at hsame
    have hpc : x.hardware.cpu.regs.pc = 0 := by rw [hregs, Registers.pc_setPc]
    have himage : (x.job j).image = image.toArray := congrArg Job.image h.state
    have hprogram : x.hardware.cpu.program = image.toArray := by
      rw [hsound.wired.program hidle, hcurrent, himage]
    refine ⟨hline, hprogram, hpc, fun r hr => ?_, ?_⟩
    · rw [hregs, Registers.get?_setPc _ _ hr]
    · rw [hsound.activity_of_proceeds ⟨hrun, hline⟩]
      simp only [Processor.atEnd_iff_of_start hprogram hpc]

section Launch

variable {jobs : List (Job × Option Reader)} {config : Config} {files : Files} {journal : Journal}
  {job : Job}

/-- Job `j` stays as it is in a run from `m` to `x` until the processor goes on with it. -/
theorem Run.awaits (hlaunch : Launches jobs config files journal first)
    (hfew : 2 * jobs.length < 2 ^ 31) (hj : j < jobs.length) (hrun : Run first .running past m)
    (hlater : Run m p later x) (hp : p = .running) (hhonest : ∀ y ∈ later ++ past, ¬ y.Forges j)
    (hwaits : ∀ y ∈ later, ¬ y.Proceeds j) (h : m.Awaits j job) : x.Awaits j job := by
  induction hlater with
  | start => exact h
  | @tick later y x _ hlater htick ih =>
    subst hp
    have hhonest' : ∀ z ∈ later ++ past, ¬ z.Forges j := fun z hz =>
      hhonest z (List.mem_cons_of_mem _ hz)
    have hawaits := ih rfl hhonest' fun z hz => hwaits z (List.mem_cons_of_mem _ hz)
    have hrun' := hrun.trans hlater
    exact hawaits.tick ((hrun'.sound hlaunch.sound).2 rfl) (hrun'.size hlaunch ▸ hj)
      (hrun'.tidy hlaunch hfew hj hhonest') (hwaits y List.mem_cons_self) htick

/-- When a segment of job `j` that has a next one ends in `m`, by itself or with an error that is
charged to the job, while it runs, waits, or while no job is loaded at all, the machine goes on. The
slots of the other jobs stay as they are, and the processor stays with the job that runs, or turns
to this one if none does. The job is reloaded, and it stays so until the processor goes on with it.
Its output goes to the new file as long as the segment lasts. (The word that names a device has room
for its number if there are fewer than `2 ^ 30` jobs.) -/
theorem segment_reload (hlaunch : Launches jobs config files journal first)
    (hfew : 2 * jobs.length < 2 ^ 31) (hrun : Run first .running past m)
    (hlawful : ∀ y ∈ past, y.isLawful = true) (hj : j < jobs.length) (hcloses : m.Closes j o)
    (hnext : m.HasNext j image reader created loc) :
    ∃ m', m.tick = (.running, m') ∧
      (∀ k, k ≠ j → m.served.job k = m.ready.job k) ∧
      m.served.running? = some (if m.idle then j else m.current) ∧
      ∀ later x, Run m' .running later x → (∀ y ∈ later, y.isLawful = true) →
        ((∀ y ∈ later, ¬ y.Proceeds j) → m.Reloaded j image loc x) ∧
        ((x.job j).segments = (m.job j).segments + 1 → (x.job j).life ≠ .finished →
          (x.view j).output.WritesTo loc) := by
  have hsound := (hrun.sound hlaunch.sound).2 rfl
  have hj' : j < m.jobs.size := hrun.size hlaunch ▸ hj
  have htidy : m.Tidy j :=
    hrun.tidy hlaunch hfew hj fun y hy => not_forges_of_isLawful (hlawful y hy)
  obtain ⟨m', htick, hreenters, hawaits, hwrites⟩ := hsound.reload hj' htidy hcloses hnext
  have hoffers : m.Offers m.ready := offers_openTick hsound.wired fun j hj => (hsound.job j hj).owns
  refine ⟨m', htick, hreenters.others, ?_, fun later x hlater hlawful' => ?_⟩
  · rw [hreenters.running, show m.ready.idle = m.idle from congrArg Control.idle hoffers.control,
      show m.ready.current = m.current from congrArg Control.current hoffers.control]
  have hrun' : Run first .running (m :: past) m' := .tick hrun htick
  have hsound' := hsound.tick htick
  have hsegments : (m'.job j).segments = (m.job j).segments + 1 := by
    rw [← view_segments, hawaits.state]
    rfl
  obtain ⟨_, hlasts⟩ := hlater.writesTo hsound' (hrun'.size hlaunch ▸ hj) rfl hwrites
  rw [hsegments] at hlasts
  refine ⟨fun hwaits => ?_, hlasts⟩
  -- for its devices the whole run counts, from the start of the machine on
  have hhonest : ∀ y ∈ later ++ m :: past, ¬ y.Forges j := by
    intro y hy
    rcases List.mem_append.1 hy with hmem | hmem
    · exact not_forges_of_isLawful (hlawful' y hmem)
    · rcases List.mem_cons.1 hmem with rfl | hmem'
      · exact hcloses.not_forges hsound
      · exact not_forges_of_isLawful (hlawful y hmem')
  have hx := hrun'.awaits hlaunch hfew hj hlater rfl hhonest hwaits hawaits
  refine hx.reloaded ((hlater.sound hsound').2 rfl) (hlasts ?_ ?_)
  · rw [← view_segments, hx.state]
    rfl
  · rw [hx.life_eq]
    decide

end Launch

/-- A job that asks for a word without having an input, and has a second segment, and a job that
works in the meantime. -/
def retryJobs : List (Job × Option Reader) :=
  [(.new 0 "reader" none,
      some (.ofText "reader" "$JOB reader\n2 1 7\nf 2 1\n$JOB next\n2 2 5\n")),
    (.new 1 "worker" none,
      some (.ofText "worker" "$JOB worker\n2 1 1\n2 1 2\n2 1 3\n2 1 4\n"))]

/-- The machine of `retryJobs` after their start, with devices that need one tick. -/
def retryFirst : Machine :=
  (new retryJobs { Config.standard with deviceDelay := 1 } .empty (.new none)).start.2

/-- The machine five ticks later: the second job runs, and the error on the line is charged to the
first one. -/
def retryFailed : Machine :=
  (tickUpTo 5 retryFirst).2

/-- The second job runs to its end. Then the first one starts its second segment, with the word in
its register that it has put there in the first. -/
theorem segment_reload_retry :
    retryFailed.Closes 0 (.fatal 1) ∧ retryFailed.running? = some 1 ∧
      ∃ loc, retryFailed.Reloaded 0 [⟨.movi, 2, 5, 0⟩] loc (tickUpTo 4 retryFailed.tick.2).2 ∧
        (tickUpTo 4 retryFailed.tick.2).2.hardware.cpu.regs.get? 1 = some 7 := by
  have hlaunch : Launches retryJobs { Config.standard with deviceDelay := 1 } .empty (.new none)
      retryFirst :=
    launches_of_isOk (by decide +kernel) (by decide +kernel)
  have hbefore : (tickUpTo 5 retryFirst).1 = none ∧
      (∀ i < 5, (tickUpTo i retryFirst).2.isLawful = true) ∧
      retryFailed.running? = some 1 ∧ retryFailed.line.trap? = some .fatal ∧
      retryFailed.line.data = 1 ∧ retryFailed.culprit? = some 0 ∧
      retryFailed.nextCode? 0 = some [⟨.movi, 2, 5, 0⟩] ∧
      (retryFailed.regsOf 0).get? 1 = some 7 := by decide +kernel
  have hafter : (tickUpTo 4 retryFailed.tick.2).1 = none ∧
      (∀ i < 4, (tickUpTo i retryFailed.tick.2).2.isLawful = true) ∧
      (∀ i < 4, ¬ (tickUpTo i retryFailed.tick.2).2.Proceeds 0) ∧
      (tickUpTo 4 retryFailed.tick.2).2.Proceeds 0 := by decide +kernel
  obtain ⟨hnone, hsteps, hrunning, htrap, hdata, hculprit, hcode, hregister⟩ := hbefore
  obtain ⟨hnone', hsteps', hstays, hproceeds⟩ := hafter
  -- the run up to the reload, and the run after it
  obtain ⟨past, hrun, hpast⟩ := run_of_tickUpTo hnone
  obtain ⟨later, hlater, hmem⟩ := run_of_tickUpTo hnone'
  have hlawful : ∀ y ∈ past, y.isLawful = true := by
    intro y hy
    obtain ⟨i, hi, rfl⟩ := hpast y hy
    exact hsteps i hi
  have hlawful' : ∀ y ∈ later, y.isLawful = true ∧ ¬ y.Proceeds 0 := by
    intro y hy
    obtain ⟨i, hi, rfl⟩ := hmem y hy
    exact ⟨hsteps' i hi, hstays i hi⟩
  have hcloses : retryFailed.Closes 0 (.fatal 1) :=
    .inr ⟨htrap, by rw [hculprit]; rfl, by rw [hdata]⟩
  obtain ⟨reader, created, loc, hnext⟩ := nextCode?_eq_some_iff.1 hcode
  obtain ⟨m', htick, _, _, hreload⟩ :=
    segment_reload hlaunch (by decide) hrun hlawful (by decide) hcloses hnext
  obtain rfl : retryFailed.tick.2 = m' := congrArg Prod.snd htick
  have hreloaded := (hreload _ _ hlater fun y hy => (hlawful' y hy).1).1
    fun y hy => (hlawful' y hy).2
  refine ⟨hcloses, hrunning, loc, hreloaded, ?_⟩
  exact ((hreloaded.proceeds hproceeds).2.2.2.1 1 (by decide)).trans hregister

end Machine

end BatchMachine
