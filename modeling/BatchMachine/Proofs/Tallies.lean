import BatchMachine.Proofs.Activation
import BatchMachine.Proofs.InstructionSet
import BatchMachine.Proofs.Origins

/-!
# What a run counts

The machine counts its ticks, and the processor counts the instructions that it executes and the
ticks that it idles through. Nothing else counts: not the scheduler, which saves and replaces the
registers, the trap line and the image of the processor and leaves the rest alone, and not the
devices. So every tick shows in exactly one way. It adds an instruction, or it is an idle tick, or
the processor has dispatched: a trap has been pending, the image has been at its end, or there has
been nothing to fetch.

* `Machine.tally`: the counts, with the configuration that bounds them.
* `Machine.tally_start`, `Machine.tally_serveTrap`, `Machine.tally_serveSegmentEnd`: what leaves
  them as they are.
* `Activity.executes`, `Activity.idles`, `Activity.dispatches`: the three kinds of ticks.
* `Machine.tally_tick`, `Machine.Run.tally`: the counts after a tick and after a run.
-/

namespace BatchMachine

open JobText

namespace Machine

/-- The counts of a machine, and its configuration. -/
structure Tally where
  /-- The ticks. -/
  clock : Nat
  /-- The executed instructions. -/
  cycles : Nat
  /-- The ticks without anything to run. -/
  idleTicks : Nat
  /-- The configuration, which bounds the ticks. -/
  config : Config

/-- What `m` has counted. -/
def tally (m : Machine) : Tally :=
  ⟨m.clock, m.hardware.cpu.cycles, m.hardware.cpu.idleTicks, m.config⟩

variable {m m' : Machine} {j k dev : Nat}

/-! ## Parts -/

@[simp]
theorem tally_note (event : Event) : (m.note event).tally = m.tally := rfl

@[simp]
theorem tally_noteAll (events : List Event) : (m.noteAll dev events).tally = m.tally := rfl

@[simp]
theorem tally_modifyJob (f : Job → Job) : (m.modifyJob j f).tally = m.tally := rfl

@[simp]
theorem tally_setSource (source? : Option Reader) : (m.setSource j source?).tally = m.tally := rfl

@[simp]
theorem tally_setTrap (line : TrapLine) : (m.setTrap line).tally = m.tally := rfl

@[simp]
theorem tally_setOutcome (o : Outcome) : (m.setOutcome j o).tally = m.tally := rfl

@[simp]
theorem tally_suspend : m.suspend.tally = m.tally := rfl

@[simp]
theorem tally_occupy : (m.occupy j).tally = m.tally := rfl

@[simp]
theorem tally_release : (m.release dev).tally = m.tally := by
  unfold release Hardware.release
  cases m.hardware.device? dev <;> rfl

@[simp]
theorem tally_releaseJob : (m.releaseJob j).tally = m.tally := by
  simp [releaseJob]

@[simp]
theorem tally_dismiss : (m.dismiss j).tally = m.tally := by
  simp [dismiss]

@[simp]
theorem tally_giveUp (e : LoadError) : (m.giveUp j e).tally = m.tally := by
  simp [giveUp]

theorem tally_bind {b : Binding} (h : m.bind dev b = .ok m') : m'.tally = m.tally := by
  unfold bind at h
  split at h
  · simp at h
  · rename_i closing? hw hbind
    -- only the link of a device changes
    obtain ⟨d, link, _, rfl⟩ := Hardware.exists_link_of_bind hbind
    cases h
    rfl

theorem tally_createOutput {path : String} {s : Sink} (h : m.createOutput path = .ok (s, m')) :
    m'.tally = m.tally := by
  unfold createOutput at h
  split at h <;> cases h
  rfl

/-! ## Loading and letting run -/

@[simp]
theorem tally_attach (path : String) : (m.attach j path).2.tally = m.tally := by
  unfold attach
  cases houtput : m.createOutput path with
  | error e => rfl
  | ok created =>
    obtain ⟨sink, m₁⟩ := created
    have hcreated := tally_createOutput houtput
    simp only
    cases hsink : m₁.bind (outputNumber j) (.sink sink) with
    | error e => exact hcreated
    | ok m₂ =>
      have hbound := (tally_bind hsink).trans hcreated
      simp only
      cases hsource : m₂.bind (inputNumber j) (.source j) with
      | error e => exact hbound
      | ok m₃ => exact (tally_bind hsource).trans hbound

@[simp]
theorem tally_enterSegment (name : String) (image : Array Instruction) (output : String) :
    (m.enterSegment j name image output).tally = m.tally := by
  unfold enterSegment
  simp only
  split <;> rfl

@[simp]
theorem tally_loadNext : (m.loadNext j).2.tally = m.tally := by
  unfold loadNext
  cases m.hardware.source? j with
  | none => rfl
  | some reader =>
    simp only
    split
    · rfl
    · rfl
    · rename_i image _
      have hattach := tally_attach (m := m.setSource j (some reader.nextImage.2)) (j := j)
        ((m.setSource j (some reader.nextImage.2)).outputFile j
          (((m.setSource j (some reader.nextImage.2)).job j).segments + 1))
      split <;> rename_i hsame <;> rw [hsame] at hattach
      · exact hattach
      · rw [tally_enterSegment]
        exact hattach

@[simp]
theorem tally_endSegment : (m.endSegment j).2.tally = m.tally := by
  have hload := tally_loadNext (m := m) (j := j)
  unfold endSegment
  split <;> rename_i hsame <;> rw [hsame] at hload
  · exact hload
  · simpa using hload
  · simpa using hload

theorem tally_openSource {reader : Reader} (h : m.openSource j = .ok (reader, m')) :
    m'.tally = m.tally := by
  unfold openSource at h
  split at h
  · cases h
    rfl
  · simp at h
  · split at h
    · simp at h
    · cases h
      rfl

@[simp]
theorem tally_boot : (m.boot j).2.tally = m.tally := by
  unfold boot
  cases hopen : m.openSource j with
  | error e => rfl
  | ok opened =>
    obtain ⟨reader, m₁⟩ := opened
    have hopened := tally_openSource hopen
    have hload := tally_loadNext (m := m₁) (j := j)
    simp only
    split
    · exact hopened
    · split
      · exact hopened
      · split <;> rename_i hsame <;> rw [hsame] at hload
        · exact hload.trans hopened
        · exact hload.trans hopened
        · exact hload.trans hopened

@[simp]
theorem tally_ensureBooted : (m.ensureBooted j).2.tally = m.tally := by
  unfold ensureBooted
  split
  · exact tally_boot
  · rfl

@[simp]
theorem tally_install : (m.install j).2.tally = m.tally := by
  unfold install Processor.load
  split
  · rfl
  · rename_i cpu hload
    split at hload
    · cases hload
      rfl
    · simp at hload

@[simp]
theorem tally_activate : (m.activate j).2.tally = m.tally := by
  have hboot := tally_ensureBooted (m := m) (j := j)
  unfold activate
  split
  · rfl
  · split <;> rename_i hsame <;> rw [hsame] at hboot
    · exact hboot
    · split <;> simpa using hboot

@[simp]
theorem tally_rotateAmong (n : Nat) : (rotateAmong n m).2.tally = m.tally := by
  induction n generalizing m with
  | zero => rfl
  | succ n ih =>
    unfold rotateAmong
    cases m.nextRunnable? with
    | none => rfl
    | some j =>
      have hactivate := tally_activate (m := m) (j := j)
      simp only
      split <;> rename_i hsame <;> rw [hsame] at hactivate
      · exact hactivate
      · rw [ih, tally_giveUp]
        exact hactivate

@[simp]
theorem tally_rotate : m.rotate.2.tally = m.tally := tally_rotateAmong _

@[simp]
theorem tally_unload : m.unload.tally = m.tally := by
  unfold unload
  cases m.idle <;> rfl

@[simp]
theorem tally_passOn (status : Word) : (m.passOn status).2.tally = m.tally := by
  have hrotate := tally_rotate (m := m)
  unfold passOn
  split <;> rename_i hsame <;> rw [hsame] at hrotate
  · exact hrotate
  · split <;> simpa using hrotate

theorem tally_startAmong (js : List Nat) : (startAmong js m).2.tally = m.tally := by
  induction js generalizing m with
  | nil => rfl
  | cons j js ih =>
    have hactivate := tally_activate (m := m) (j := j)
    unfold startAmong
    split <;> rename_i hsame <;> rw [hsame] at hactivate
    · exact hactivate
    · rw [ih, tally_giveUp]
      exact hactivate

/-- `start` counts nothing. -/
theorem tally_start : m.start.2.tally = m.tally := by
  have hamong := tally_startAmong (m := m) (List.range m.jobs.size)
  unfold start
  split
  · rfl
  · split <;> rename_i hsame <;> rw [hsame] at hamong <;> exact hamong

/-! ## Serving -/

@[simp]
theorem tally_retire (status : Word) : (m.retire j status).2.tally = m.tally := by
  have hend := tally_endSegment (m := m) (j := j)
  unfold retire
  split <;> rename_i hsame <;> rw [hsame] at hend
  · exact hend
  · simpa using hend

/-- `serveSegmentEnd` counts nothing. -/
theorem tally_serveSegmentEnd : m.serveSegmentEnd.2.tally = m.tally := by
  simp [serveSegmentEnd]

@[simp]
theorem tally_serveHalt (line : TrapLine) : (m.serveHalt line).2.tally = m.tally := by
  simp [serveHalt]

@[simp]
theorem tally_resume (status : Word) : (m.resume j status).2.tally = m.tally := by
  have hactivate := tally_activate (m := m) (j := j)
  unfold resume
  split <;> rename_i hsame <;> rw [hsame] at hactivate
  · exact hactivate
  · simpa using hactivate

@[simp]
theorem tally_serveFatal (line : TrapLine) : (m.serveFatal line).2.tally = m.tally := by
  unfold serveFatal
  simp only
  generalize hfailed : ((({ m with culprit? := none }.setTrap .clear).note
    (.failed (m.culprit?.getD m.current) line.data)).setOutcome (m.culprit?.getD m.current)
    (.fatal line.data)) = m₁
  have hbefore : m₁.tally = m.tally := by rw [← hfailed]; rfl
  have hend := tally_endSegment (m := m₁) (j := m.culprit?.getD m.current)
  rw [hbefore] at hend
  split <;> rename_i hsame <;> rw [hsame] at hend
  all_goals split <;> simpa using hend

@[simp]
theorem tally_offer : (m.offer j).tally = m.tally := by
  unfold offer
  split
  · rfl
  · split
    · rfl
    · simp only
      split <;> rfl

theorem tally_offerFirst (n : Nat) : (m.offerFirst n).tally = m.tally := by
  induction n with
  | zero => rfl
  | succ n ih =>
    have hsucc : m.offerFirst (n + 1) = (m.offerFirst n).offer n := Nat.fold_succ ..
    rw [hsucc, tally_offer, ih]

@[simp]
theorem tally_await (request : DeviceRequest) : (m.await j request).tally = m.tally := by
  unfold await
  simp only
  generalize hasked : (((m.note (.waits j request)).modifyJob j fun job =>
    { job with life := .waiting, pending? := some request }).offer j) = m₁
  have hbefore : m₁.tally = m.tally := by rw [← hasked, tally_offer]; rfl
  have hrotate := (tally_rotate (m := m₁)).trans hbefore
  split <;> rename_i hsame <;> rw [hsame] at hrotate
  · exact hrotate
  · simpa using hrotate

@[simp]
theorem tally_serveRequest (line : TrapLine) (input : Bool) :
    (m.serveRequest line input).tally = m.tally := by
  unfold serveRequest
  simp only
  split
  · rfl
  · split <;> simp [serveInput, serveOutput]

theorem tally_collect (value? : Option Word) : (m.collect j value?).tally = m.tally := by
  unfold collect
  simp only
  split
  · unfold deliver
    simp only
    split <;> rfl
  · rfl

@[simp]
theorem tally_wake : (m.wake j).tally = m.tally := rfl

@[simp]
theorem tally_serveCompletion (line : TrapLine) : (m.serveCompletion line).2.tally = m.tally := by
  unfold serveCompletion
  split
  · rfl
  · rename_i i dev d _
    unfold complete
    simp only
    split
    · rfl
    · split
      · rw [tally_resume, tally_wake, tally_setTrap, tally_collect]
        rfl
      · rw [tally_wake, tally_setTrap, tally_collect]
        rfl

/-- `serveTrap` counts nothing. -/
theorem tally_serveTrap : m.serveTrap.2.tally = m.tally := by
  unfold serveTrap
  simp only
  split <;> simp [serveUnknown]

/-- `tickDevice` counts nothing. -/
theorem tally_tickDevice (dev : Nat) : (m.tickDevice dev).tally = m.tally := by
  unfold tickDevice
  cases m.hardware.device? dev with
  | none => rfl
  | some d =>
    rw [tally_noteAll]
    unfold tally
    simp only [Hardware.cpu_update]

theorem tally_tickFirst (n : Nat) : (m.tickFirst n).tally = m.tally := by
  induction n with
  | zero => rfl
  | succ n ih => rw [tickFirst_succ, tally_tickDevice, ih]

end Machine

/-! ## The three kinds of ticks -/

namespace Activity

/-- An instruction is executed. One that fails counts as well. -/
def executes : Activity → Bool
  | stepped (.error (.illegalFetch _ _)) => false
  | stepped _ => true
  | _ => false

/-- There is nothing to run. -/
def idles : Activity → Bool
  | idled => true
  | _ => false

/-- A trap is pending, the image is at its end, or there is no instruction to fetch. -/
def dispatches : Activity → Bool
  | interrupted | ended => true
  | stepped (.error (.illegalFetch _ _)) => true
  | _ => false

/-- Every activity `a` is of one kind. -/
theorem kinds (a : Activity) : a.executes.toNat + a.idles.toNat + a.dispatches.toNat = 1 := by
  cases a with
  | interrupted => rfl
  | idled => rfl
  | ended => rfl
  | stepped result =>
    cases result with
    | ok i => rfl
    | error fault => cases fault <;> rfl

end Activity

namespace Processor

variable {cpu : Processor}

/-- `step` counts one instruction, if there is one to fetch. -/
theorem counts_step (cpu : Processor) :
    cpu.step.2.cycles = cpu.cycles + (Activity.stepped cpu.step.1).executes.toNat ∧
      cpu.step.2.idleTicks = cpu.idleTicks := by
  unfold step
  cases cpu.fetch? with
  | none => exact ⟨rfl, rfl⟩
  | some i =>
    cases heval : cpu.evaluate i with
    | ok effect =>
      simp only [heval]
      cases effect <;> exact ⟨rfl, rfl⟩
    | error fault =>
      simp only [heval]
      -- what an instruction can run into is not that there is none
      cases blames_of_evaluate heval <;> exact ⟨rfl, rfl⟩

theorem counts_tick (cpu : Processor) (live : Bool) :
    (cpu.tick live).2.cycles = cpu.cycles + (cpu.tick live).1.executes.toNat ∧
      (cpu.tick live).2.idleTicks = cpu.idleTicks + (cpu.tick live).1.idles.toNat := by
  unfold tick
  split
  · exact ⟨rfl, rfl⟩
  · split
    · exact ⟨rfl, rfl⟩
    · split
      · exact ⟨rfl, rfl⟩
      · obtain ⟨hcycles, hidle⟩ := cpu.counts_step
        exact ⟨hcycles, hidle⟩

end Processor

namespace Machine

variable {m m' first : Machine} {p : Progress} {past : List Machine}

/-! ## Ticks and runs -/

theorem tally_ready (m : Machine) : m.ready.tally = { m.tally with clock := m.clock + 1 } :=
  tally_offerFirst (m := m.openTick) m.openTick.jobs.size

/-- The turn of the processor of `m` counts what the processor does. -/
theorem tally_served (m : Machine) :
    m.served.tally =
      { m.tally with
        clock := m.clock + 1
        cycles := m.hardware.cpu.cycles + m.activity.executes.toNat
        idleTicks := m.hardware.cpu.idleTicks + m.activity.idles.toNat } := by
  have hready := m.tally_ready
  obtain ⟨hcycles, hidle⟩ := m.ready.hardware.cpu.counts_tick (!m.ready.idle)
  -- whatever the processor asks for, serving it counts nothing
  have hturn : m.served.tally = m.ready.tickProcessor.2.tally := by
    unfold served stepProcessor
    simp only
    cases m.ready.tickProcessor.1.demand with
    | nothing => rfl
    | interrupt => exact tally_serveTrap
    | segmentEnd => exact tally_serveSegmentEnd
  have hactivity : m.activity = (m.ready.hardware.cpu.tick (!m.ready.idle)).1 := rfl
  rw [hturn, hactivity]
  simp only [tally, Tally.mk.injEq] at hready ⊢
  obtain ⟨hclock, hcycles₀, hidle₀, hconfig⟩ := hready
  exact ⟨hclock, hcycles.trans (by rw [hcycles₀]), hidle.trans (by rw [hidle₀]), hconfig⟩

/-- `tick` counts itself, and what the processor does in it. -/
theorem tally_tick (h : m.tick = (p, m')) :
    m'.tally =
      { m.tally with
        clock := m.clock + 1
        cycles := m.hardware.cpu.cycles + m.activity.executes.toNat
        idleTicks := m.hardware.cpu.idleTicks + m.activity.idles.toNat } := by
  rw [← tally_served]
  cases p with
  | running =>
    rw [eq_of_tick_running h]
    exact tally_tickFirst _
  | exited status =>
    rw [eq_of_tick_exited h]
    rfl

private theorem ite_eq_toNat (b : Bool) : (if b = true then 1 else 0) = b.toNat := by
  cases b <;> rfl

/-- The ticks of a run from `first` to `m` are counted one by one. -/
theorem Run.tally (hrun : Run first p past m) :
    m.tally =
      { first.tally with
        clock := first.clock + past.length
        cycles := first.hardware.cpu.cycles + past.countP (·.activity.executes)
        idleTicks := first.hardware.cpu.idleTicks + past.countP (·.activity.idles) } := by
  induction hrun with
  | start => rfl
  | @tick past m m' p _ htick ih =>
    rw [tally_tick htick]
    simp only [Machine.tally, Tally.mk.injEq] at ih ⊢
    obtain ⟨hclock, hcycles, hidle, hconfig⟩ := ih
    refine ⟨?_, ?_, ?_, hconfig⟩
    · rw [hclock, List.length_cons, Nat.add_assoc]
    · rw [hcycles, List.countP_cons, ite_eq_toNat, Nat.add_assoc]
    · rw [hidle, List.countP_cons, ite_eq_toNat, Nat.add_assoc]

/-- Every tick of `past` is counted as of one kind. -/
theorem countP_kinds (past : List Machine) :
    past.countP (·.activity.executes) + past.countP (·.activity.idles) +
      past.countP (·.activity.dispatches) = past.length := by
  induction past with
  | nil => rfl
  | cons m past ih =>
    have hkind := m.activity.kinds
    simp only [List.countP_cons, List.length_cons, ite_eq_toNat]
    omega

end Machine

end BatchMachine
