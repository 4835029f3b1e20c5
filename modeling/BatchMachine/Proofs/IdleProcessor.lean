import BatchMachine.Proofs.Origins
import BatchMachine.Proofs.Rotation

/-!
# The processor without a job

Whether a job is loaded is known to the scheduler, but a tick of the processor goes by the program
counter and the image. The two agree from the first job on: when the processor is given up, its
program counter says that there is nothing to run. Before that the processor is as it was at
power-on, at the end of an image without instructions, and a tick takes this for the end of the
first job's segment. A start that finds no job to boot leaves it so, and a machine ticks whether it
has been started or not.

* `Machine.KeepsQuiet`: a change that neither reaches a vacant processor nor asks for anything.
* `Machine.Engages`: a change that ends with a job in the processor.
* `Machine.Parks`: a change after which a vacant processor is one that was left alone or given up.
* `Machine.Pristine`, `Machine.Parked`: a processor that has not run yet, or that has been given up
  whenever it is vacant.
* `Machine.Reaches`: what starts and ticks come to, in any order.
* `Machine.idle_tick_spec`: what a tick does while no job is loaded.
-/

namespace BatchMachine

/-- Nothing is asked for `job`, it waits for nothing, and its image fits. -/
structure Job.IsQuiet (job : Job) : Prop where
  pending : job.pending? = none
  life : job.life ≠ .waiting
  fits : job.image.size ≤ imageLimit

theorem Job.isQuiet_new (index : Nat) (origin : String) (path? : Option String) :
    (Job.new index origin path?).IsQuiet :=
  ⟨rfl, by simp [Job.new], Nat.zero_le _⟩

namespace Machine

variable {m m₁ m' : Machine} {j k : Nat}

/-! ## Changes that ask for nothing -/

/-- No job of `m` waits, no request is held, and no device is at work. -/
structure AtRest (m : Machine) : Prop where
  jobs : ∀ k, (m.job k).IsQuiet
  devices : ∀ (i : Nat) (d : Device), m.hardware.devices[i]? = some d → d.isIdle = true

theorem AtRest.device {dev : Nat} {d : Device} (h : m.AtRest)
    (hd : m.hardware.device? dev = some d) : d.isIdle = true := by
  unfold Hardware.device? at hd
  split at hd
  · simp at hd
  · exact h.devices _ d hd

theorem AtRest.loadable (h : m.AtRest) : m.Loadable :=
  fun j _ => (h.jobs j).fits

/-- `m'` comes from `m` by a change that the scheduler does not remember, that leaves a vacant
processor alone, and that asks for nothing if nothing was asked for. -/
structure KeepsQuiet (m m' : Machine) : Prop where
  control : m'.control = m.control
  cpu : m.idle = true → m'.hardware.cpu = m.hardware.cpu
  atRest : m.AtRest → m'.AtRest

namespace KeepsQuiet

theorem refl : m.KeepsQuiet m := ⟨rfl, fun _ => rfl, id⟩

theorem idle (h : m.KeepsQuiet m') : m'.idle = m.idle :=
  congrArg Control.idle h.control

theorem switches (h : m.KeepsQuiet m') : m'.switches = m.switches :=
  congrArg Control.switches h.control

theorem current (h : m.KeepsQuiet m') : m'.current = m.current :=
  congrArg Control.current h.control

theorem trans (h : m.KeepsQuiet m₁) (h' : m₁.KeepsQuiet m') : m.KeepsQuiet m' where
  control := h'.control.trans h.control
  cpu hidle := (h'.cpu (h.idle.trans hidle)).trans (h.cpu hidle)
  atRest hm := h'.atRest (h.atRest hm)

end KeepsQuiet

theorem Agrees.keepsQuiet (h : m.Agrees m') : m.KeepsQuiet m' where
  control := h.control
  cpu _ := by rw [h.hardware]
  atRest hm := ⟨fun k => h.job ▸ hm.jobs k, fun i d hd => hm.devices i d (h.hardware ▸ hd)⟩

theorem keepsQuiet_note (event : Event) : m.KeepsQuiet (m.note event) :=
  (agrees_note event).keepsQuiet

/-- A change `f` of slot `j` of the job table shows there, if there is such a slot, and nowhere
else. -/
theorem job_modifyJob_or (f : Job → Job) (k : Nat) :
    (m.modifyJob j f).job k = f (m.job k) ∨ (m.modifyJob j f).job k = m.job k := by
  by_cases hj : j < m.jobs.size
  · rw [job_modifyJob f hj]
    split
    · exact .inl rfl
    · exact .inr rfl
  · by_cases hk : k = j
    · rw [hk, job_of_size_le (by simpa using hj), job_of_size_le (not_lt.1 hj)]
      exact .inr rfl
    · exact .inr (job_modifyJob_of_ne f hk)

theorem keepsQuiet_modifyJob {f : Job → Job} (hf : ∀ job : Job, job.IsQuiet → (f job).IsQuiet) :
    m.KeepsQuiet (m.modifyJob j f) where
  control := control_modifyJob f
  cpu _ := rfl
  atRest hm := by
    refine ⟨fun k => ?_, hm.devices⟩
    rcases job_modifyJob_or (m := m) (j := j) f k with hjob | hjob
    · exact hjob ▸ hf _ (hm.jobs k)
    · exact hjob ▸ hm.jobs k

theorem keepsQuiet_setSource (source? : Option JobText.Reader) :
    m.KeepsQuiet (m.setSource j source?) :=
  ⟨rfl, fun _ => rfl, fun hm => ⟨hm.jobs, hm.devices⟩⟩

theorem keepsQuiet_setDevice {n : Nat} {d : Device} (hd : m.AtRest → d.isIdle = true) :
    m.KeepsQuiet { m with hardware := m.hardware.setDevice n d } where
  control := rfl
  cpu _ := rfl
  atRest hm := by
    refine ⟨hm.jobs, fun i e he => ?_⟩
    simp only [Hardware.setDevice, Array.getElem?_setIfInBounds] at he
    split at he
    · split at he
      · obtain rfl := Option.some.inj he
        exact hd hm
      · simp at he
    · exact hm.devices i e he

theorem keepsQuiet_bind {dev : Nat} {b : Binding} (h : m.bind dev b = .ok m') :
    m.KeepsQuiet m' := by
  unfold bind at h
  split at h
  · simp at h
  · rename_i closing? hw hbind
    obtain ⟨d, link, hd, rfl⟩ := Hardware.exists_link_of_bind hbind
    obtain rfl := Except.ok.inj h
    -- only what the device is bound to changes
    have hset : m.KeepsQuiet
        { m with hardware := m.hardware.setDevice d.number { d with link } } :=
      keepsQuiet_setDevice fun hm => (hm.device hd : d.isIdle = true)
    exact hset.trans (Agrees.keepsQuiet ⟨rfl, rfl, rfl⟩)

theorem keepsQuiet_release (dev : Nat) : m.KeepsQuiet (m.release dev) := by
  unfold release Hardware.release
  cases hd : m.hardware.device? dev with
  | none => exact .refl
  | some d =>
    have hset : m.KeepsQuiet { m with hardware := m.hardware.setDevice dev d.release.2 } :=
      keepsQuiet_setDevice fun hm => Device.isIdle_release.trans (hm.device hd)
    exact hset.trans (Agrees.keepsQuiet ⟨rfl, rfl, rfl⟩)

theorem keepsQuiet_attach (j : Nat) (path : String) : m.KeepsQuiet (m.attach j path).2 := by
  unfold attach
  split
  · exact .refl
  · rename_i s m₁ hcreate
    have h₁ : m.KeepsQuiet m₁ := by
      unfold createOutput at hcreate
      split at hcreate
      · obtain ⟨-, rfl⟩ := Prod.mk.inj (Except.ok.inj hcreate)
        exact ⟨rfl, fun _ => rfl, fun hm => ⟨hm.jobs, hm.devices⟩⟩
      · simp at hcreate
    split
    · exact h₁
    · rename_i m₂ hout
      have h₂ := h₁.trans (keepsQuiet_bind hout)
      split
      · exact h₂
      · rename_i m₃ hin
        exact h₂.trans (keepsQuiet_bind hin)

theorem keepsQuiet_enterSegment {name path : String} {image : Array Instruction}
    (hsize : image.size ≤ imageLimit) : m.KeepsQuiet (m.enterSegment j name image path) where
  control := control_enterSegment name image path
  cpu hidle := by
    have hrun : m.runs j = false := by simp [runs, hidle]
    rw [hardware_enterSegment, hrun]
    rfl
  atRest hm := by
    have hmodify : m.KeepsQuiet (m.modifyJob j fun job => job.enter name image) :=
      keepsQuiet_modifyJob fun job _ => ⟨rfl, by simp [Job.enter], hsize⟩
    obtain ⟨hjobs, hdevices⟩ := hmodify.atRest hm
    obtain ⟨event, heq⟩ := enterSegment_eq (m := m) (j := j) name image path
    rw [heq]
    split <;> exact ⟨hjobs, hdevices⟩

/-- `loadNext` does not reach a vacant processor, whether there is a segment or not. -/
theorem keepsQuiet_loadNext (j : Nat) : m.KeepsQuiet (m.loadNext j).2 := by
  unfold loadNext
  split
  · exact .refl
  · rename_i r hsource
    rcases hcode : r.nextImage with ⟨code, reader⟩
    have hset : m.KeepsQuiet (m.setSource j (some reader)) := keepsQuiet_setSource _
    simp only
    split
    · exact hset
    · exact hset
    · rename_i image
      have hattach := hset.trans (keepsQuiet_attach j
        ((m.setSource j (some reader)).outputFile j
          (((m.setSource j (some reader)).job j).segments + 1)))
      split
      · rename_i e m₁ hres
        rw [hres] at hattach
        exact hattach
      · rename_i m₁ hres
        rw [hres] at hattach
        exact hattach.trans (keepsQuiet_enterSegment (by
          simpa using JobText.Reader.length_nextImage_le hcode))

theorem keepsQuiet_openSource {r : JobText.Reader} (h : m.openSource j = .ok (r, m')) :
    m.KeepsQuiet m' := by
  unfold openSource at h
  simp only at h
  split at h
  · obtain ⟨-, rfl⟩ := Prod.mk.inj (Except.ok.inj h)
    exact .refl
  · simp at h
  · split at h
    · simp at h
    · obtain ⟨-, rfl⟩ := Prod.mk.inj (Except.ok.inj h)
      exact keepsQuiet_setSource _

theorem keepsQuiet_boot (j : Nat) : m.KeepsQuiet (m.boot j).2 := by
  unfold boot
  simp only
  split
  · exact .refl
  · rename_i r m₁ hopen
    have h₁ := keepsQuiet_openSource hopen
    have hload := h₁.trans (keepsQuiet_loadNext j)
    split
    · exact h₁
    split
    · exact h₁
    split
    · rename_i e m₂ hres
      rwa [hres] at hload
    · rename_i m₂ hres
      rwa [hres] at hload
    · rename_i m₂ hres
      rw [hres] at hload
      have hbooted : ∀ job : Job, job.IsQuiet → { job with boot := .booted }.IsQuiet :=
        fun job h => ⟨h.pending, h.life, h.fits⟩
      exact (hload.trans (keepsQuiet_modifyJob hbooted)).trans (keepsQuiet_note _)

theorem keepsQuiet_ensureBooted (j : Nat) : m.KeepsQuiet (m.ensureBooted j).2 := by
  unfold ensureBooted
  split
  · exact keepsQuiet_boot j
  · exact .refl

theorem keepsQuiet_dismiss (j : Nat) : m.KeepsQuiet (m.dismiss j) := by
  have hfinished : ∀ job : Job, job.IsQuiet →
      { job with life := .finished, pending? := none, target? := none }.IsQuiet :=
    fun job h => ⟨rfl, by simp, h.fits⟩
  have hslot := (keepsQuiet_modifyJob (m := m) (j := j) hfinished).trans
    (keepsQuiet_setSource (j := j) none)
  exact ((hslot.trans (keepsQuiet_release (inputNumber j))).trans
    (keepsQuiet_release (outputNumber j))).trans (keepsQuiet_note _)

theorem keepsQuiet_setOutcome (outcome : Outcome) : m.KeepsQuiet (m.setOutcome j outcome) :=
  keepsQuiet_modifyJob fun _ h => ⟨h.pending, h.life, h.fits⟩

theorem keepsQuiet_giveUp (j : Nat) (e : LoadError) : m.KeepsQuiet (m.giveUp j e) :=
  ((keepsQuiet_note _).trans (keepsQuiet_setOutcome .bootFailed)).trans (keepsQuiet_dismiss j)

/-- So it is with `endSegment`, whether the job has another segment or not. -/
theorem keepsQuiet_endSegment (j : Nat) : m.KeepsQuiet (m.endSegment j).2 := by
  have hload := keepsQuiet_loadNext (m := m) j
  unfold endSegment
  split
  · rename_i m₁ hres
    rwa [hres] at hload
  · rename_i m₁ hres
    rw [hres] at hload
    exact hload.trans (keepsQuiet_dismiss j)
  · rename_i e m₁ hres
    rw [hres] at hload
    exact (hload.trans (keepsQuiet_note _)).trans (keepsQuiet_dismiss j)

/-! ## Changes that load a job -/

/-- `m'` comes from `m` by a change that ends with a job in the processor. -/
structure Engages (m m' : Machine) : Prop where
  busy : m'.idle = false
  switches : m.switches ≤ m'.switches
  loads : m.idle = true → m.switches < m'.switches

theorem KeepsQuiet.engages (h : m.KeepsQuiet m₁) (h' : m₁.Engages m') : m.Engages m' where
  busy := h'.busy
  switches := h.switches ▸ h'.switches
  loads hidle := h.switches ▸ h'.loads (h.idle.trans hidle)

/-- When `activate` lets job `j` run, it is in the processor afterwards, or it cannot be booted. -/
theorem activate_engages_or {res : Except LoadError Unit} (h : m.activate j = (res, m')) :
    (res = .ok () ∧ m.Engages m') ∨ ((∃ e, res = .error e) ∧ m.KeepsQuiet m') := by
  unfold activate at h
  by_cases hrun : m.runs j = true
  · rw [if_pos hrun] at h
    obtain ⟨rfl, rfl⟩ := Prod.mk.inj h
    obtain ⟨hbusy, -⟩ := runs_eq_true_iff.1 hrun
    exact .inl ⟨rfl, hbusy, Nat.le_refl _, fun hidle => by simp [hidle] at hbusy⟩
  · rw [if_neg hrun] at h
    have hready := keepsQuiet_ensureBooted (m := m) j
    split at h
    · rename_i e m₁ hres
      rw [hres] at hready
      obtain ⟨rfl, rfl⟩ := Prod.mk.inj h
      exact .inr ⟨⟨e, rfl⟩, hready⟩
    · rename_i m₁ hres
      rw [hres] at hready
      -- saving the job that runs asks for nothing
      have hroom : m.KeepsQuiet (if m₁.idle then m₁ else m₁.suspend) := by
        split
        · exact hready
        · exact hready.trans (keepsQuiet_modifyJob fun _ h => ⟨h.pending, h.life, h.fits⟩)
      generalize (if m₁.idle then m₁ else m₁.suspend) = m₂ at h hroom
      unfold install at h
      split at h
      · obtain ⟨rfl, rfl⟩ := Prod.mk.inj h
        exact .inr ⟨⟨_, rfl⟩, hroom⟩
      · obtain ⟨rfl, rfl⟩ := Prod.mk.inj h
        have hswitches : ∀ cpu, ((m₂.modifyCpu fun _ => cpu).occupy j).switches =
            m.switches + 1 := fun cpu => congrArg (· + 1) hroom.switches
        exact .inl ⟨rfl, rfl, by rw [hswitches]; omega, fun _ => by rw [hswitches]; omega⟩

/-- If `search` tries job `j`, and goes on if it has to give it up, it does what its rest does. -/
theorem engages_or_of_activate {search : Machine → Bool × Machine} {found : Bool}
    (hsearch : ∀ {m₁ m' found}, search m₁ = (found, m') →
      (found = true ∧ m₁.Engages m') ∨ (found = false ∧ m₁.KeepsQuiet m'))
    (h : (match m.activate j with
      | (.ok (), m₁) => (true, m₁)
      | (.error e, m₁) => search (m₁.giveUp j e)) = (found, m')) :
    (found = true ∧ m.Engages m') ∨ (found = false ∧ m.KeepsQuiet m') := by
  rcases hact : m.activate j with ⟨res, m₁⟩
  rw [hact] at h
  rcases activate_engages_or hact with ⟨rfl, hengages⟩ | ⟨⟨e, rfl⟩, hquiet⟩
  · obtain ⟨rfl, rfl⟩ := Prod.mk.inj h
    exact .inl ⟨rfl, hengages⟩
  · have hfail := hquiet.trans (keepsQuiet_giveUp j e)
    rcases hsearch h with ⟨rfl, hengages⟩ | ⟨rfl, hrest⟩
    · exact .inl ⟨rfl, hfail.engages hengages⟩
    · exact .inr ⟨rfl, hfail.trans hrest⟩

/-- `rotateAmong` loads a job, or leaves the processor as it was. -/
theorem rotateAmong_engages_or {n : Nat} {found : Bool} (h : m.rotateAmong n = (found, m')) :
    (found = true ∧ m.Engages m') ∨ (found = false ∧ m.KeepsQuiet m') := by
  induction n generalizing m m' found with
  | zero =>
    obtain ⟨rfl, rfl⟩ := Prod.mk.inj h
    exact .inr ⟨rfl, .refl⟩
  | succ n ih =>
    unfold rotateAmong at h
    split at h
    · obtain ⟨rfl, rfl⟩ := Prod.mk.inj h
      exact .inr ⟨rfl, .refl⟩
    · exact engages_or_of_activate ih h

/-- So does `startAmong`. -/
theorem startAmong_engages_or {js : List Nat} {started : Bool}
    (h : startAmong js m = (started, m')) :
    (started = true ∧ m.Engages m') ∨ (started = false ∧ m.KeepsQuiet m') := by
  induction js generalizing m m' started with
  | nil =>
    obtain ⟨rfl, rfl⟩ := Prod.mk.inj h
    exact .inr ⟨rfl, .refl⟩
  | cons j js ih => exact engages_or_of_activate ih h

theorem start_engages_or (m : Machine) : m.Engages m.start.2 ∨ m.KeepsQuiet m.start.2 := by
  unfold start
  split
  · exact .inr .refl
  · rcases hstart : startAmong (List.range m.jobs.size) m with ⟨started, m₁⟩
    rcases startAmong_engages_or hstart with ⟨rfl, hengages⟩ | ⟨rfl, hquiet⟩
    · exact .inl hengages
    · exact .inr hquiet

/-! ## Changes that leave a vacant processor parked -/

/-- `m'` comes from `m` by a change after which a vacant processor is one that was left alone, or
one that has been given up. -/
structure Parks (m m' : Machine) : Prop where
  switches : m.switches ≤ m'.switches
  pc : m'.idle = true →
    (m.idle = true ∧ m'.hardware.cpu.regs.pc = m.hardware.cpu.regs.pc) ∨
      m'.hardware.cpu.regs.pc = Registers.idlePc

namespace Parks

theorem trans (h : m.Parks m₁) (h' : m₁.Parks m') : m.Parks m' where
  switches := h.switches.trans h'.switches
  pc hidle := by
    rcases h'.pc hidle with ⟨hidle₁, hsame'⟩ | hpc
    · rcases h.pc hidle₁ with ⟨hidle₀, hsame⟩ | hpc
      · exact .inl ⟨hidle₀, hsame'.trans hsame⟩
      · exact .inr (hsame'.trans hpc)
    · exact .inr hpc

/-- A change that neither loads nor unloads a job and leaves a vacant processor alone. -/
theorem of_same (hswitches : m'.switches = m.switches) (hidle : m'.idle = m.idle)
    (hpc : m.idle = true → m'.hardware.cpu.regs.pc = m.hardware.cpu.regs.pc) : m.Parks m' where
  switches := hswitches.ge
  pc hidle' := .inl ⟨hidle.symm.trans hidle', hpc (hidle.symm.trans hidle')⟩

end Parks

theorem KeepsQuiet.parks (h : m.KeepsQuiet m') : m.Parks m' :=
  .of_same h.switches h.idle fun hidle => by rw [h.cpu hidle]

theorem Engages.parks (h : m.Engages m') : m.Parks m' :=
  ⟨h.switches, fun hidle => by simp [h.busy] at hidle⟩

theorem Agrees.parks (h : m.Agrees m') : m.Parks m' :=
  h.keepsQuiet.parks

theorem parks_note (event : Event) : m.Parks (m.note event) :=
  (agrees_note event).parks

theorem parks_setTrap (line : TrapLine) : m.Parks (m.setTrap line) :=
  .of_same rfl rfl fun _ => rfl

theorem parks_modifyJob (f : Job → Job) : m.Parks (m.modifyJob j f) :=
  .of_same rfl rfl fun _ => rfl

theorem parks_rotate (m : Machine) : m.Parks m.rotate.2 := by
  rcases hrotate : m.rotate with ⟨found, m'⟩
  rcases rotateAmong_engages_or hrotate with ⟨_, hengages⟩ | ⟨_, hquiet⟩
  · exact hengages.parks
  · exact hquiet.parks

theorem parks_unload (m : Machine) : m.Parks m.unload := by
  have hswitches : m.unload.switches = m.switches := by
    unfold unload
    split <;> rfl
  refine ⟨hswitches.ge, fun _ => .inr ?_⟩
  simp [unload, note, noteOf, modifyCpu]

theorem parks_passOn (m : Machine) (status : Word) : m.Parks (m.passOn status).2 := by
  have hrotate := m.parks_rotate
  unfold passOn
  split
  · rename_i m₁ hres
    rwa [hres] at hrotate
  · rename_i m₁ hres
    rw [hres] at hrotate
    split
    · exact hrotate.trans m₁.parks_unload
    · exact hrotate.trans (parks_note _)

theorem parks_retire (m : Machine) (j : Nat) (status : Word) : m.Parks (m.retire j status).2 := by
  have hend := (keepsQuiet_endSegment (m := m) j).parks
  unfold retire
  split
  · rename_i m₁ hres
    rwa [hres] at hend
  · rename_i m₁ hres
    rw [hres] at hend
    exact hend.trans (m₁.parks_passOn status)

theorem parks_resume (m : Machine) (j : Nat) (status : Word) : m.Parks (m.resume j status).2 := by
  unfold resume
  rcases hact : m.activate j with ⟨res, m₁⟩
  rcases activate_engages_or hact with ⟨rfl, hengages⟩ | ⟨⟨e, rfl⟩, hquiet⟩
  · exact hengages.parks
  · exact (hquiet.trans (keepsQuiet_giveUp j e)).parks.trans (parks_passOn _ status)

/-! ### Offering a held request -/

/-- `m'` comes from `m` by a change that the scheduler does not remember, and that changes nothing
of a job but the request that is held for it. -/
structure LeavesJobs (m m' : Machine) : Prop where
  control : m'.control = m.control
  job : ∀ k, ∃ pending?, m'.job k = { m.job k with pending? }

namespace LeavesJobs

theorem of_jobs (hcontrol : m'.control = m.control) (hjobs : m'.jobs = m.jobs) :
    m.LeavesJobs m' :=
  ⟨hcontrol, fun k => ⟨(m.job k).pending?, by rw [Machine.job, hjobs, Machine.job]⟩⟩

theorem trans (h : m.LeavesJobs m₁) (h' : m₁.LeavesJobs m') : m.LeavesJobs m' where
  control := h'.control.trans h.control
  job k := by
    obtain ⟨_, hjob⟩ := h.job k
    obtain ⟨pending?, hjob'⟩ := h'.job k
    exact ⟨pending?, by rw [hjob', hjob]⟩

theorem parks (h : m.LeavesJobs m') (hregs : m'.hardware.cpu.regs = m.hardware.cpu.regs) :
    m.Parks m' :=
  .of_same (congrArg Control.switches h.control) (congrArg Control.idle h.control) fun _ => by
    rw [hregs]

end LeavesJobs

theorem leavesJobs_offer (m : Machine) (j : Nat) : m.LeavesJobs (m.offer j) := by
  have hsame : m.LeavesJobs m := .of_jobs rfl rfl
  unfold offer
  split
  · exact hsame
  · split
    · exact hsame
    · split
      · rename_i request _ _ d _ _
        -- the request is with the device now, and no longer with the job
        have htaken : m.LeavesJobs (m.modifyJob j fun job => { job with pending? := none }) := by
          refine ⟨control_modifyJob _, fun k => ?_⟩
          rcases job_modifyJob_or (m := m) (j := j)
            (fun job => { job with pending? := none }) k with hjob | hjob
          · exact ⟨none, hjob⟩
          · exact ⟨(m.job k).pending?, hjob⟩
        exact ⟨htaken.control, htaken.job⟩
      · exact .of_jobs rfl rfl

/-! ### Serving -/

theorem parks_serveSegmentEnd (m : Machine) : m.Parks m.serveSegmentEnd.2 :=
  ((parks_note _).trans (keepsQuiet_setOutcome .completed).parks).trans (parks_retire _ _ 0)

theorem parks_serveHalt (m : Machine) (line : TrapLine) : m.Parks (m.serveHalt line).2 :=
  (((parks_setTrap .clear).trans (parks_note _)).trans (keepsQuiet_setOutcome _).parks).trans
    (parks_retire _ _ _)

theorem parks_serveFatal (m : Machine) (line : TrapLine) : m.Parks (m.serveFatal line).2 := by
  have hculprit : m.Parks { m with culprit? := none } := .of_same rfl rfl fun _ => rfl
  have houtcome := ((hculprit.trans (parks_setTrap .clear)).trans
    (parks_note (.failed (m.culprit?.getD m.current) line.data))).trans
      (keepsQuiet_setOutcome (j := m.culprit?.getD m.current) (.fatal line.data)).parks
  have hend := houtcome.trans (keepsQuiet_endSegment (m.culprit?.getD m.current)).parks
  unfold serveFatal
  simp only
  split
  · rename_i m₁ hres
    rw [hres] at hend
    split
    · exact hend.trans (m₁.parks_resume _ _)
    · exact hend
  · rename_i m₁ hres
    rw [hres] at hend
    split
    · exact hend.trans (m₁.parks_passOn _)
    · exact hend

theorem parks_offer (m : Machine) (j : Nat) : m.Parks (m.offer j) :=
  (leavesJobs_offer m j).parks (by rw [cpu_offer])

theorem parks_await (m : Machine) (j : Nat) (request : DeviceRequest) :
    m.Parks (m.await j request) := by
  have hasks := ((parks_note (m := m) (.waits j request)).trans
    (parks_modifyJob (j := j) fun job =>
      { job with life := .waiting, pending? := some request })).trans (parks_offer _ j)
  have hrotate := hasks.trans (parks_rotate _)
  unfold await
  simp only
  split
  · rename_i m₁ hres
    rwa [hres] at hrotate
  · rename_i m₁ hres
    rw [hres] at hrotate
    exact hrotate.trans m₁.parks_unload

theorem parks_serveRequest (m : Machine) (line : TrapLine) (input : Bool) :
    m.Parks (m.serveRequest line input) := by
  unfold serveRequest
  simp only
  split
  · exact ((parks_setTrap .clear).trans (parks_note _)).trans (parks_setTrap _)
  · split
    · exact ((parks_setTrap .clear).trans (parks_modifyJob _)).trans (parks_await _ _ _)
    · exact (parks_setTrap .clear).trans (parks_await _ _ _)

/-- The word `value?` that is delivered goes to the processor only if job `j` runs. -/
theorem parks_collect (m : Machine) (j : Nat) (value? : Option Word) :
    m.Parks (m.collect j value?) := by
  have htarget : m.Parks (m.modifyJob j fun job => { job with target? := none }) :=
    parks_modifyJob _
  unfold collect
  simp only
  split
  · rename_i value register _
    refine htarget.trans (Parks.trans ?_ (parks_note _))
    split
    · rename_i hrun
      refine .of_same rfl rfl fun hidle => ?_
      simp [(runs_eq_true_iff.1 hrun).1] at hidle
    · exact parks_modifyJob _
  · exact htarget

theorem parks_serveCompletion (m : Machine) (line : TrapLine) :
    m.Parks (m.serveCompletion line).2 := by
  unfold serveCompletion
  split
  · exact (parks_note _).trans (parks_setTrap .clear)
  · rename_i j dev d hby
    have hdevice : m.Parks { m with
        hardware := m.hardware.setDevice dev { d with trap := .clear } } :=
      .of_same rfl rfl fun _ => rfl
    unfold complete
    simp only
    split
    · exact ((hdevice.trans (parks_note _)).trans (parks_setTrap (.raise .fatal line.data))).trans
        (.of_same rfl rfl fun _ => rfl)
    · have hwake := ((hdevice.trans (parks_collect _ j d.value?)).trans
        (parks_setTrap .clear)).trans (parks_modifyJob (j := j) fun job =>
          { job with life := if job.life = .waiting then .runnable else job.life })
      split
      · exact hwake.trans (parks_resume _ j 0)
      · exact hwake

theorem parks_serveTrap (m : Machine) : m.Parks m.serveTrap.2 := by
  have hnote : m.Parks (m.note (.interrupt m.hardware.cpu.trap)) := parks_note _
  unfold serveTrap
  simp only
  split
  · exact hnote.trans (parks_serveHalt _ _)
  · exact hnote.trans (parks_serveFatal _ _)
  · exact hnote.trans (parks_serveRequest _ _ _)
  · exact hnote.trans (parks_serveRequest _ _ _)
  · exact hnote.trans (parks_serveCompletion _ _)
  · exact hnote.trans (parks_serveCompletion _ _)
  · exact (hnote.trans (parks_note _)).trans (parks_setTrap _)

/-! ## The parts of a tick -/

theorem leavesJobs_offerFirst (m : Machine) (n : Nat) : m.LeavesJobs (m.offerFirst n) := by
  -- job by job, in the order of the offers
  induction n with
  | zero => exact .of_jobs rfl rfl
  | succ n ih =>
    rw [show m.offerFirst (n + 1) = (m.offerFirst n).offer n from Nat.fold_succ ..]
    exact ih.trans (leavesJobs_offer _ n)

/-- Up to `m.ready` nothing happens but that held requests are offered. -/
theorem leavesJobs_ready (m : Machine) :
    m.LeavesJobs m.ready ∧ m.ready.hardware.cpu = m.hardware.cpu := by
  have hopen : m.LeavesJobs m.openTick := .of_jobs rfl rfl
  exact ⟨hopen.trans (leavesJobs_offerFirst m.openTick _), (m.openTick.offerFirst_eq _).1⟩

theorem leavesJobs_tickDevice (m : Machine) (dev : Nat) :
    m.LeavesJobs (m.tickDevice dev) ∧
      ∃ line, (m.tickDevice dev).hardware.cpu = { m.hardware.cpu with trap := line } := by
  unfold tickDevice
  cases m.hardware.device? dev with
  | none => exact ⟨.of_jobs rfl rfl, _, rfl⟩
  | some d => exact ⟨.of_jobs rfl rfl, _, Hardware.cpu_update ..⟩

/-- In `tickFirst`, after the turn of the processor, nothing happens but that devices work and
signal. -/
theorem leavesJobs_tickFirst (m : Machine) (n : Nat) :
    m.LeavesJobs (m.tickFirst n) ∧
      ∃ line, (m.tickFirst n).hardware.cpu = { m.hardware.cpu with trap := line } := by
  induction n with
  | zero => exact ⟨.of_jobs rfl rfl, _, rfl⟩
  | succ n ih =>
    obtain ⟨hleaves, line, hcpu⟩ := ih
    obtain ⟨hleaves', line', hcpu'⟩ := leavesJobs_tickDevice (m.tickFirst n) (n + 1)
    rw [tickFirst_succ]
    exact ⟨hleaves.trans hleaves', line', by rw [hcpu', hcpu]⟩

/-- The machine after a tick with which it goes on is `m.served`, the machine after the turn of the
processor, but for what devices have done. -/
theorem leavesJobs_of_tick (htick : m.tick = (.running, m')) :
    m.served.LeavesJobs m' ∧
      ∃ line, m'.hardware.cpu = { m.served.hardware.cpu with trap := line } := by
  obtain ⟨hleaves, hcpu⟩ := leavesJobs_tickFirst m.served m.served.hardware.devices.size
  rw [eq_of_tick_running htick]
  exact ⟨hleaves.trans (.of_jobs rfl rfl), hcpu⟩

/-! ## A processor that has been given up -/

/-- A job has been loaded into the processor of `m` before, and if none is loaded now, the processor
has been given up. -/
structure Parked (m : Machine) : Prop where
  loaded : 0 < m.switches
  pc : m.idle = true → m.hardware.cpu.regs.pc = Registers.idlePc

theorem Parked.of_parks (h : m.Parked) (hparks : m.Parks m') : m'.Parked where
  loaded := Nat.lt_of_lt_of_le h.loaded hparks.switches
  pc hidle := by
    rcases hparks.pc hidle with ⟨hidle₀, hsame⟩ | hpc
    · exact hsame.trans (h.pc hidle₀)
    · exact hpc

/-- The turn of `m`, whose processor idles only when it has been given up. -/
theorem Parked.stepProcessor (h : m.Parked) : m.Parks m.stepProcessor.2 := by
  unfold Machine.stepProcessor
  rcases tickProcessor_cases h.pc with
    ⟨_, m', htick, hagrees⟩ | ⟨_, ⟨_, m', htick, hagrees⟩ | ⟨_, _, m', htick, hagrees⟩ |
      ⟨hbusy, _, m', htick, hagrees⟩⟩
  · simp only [htick, Activity.demand]
    exact hagrees.parks.trans m'.parks_serveTrap
  · simp only [htick, Activity.demand]
    have hidle : m.Parks (m.modifyCpu Processor.idle) := .of_same rfl rfl fun _ => rfl
    exact hidle.trans hagrees.parks
  · simp only [htick, Activity.demand]
    exact hagrees.parks.trans m'.parks_serveSegmentEnd
  · simp only [htick, Activity.demand]
    -- an instruction is executed by a job, so that the processor is not vacant
    have hstep : m.Parks (m.modifyCpu fun cpu => cpu.step.2) :=
      .of_same rfl rfl fun hidle => by simp [hbusy] at hidle
    exact hstep.trans hagrees.parks

theorem Parked.tick (h : m.Parked) (htick : m.tick = (.running, m')) : m'.Parked := by
  obtain ⟨hready, hcpu⟩ := leavesJobs_ready m
  obtain ⟨hdevices, line, hcpu'⟩ := leavesJobs_of_tick htick
  have hready' := h.of_parks (hready.parks (by rw [hcpu]))
  have hserved : m.served.Parked := hready'.of_parks hready'.stepProcessor
  exact hserved.of_parks (hdevices.parks (by rw [hcpu']))

/-- The turn of a processor that has been given up, if no trap is pending on `m.line`: it idles. -/
theorem Parked.idles (h : m.Parked) (hidle : m.idle = true) (hline : m.line.isIdle = true) :
    m.activity = .idled ∧ ∃ m', m.tick = (.running, m') ∧ m.LeavesJobs m' ∧
      ∃ line, m'.hardware.cpu =
        { m.hardware.cpu with idleTicks := m.hardware.cpu.idleTicks + 1, trap := line } := by
  obtain ⟨hready, hcpu⟩ := leavesJobs_ready m
  have hready' := h.of_parks (hready.parks (by rw [hcpu]))
  have hidle' : m.ready.idle = true := (congrArg Control.idle hready.control).trans hidle
  have hline' : m.ready.line.isIdle = true := by
    rw [Machine.line, hcpu]
    exact hline
  -- nothing is pending and no job is loaded, so the processor idles
  rcases tickProcessor_cases hready'.pc with
    ⟨hbusy, _⟩ | ⟨_, ⟨_, m₁, hturn, hagrees⟩ | ⟨hbusy, _⟩ | ⟨hbusy, _⟩⟩
  · simp [hline'] at hbusy
  · have hactivity : m.activity = .idled := congrArg Prod.fst hturn
    have hstep : m.ready.stepProcessor = (.running, m₁) := by
      unfold Machine.stepProcessor
      rw [hturn]
      rfl
    obtain ⟨hdevices, line, hcpu'⟩ := leavesJobs_tickFirst m₁ m₁.hardware.devices.size
    refine ⟨hactivity, _, by rw [tick_eq, served, hstep], ?_, line, ?_⟩
    · have hturned : m.ready.LeavesJobs m₁ := .of_jobs hagrees.control hagrees.jobs
      have hclose : (m₁.tickFirst m₁.hardware.devices.size).LeavesJobs
          (m₁.tickFirst m₁.hardware.devices.size).closeTick := .of_jobs rfl rfl
      exact ((hready.trans hturned).trans hdevices).trans hclose
    · show (m₁.tickFirst m₁.hardware.devices.size).hardware.cpu = _
      rw [hcpu', hagrees.hardware]
      show { m.ready.hardware.cpu.idle with trap := line } = _
      rw [hcpu]
      rfl
  · simp [hidle'] at hbusy
  · simp [hidle'] at hbusy

/-! ## A processor that has not run yet -/

/-- No job has been loaded yet, and the processor of `m` is as it was at power-on. -/
structure Pristine (m : Machine) : Prop where
  switches : m.switches = 0
  idle : m.idle = true
  current : m.current = 0
  cpu : m.hardware.cpu = .new
  atRest : m.AtRest

theorem Pristine.of_keepsQuiet (h : m.Pristine) (hquiet : m.KeepsQuiet m') : m'.Pristine where
  switches := hquiet.switches.trans h.switches
  idle := hquiet.idle.trans h.idle
  current := hquiet.current.trans h.current
  cpu := (hquiet.cpu h.idle).trans h.cpu
  atRest := hquiet.atRest h.atRest

theorem Engages.parked (h : m.Engages m') (hidle : m.idle = true) : m'.Parked where
  loaded := Nat.zero_lt_of_lt (h.loads hidle)
  pc hidle' := by simp [h.busy] at hidle'

theorem pristine_new {jobs : List (Job × Option JobText.Reader)} (config : Config) (files : Files)
    (journal : Journal)
    (hjobs : ∀ entry ∈ jobs, ∃ index origin path?, entry.1 = Job.new index origin path?) :
    (new jobs config files journal).Pristine where
  switches := rfl
  idle := rfl
  current := rfl
  cpu := rfl
  atRest := by
    refine ⟨fun k => ?_, fun i d hd => ?_⟩
    · by_cases hk : k < jobs.length
      · obtain ⟨index, origin, path?, hnew⟩ := hjobs jobs[k] (List.getElem_mem hk)
        have hjob : (new jobs config files journal).job k = jobs[k].1 := by simp [new, job, hk]
        rw [hjob, hnew]
        exact Job.isQuiet_new ..
      · rw [job_of_size_le (by simpa [new] using hk)]
        exact Job.isQuiet_new ..
    · -- every device is a new one of a job
      have hmem := List.mem_of_getElem? (show ((List.range jobs.length).flatMap fun j =>
        [Device.newInput j config.deviceDelay, Device.newOutput j config.deviceDelay])[i]? =
          some d by simpa [new, Hardware.new] using hd)
      simp only [List.mem_flatMap, List.mem_cons, List.not_mem_nil, or_false] at hmem
      obtain ⟨j, _, rfl | rfl⟩ := hmem <;> rfl

theorem AtRest.offer (h : m.AtRest) (j : Nat) : m.offer j = m := by
  unfold Machine.offer
  rw [(h.jobs j).pending]

/-- If `m` holds no request, none is offered. -/
theorem AtRest.ready (h : m.AtRest) : m.ready = m.openTick := by
  have hopen : m.openTick.AtRest := agrees_openTick.keepsQuiet.atRest h
  have hfirst : ∀ n, m.openTick.offerFirst n = m.openTick := by
    intro n
    induction n with
    | zero => rfl
    | succ n ih =>
      rw [show m.openTick.offerFirst (n + 1) = (m.openTick.offerFirst n).offer n from
        Nat.fold_succ .., ih, hopen.offer]
  exact hfirst _

theorem keepsQuiet_tickDevice (h : m.AtRest) (dev : Nat) : m.KeepsQuiet (m.tickDevice dev) := by
  unfold tickDevice
  cases hd : m.hardware.device? dev with
  | none => exact .refl
  | some d =>
    have hidle := h.device hd
    simp only [Device.tick_of_isIdle hidle]
    have hset : m.KeepsQuiet { m with hardware := m.hardware.setDevice dev d } :=
      keepsQuiet_setDevice fun _ => hidle
    refine ⟨rfl, fun _ => ?_, fun hm => ⟨hm.jobs, fun i e he => ?_⟩⟩
    · show (m.hardware.update dev _).cpu = _
      rw [Hardware.cpu_update]
    · refine (hset.atRest hm).devices i e (he ▸ ?_)
      show _ = (m.hardware.update dev _).devices[i]?
      unfold Hardware.update
      cases d.job? <;> rfl

theorem keepsQuiet_tickFirst (h : m.AtRest) (n : Nat) : m.KeepsQuiet (m.tickFirst n) := by
  induction n with
  | zero => exact .refl
  | succ n ih =>
    rw [tickFirst_succ]
    exact ih.trans (keepsQuiet_tickDevice (ih.atRest h) (n + 1))

theorem AtRest.hasWaiter (h : m.AtRest) : m.hasWaiter = false := by
  unfold Machine.hasWaiter
  rw [Array.any_eq_false]
  intro k hk
  have hquiet := (h.jobs k).life
  rw [job, Array.getD_eq_getD_getElem?, Array.getElem?_eq_getElem hk] at hquiet
  simpa using hquiet

/-- When a segment ends and nothing waits, `serveSegmentEnd` leaves a job in the processor, or it
leaves it alone. -/
theorem serveSegmentEnd_engages_or (h : m.AtRest) :
    m.Engages m.serveSegmentEnd.2 ∨ m.KeepsQuiet m.serveSegmentEnd.2 := by
  have hend := ((keepsQuiet_note (m := m) (.reachedEnd m.current)).trans
    (keepsQuiet_setOutcome (j := m.current) .completed)).trans (keepsQuiet_endSegment m.current)
  unfold serveSegmentEnd retire
  simp only
  split
  · rename_i m₁ hres
    rw [hres] at hend
    exact .inr hend
  · rename_i m₁ hres
    rw [hres] at hend
    unfold passOn
    rcases hrotate : m₁.rotate with ⟨found, m₂⟩
    rcases rotateAmong_engages_or hrotate with ⟨rfl, hengages⟩ | ⟨rfl, hquiet⟩
    · exact .inl (hend.engages hengages)
    · have hrest := hend.trans hquiet
      simp only [(hrest.atRest h).hasWaiter]
      exact .inr (hrest.trans (keepsQuiet_note _))

/-- The processor takes the power-on state for the end of an image. -/
theorem Pristine.turn (h : m.Pristine) :
    m.line.isIdle = true ∧ m.activity = .ended ∧
      ∃ m₀, m.Agrees m₀ ∧ m.ready.stepProcessor = m₀.serveSegmentEnd := by
  have hended : m.hardware.cpu.tick (!m.idle) = (.ended, m.hardware.cpu) := by
    rw [h.cpu, h.idle]
    rfl
  have hopen : m.openTick.hardware.cpu.tick (!m.openTick.idle) = (.ended, m.hardware.cpu) := hended
  obtain ⟨m₀, hturn, hagrees⟩ := tickProcessor_eq hopen
  refine ⟨by rw [line, h.cpu]; rfl, by rw [activity_eq, hended], m₀,
    ⟨hagrees.hardware, hagrees.jobs, hagrees.control⟩, ?_⟩
  rw [h.atRest.ready, Machine.stepProcessor, hturn]
  rfl

theorem Pristine.tick (h : m.Pristine) (htick : m.tick = (.running, m')) :
    m'.Pristine ∨ m'.Parked := by
  obtain ⟨_, _, m₀, hagrees, hturn⟩ := h.turn
  have h₀ := h.of_keepsQuiet hagrees.keepsQuiet
  have hserved : m.served = m₀.serveSegmentEnd.2 := congrArg Prod.snd hturn
  obtain ⟨hdevices, line, hcpu⟩ := leavesJobs_of_tick htick
  rcases serveSegmentEnd_engages_or h₀.atRest with hengages | hquiet
  · rw [← hserved] at hengages
    exact .inr ((hengages.parked h₀.idle).of_parks (hdevices.parks (by rw [hcpu])))
  · rw [← hserved] at hquiet
    have hserved' := h₀.of_keepsQuiet hquiet
    rw [eq_of_tick_running htick]
    exact .inl ((hserved'.of_keepsQuiet (keepsQuiet_tickFirst hserved'.atRest _)).of_keepsQuiet
      agrees_closeTick.keepsQuiet)

/-- When a segment of job `j` has ended, the job keeps its outcome, and is over if it has no further
segment. -/
theorem endSegment_own (hj : j < m.jobs.size) :
    ((m.endSegment j).2.job j).outcome? = (m.job j).outcome? ∧
      ((m.endSegment j).1 = false → ((m.endSegment j).2.job j).life = .finished) := by
  have hsize : ∀ {m₁ : Machine}, m.Prepares j m₁ → j < m₁.jobs.size :=
    fun hprepares => hprepares.size.symm ▸ hj
  unfold endSegment
  rcases hload : m.loadNext j with ⟨res, m₁⟩
  rcases loadNext_inv hload with ⟨hres, hprepares⟩ | ⟨rfl, m₂, name, image, path, hprepares, _, rfl⟩
  · match res with
    | .ok true => exact absurd rfl hres
    | .ok false =>
      simp only
      rw [job_dismiss (hsize hprepares), hprepares.own]
      exact ⟨rfl, fun _ => rfl⟩
    | .error e =>
      simp only
      have hnoted := hprepares.trans
        ⟨Confines.refl.agrees (agrees_note (.segmentFailed j e.message)), rfl⟩
      rw [job_dismiss (hsize hnoted), hnoted.own]
      exact ⟨rfl, fun _ => rfl⟩
  · simp only
    rw [job_enterSegment name image path (hsize hprepares), if_pos rfl, hprepares.own]
    exact ⟨rfl, by simp⟩

/-- `rotate` leaves the outcome of job `j`, which is over. -/
theorem outcome_rotate (hloadable : m.Loadable) (hlife : (m.job j).life = .finished) :
    (m.rotate.2.job j).outcome? = (m.job j).outcome? := by
  obtain ⟨tried, hsearch⟩ := searches_rotate hloadable
  have hends := hsearch.ends hloadable
  refine (hends.others j fun e hmem => ?_).2
  -- a job that is tried can run
  have htried := (mem_candidates.1 (hends.order.subset (List.mem_map_of_mem hmem))).2
  simp [hlife] at htried

/-- The end of a segment becomes the outcome of the job, whatever comes next. -/
theorem outcome_serveSegmentEnd (h : m.AtRest) (hj : m.current < m.jobs.size) :
    (m.serveSegmentEnd.2.job m.current).outcome? = some .completed := by
  have hquiet := (keepsQuiet_note (m := m) (.reachedEnd m.current)).trans
    (keepsQuiet_setOutcome (j := m.current) .completed)
  have hset : (((m.note (.reachedEnd m.current)).setOutcome m.current .completed).job
      m.current).outcome? = some .completed := by
    rw [setOutcome, job_modifyJob _ (show m.current < (m.note _).jobs.size from hj), if_pos rfl]
  unfold serveSegmentEnd retire
  simp only
  generalize (m.note (.reachedEnd m.current)).setOutcome m.current .completed = m₀ at hquiet hset ⊢
  have hj₀ : m.current < m₀.jobs.size := by
    rw [show m₀.jobs.size = m.jobs.size from congrArg Control.size hquiet.control]
    exact hj
  -- what follows the end of the segment does not touch the outcome
  obtain ⟨houtcome, hover⟩ := endSegment_own hj₀
  have hrest := (hquiet.trans (keepsQuiet_endSegment m.current)).atRest h
  rcases hres : m₀.endSegment m.current with ⟨more, m₁⟩
  rw [hres] at houtcome hover hrest
  match more with
  | true => exact houtcome.trans hset
  | false =>
    have hkept := (outcome_rotate hrest.loadable (hover rfl)).trans (houtcome.trans hset)
    simp only [passOn]
    rcases hrotate : m₁.rotate with ⟨found, m₂⟩
    rw [hrotate] at hkept
    rcases rotateAmong_engages_or hrotate with ⟨rfl, _⟩ | ⟨rfl, hquiet₂⟩
    · exact hkept
    · simp only [(hquiet₂.atRest hrest).hasWaiter]
      exact hkept

/-- So the first job is said to have completed a segment, whatever has happened to it before. -/
theorem Pristine.outcome (h : m.Pristine) (hjobs : 0 < m.jobs.size) :
    (m.tick.2.job 0).outcome? = some .completed := by
  obtain ⟨_, _, m₀, hagrees, hturn⟩ := h.turn
  have h₀ := h.of_keepsQuiet hagrees.keepsQuiet
  have houtcome := outcome_serveSegmentEnd h₀.atRest (by rw [h₀.current, hagrees.size]; exact hjobs)
  rw [h₀.current, ← hturn] at houtcome
  rcases htick : m.tick with ⟨p, m'⟩
  cases p with
  | running =>
    obtain ⟨_, hjob⟩ := (leavesJobs_of_tick htick).1.job 0
    rw [hjob]
    exact houtcome
  | exited status =>
    rw [eq_of_tick_exited htick]
    exact houtcome

/-! ## Starts and ticks -/

/-- What `first` comes to by starts and ticks, in any order and up to its exit. -/
inductive Reaches (first : Machine) : Machine → Prop
  /-- Nothing has been done. -/
  | refl : Reaches first first
  /-- The machine has been started, successfully or not. -/
  | start {m : Machine} : Reaches first m → Reaches first m.start.2
  /-- The machine has made a tick and goes on. -/
  | tick {m m' : Machine} : Reaches first m → m.tick = (.running, m') → Reaches first m'

/-- A run goes on from what has been reached. -/
theorem Reaches.run {first : Machine} {past : List Machine} (h : first.Reaches m)
    (hrun : Run m .running past m') : first.Reaches m' := by
  generalize hp : Progress.running = p at hrun
  induction hrun with
  | start => exact h
  | tick _ htick ih =>
    subst hp
    exact (ih rfl).tick htick

/-- How the machine stands between ticks. -/
def Poised (m : Machine) : Prop :=
  m.Pristine ∨ m.Parked

theorem Poised.start (h : m.Poised) : m.start.2.Poised := by
  rcases h with h | h
  · rcases start_engages_or m with hengages | hquiet
    · exact .inr (hengages.parked h.idle)
    · exact .inl (h.of_keepsQuiet hquiet)
  · rcases start_engages_or m with hengages | hquiet
    · exact .inr (h.of_parks hengages.parks)
    · exact .inr (h.of_parks hquiet.parks)

theorem Poised.tick (h : m.Poised) (htick : m.tick = (.running, m')) : m'.Poised := by
  rcases h with h | h
  · exact h.tick htick
  · exact .inr (h.tick htick)

theorem Reaches.poised {first : Machine} (hreach : first.Reaches m) (h : first.Pristine) :
    m.Poised := by
  induction hreach with
  | refl => exact .inl h
  | start _ ih => exact ih.start
  | tick _ htick ih => exact ih.tick htick

/-- A tick of `m` while no job is loaded. Once a job has been loaded, the processor serves a trap
that is pending or counts an idle tick, which changes nothing of a job but that its held request may
be taken, and nothing that the scheduler remembers. Until then it is at the end of its empty image,
and the tick makes this the outcome of the first job, if there is one. -/
theorem idle_tick_spec {jobs : List (Job × Option JobText.Reader)} {config : Config}
    {files : Files} {journal : Journal}
    (hjobs : ∀ entry ∈ jobs, ∃ index origin path?, entry.1 = Job.new index origin path?)
    (hreach : (new jobs config files journal).Reaches m) (hidle : m.idle = true) :
    (0 < m.switches →
      (m.line.isIdle = false → m.activity = .interrupted) ∧
      (m.line.isIdle = true → m.activity = .idled ∧ ∃ m', m.tick = (.running, m') ∧
        m'.control = m.control ∧
        (∃ line, m'.hardware.cpu =
          { m.hardware.cpu with idleTicks := m.hardware.cpu.idleTicks + 1, trap := line }) ∧
        ∀ k, ∃ pending?, m'.job k = { m.job k with pending? })) ∧
    (m.switches = 0 →
      m.line.isIdle = true ∧ m.activity = .ended ∧
        (0 < m.jobs.size → (m.tick.2.job 0).outcome? = some .completed)) := by
  rcases hreach.poised (pristine_new config files journal hjobs) with h | h
  · -- no job has been loaded yet, and the image is empty
    obtain ⟨hline, hended, _⟩ := h.turn
    refine ⟨fun hloaded => ?_, fun _ => ⟨hline, hended, h.outcome⟩⟩
    rw [h.switches] at hloaded
    exact absurd hloaded (Nat.lt_irrefl 0)
  · refine ⟨fun _ => ⟨fun hline => ?_, fun hline => ?_⟩, fun hnone => ?_⟩
    · have htrap : m.hardware.cpu.trap.isIdle = false := hline
      rw [activity_eq, Processor.tick, htrap]
      rfl
    · obtain ⟨hidled, m', htick, hleaves, hcpu⟩ := h.idles hidle hline
      exact ⟨hidled, m', htick, hleaves.control, hcpu, hleaves.job⟩
    · exact absurd h.loaded (by simp [hnone])

/-- Both jobs of the example wait for their words, and the processor counts an idle tick. -/
theorem idle_tick_spec_echo :
    (tickUpTo 6 echoFirst).2.idle = true ∧ 0 < (tickUpTo 6 echoFirst).2.switches ∧
      (tickUpTo 6 echoFirst).2.activity = .idled := by
  have hstate : (tickUpTo 6 echoFirst).1 = none ∧ (tickUpTo 6 echoFirst).2.idle = true ∧
      0 < (tickUpTo 6 echoFirst).2.switches ∧
      (tickUpTo 6 echoFirst).2.line.isIdle = true := by decide +kernel
  obtain ⟨hnone, hidle, hloaded, hline⟩ := hstate
  obtain ⟨past, hrun, _⟩ := run_of_tickUpTo hnone
  have hreach : (new echoJobs .standard .empty (.new none)).Reaches (tickUpTo 6 echoFirst).2 :=
    (Reaches.refl.start : Reaches _ echoFirst).run hrun
  obtain ⟨hafter, _⟩ := idle_tick_spec launches_echo.1 hreach hidle
  exact ⟨hidle, hloaded, ((hafter hloaded).2 hline).1⟩

/-- A job whose text is empty. -/
def emptyJobs : List (Job × Option JobText.Reader) :=
  [(.new 0 "empty" none, some (.ofText "empty" ""))]

/-- The start gives up the only job, which cannot be booted. A tick after it, while no job is
loaded, comes to the end of an image, and then the job is said to have completed. -/
theorem tick_after_failed_start :
    ∃ m, (new emptyJobs .standard .empty (.new none)).Reaches m ∧ m.idle = true ∧
      (m.job 0).outcome? = some .bootFailed ∧ m.activity.demand = .segmentEnd ∧
      m.tick.1 = .exited 0 ∧ (m.tick.2.job 0).outcome? = some .completed := by
  refine ⟨(new emptyJobs .standard .empty (.new none)).start.2, .start .refl, ?_⟩
  decide +kernel

end Machine

end BatchMachine
