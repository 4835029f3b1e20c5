import BatchMachine.Proofs.JobInvariant

/-!
# What letting a job run changes

To let a job run is to boot it if need be, to save the job that runs, and to load the job into the
processor. Up to the moment at which a segment has been loaded, only the text and the two devices
of the job are touched, so that every failure up to there leaves the rest of the machine as it was.
None of this asks for a machine that is put together well, so that it also holds amid a tick.

* `Machine.Confines`: a change to one job and to what belongs to it.
* `Machine.Prepares`: such a change that leaves the slot of the job as it is.
* `Machine.loadNext_inv`, `Machine.boot_inv`: loading and booting prepare the job, and only then
  let it enter its segment.
* `Machine.SwitchesTo`: what a successful activation does to a machine.
* `Machine.prepares_of_activate`: what a failed activation does.
* `Machine.confines_giveUp`: what giving up a job does.
-/

namespace BatchMachine

open JobText

/-- The slot of `job` when it is given up because it cannot be booted. -/
def Job.abandoned (job : Job) : Job :=
  { job with outcome? := some .bootFailed, life := .finished, pending? := none, target? := none }

namespace Device

/-- When `d` is released it keeps its number. -/
@[simp]
theorem number_release (d : Device) : d.release.2.number = d.number := by
  unfold release
  cases d.link <;> rfl

end Device

namespace Hardware

/-- To bind the device with the number `dev` changes the link of that device. -/
theorem exists_link_of_bind {hw hw' : Hardware} {dev : Nat} {b : Binding}
    {closing? : Option FileError} (h : hw.bind dev b = .ok (closing?, hw')) :
    ∃ d link, hw.device? dev = some d ∧ hw' = hw.setDevice d.number { d with link } := by
  unfold bind at h
  split at h
  · simp at h
  · split at h
    · simp at h
    · rename_i d hd
      split at h
      · unfold bindSource at h
        split at h
        · split at h <;> simp only [Except.map, reduceCtorEq, Except.ok.injEq, Prod.mk.injEq] at h
          exact ⟨d, _, hd, h.2.symm⟩
        · simp [Except.map] at h
      · unfold bindSink at h
        split at h <;> simp only [reduceCtorEq, Except.ok.injEq, Prod.mk.injEq] at h
        exact ⟨d, _, hd, h.2.symm⟩
      · simp at h
      · simp at h

/-- Replacing the reader of job `j` leaves the one of any other job `k`. -/
theorem source?_setSource_of_ne (hw : Hardware) (source? : Option Reader) {j k : Nat}
    (h : k ≠ j) : (hw.setSource j source?).source? k = hw.source? k := by
  simp [setSource, Hardware.source?, Ne.symm h]

end Hardware

namespace Machine

variable {m m₁ m' : Machine} {j k : Nat}

theorem job_modifyJob_of_ne (f : Job → Job) (h : k ≠ j) :
    (m.modifyJob j f).job k = m.job k := by
  simp [job, modifyJob, Array.getD_eq_getD_getElem?, Array.getElem?_modify, Ne.symm h]

/-! ## Changes that are confined to a job -/

/-- The devices of `m` are at their places: every job has two, and each stands where its number
says. -/
structure Equipped (m : Machine) : Prop where
  devices : m.hardware.devices.size = 2 * m.jobs.size
  number : ∀ dev d, m.hardware.device? dev = some d → d.number = dev

theorem Wired.equipped (w : m.Wired) : m.Equipped where
  devices := w.devices
  number dev d h := by
    obtain ⟨j, hj, side, rfl, rfl⟩ := w.exists_device h
    exact (w.isOf hj side).number

/-- Job `j` has a device on each `side`. -/
theorem Equipped.exists_device (h : m.Equipped) (hj : j < m.jobs.size) (side : Side) :
    ∃ d, m.hardware.device? (side.number j) = some d := by
  have hlt : side.number j - 1 < m.hardware.devices.size := by
    rw [h.devices]
    cases side <;> simp only [Side.number, inputNumber, outputNumber] <;> omega
  exact ⟨_, by rw [Hardware.device?, if_neg (side.number_ne_zero j), Array.getElem?_eq_getElem hlt]⟩

/-- `m'` comes from `m` by changes to job `j`, to its text and to its devices. Where other devices
stand is known only if all are at their places. -/
structure Confines (j : Nat) (m m' : Machine) : Prop where
  cpu : m'.hardware.cpu = m.hardware.cpu
  control : m'.control = m.control
  job : ∀ k, k ≠ j → m'.job k = m.job k
  source : ∀ k, k ≠ j → m'.hardware.source? k = m.hardware.source? k
  equipped : m.Equipped → m'.Equipped
  device : m.Equipped → ∀ dev, ownerOf? dev ≠ some j →
    m'.hardware.device? dev = m.hardware.device? dev

namespace Confines

theorem refl : m.Confines j m :=
  ⟨rfl, rfl, fun _ _ => rfl, fun _ _ => rfl, id, fun _ _ _ => rfl⟩

theorem trans (h : m.Confines j m₁) (h' : m₁.Confines j m') : m.Confines j m' where
  cpu := h'.cpu.trans h.cpu
  control := h'.control.trans h.control
  job k hk := (h'.job k hk).trans (h.job k hk)
  source k hk := (h'.source k hk).trans (h.source k hk)
  equipped hm := h'.equipped (h.equipped hm)
  device hm dev hdev := (h'.device (h.equipped hm) dev hdev).trans (h.device hm dev hdev)

theorem size (h : m.Confines j m') : m'.jobs.size = m.jobs.size :=
  congrArg Control.size h.control

theorem current (h : m.Confines j m') : m'.current = m.current :=
  congrArg Control.current h.control

theorem idle (h : m.Confines j m') : m'.idle = m.idle :=
  congrArg Control.idle h.control

theorem runs (h : m.Confines j m') : m'.runs k = m.runs k :=
  runs_congr h.control

/-- Clock and journal do not matter. -/
theorem agrees (h : m.Confines j m₁) (hagrees : m₁.Agrees m') : m.Confines j m' where
  cpu := (congrArg Hardware.cpu hagrees.hardware).trans h.cpu
  control := hagrees.control.trans h.control
  job k hk := hagrees.job.trans (h.job k hk)
  source k hk := by
    rw [hagrees.hardware]
    exact h.source k hk
  equipped hm := by
    obtain ⟨hdevices, hnumber⟩ := h.equipped hm
    refine ⟨?_, fun dev d hd => ?_⟩
    · rw [hagrees.hardware, hagrees.size]
      exact hdevices
    · rw [hagrees.hardware] at hd
      exact hnumber dev d hd
  device hm dev hdev := by
    rw [hagrees.hardware]
    exact h.device hm dev hdev

end Confines

theorem confines_modifyJob (f : Job → Job) : m.Confines j (m.modifyJob j f) where
  cpu := rfl
  control := control_modifyJob f
  job k hk := job_modifyJob_of_ne f hk
  source _ _ := rfl
  equipped h := ⟨by rw [size_modifyJob]; exact h.devices, h.number⟩
  device _ _ _ := rfl

theorem confines_setSource (source? : Option Reader) :
    m.Confines j (m.setSource j source?) where
  cpu := rfl
  control := rfl
  job _ _ := rfl
  source _ hk := m.hardware.source?_setSource_of_ne source? hk
  equipped h := ⟨h.devices, h.number⟩
  device _ _ _ := rfl

/-- Replacing the device `d` of job `j` by `d'` of the same number is confined to the job. -/
theorem confines_setDevice {dev n : Nat} {d d' : Device} (howner : ownerOf? dev = some j)
    (hd : m.hardware.device? dev = some d) (hnumber : d'.number = d.number)
    (hn : m.Equipped → n = dev) :
    m.Confines j { m with hardware := m.hardware.setDevice n d' } := by
  have hdev : dev ≠ 0 := by
    rintro rfl
    simp [ownerOf?] at howner
  constructor
  -- the device that is replaced stands at its number, and so does the new one
  case equipped =>
    intro h
    obtain rfl := hn h
    refine ⟨?_, fun e de he => ?_⟩
    · simpa [Hardware.setDevice] using h.devices
    · rw [device?_setDevice _ hdev] at he
      split at he
      · rename_i heq
        subst heq
        rw [hd] at he
        obtain rfl : d' = de := by simpa using he
        exact hnumber.trans (h.number _ d hd)
      · exact h.number e de he
  -- it belongs to the job, so that a device of another one is not the one that is replaced
  case device =>
    intro h e he
    obtain rfl := hn h
    rw [device?_setDevice _ hdev, if_neg]
    rintro rfl
    exact he howner
  all_goals intros; rfl

theorem confines_bind {dev : Nat} {b : Binding} (howner : ownerOf? dev = some j)
    (h : m.bind dev b = .ok m') : m.Confines j m' ∧ m'.jobs = m.jobs := by
  unfold bind at h
  split at h
  · simp at h
  · rename_i closing? hw hbind
    obtain ⟨d, link, hd, rfl⟩ := Hardware.exists_link_of_bind hbind
    obtain rfl := Except.ok.inj h
    have hset : m.Confines j
        { m with hardware := m.hardware.setDevice d.number { d with link } } :=
      confines_setDevice howner hd rfl fun hm => hm.number dev d hd
    exact ⟨hset.agrees ⟨rfl, rfl, rfl⟩, rfl⟩

theorem confines_release {dev : Nat} (howner : ownerOf? dev = some j) :
    m.Confines j (m.release dev) ∧ (m.release dev).jobs = m.jobs := by
  unfold release Hardware.release
  cases hd : m.hardware.device? dev with
  | none => exact ⟨.refl, rfl⟩
  | some d =>
    have hset := confines_setDevice howner hd d.number_release fun _ => rfl
    exact ⟨hset.agrees ⟨rfl, rfl, rfl⟩, rfl⟩

theorem confines_releaseJob : m.Confines j (m.releaseJob j) ∧ (m.releaseJob j).jobs = m.jobs := by
  obtain ⟨hin, hjobs⟩ := confines_release (m := m) (ownerOf?_inputNumber j)
  obtain ⟨hout, hjobs'⟩ :=
    confines_release (m := m.release (inputNumber j)) (ownerOf?_outputNumber j)
  exact ⟨hin.trans hout, hjobs'.trans hjobs⟩

/-! ## Loading and booting -/

/-- `m'` comes from `m` by changes to the text and the devices of job `j`, which is to be loaded. -/
structure Prepares (j : Nat) (m m' : Machine) : Prop extends m.Confines j m' where
  own : m'.job j = m.job j

namespace Prepares

theorem refl : m.Prepares j m := ⟨.refl, rfl⟩

theorem trans (h : m.Prepares j m₁) (h' : m₁.Prepares j m') : m.Prepares j m' :=
  ⟨h.toConfines.trans h'.toConfines, h'.own.trans h.own⟩

theorem job_eq (h : m.Prepares j m') (k : Nat) : m'.job k = m.job k := by
  by_cases hk : k = j
  · rw [hk]
    exact h.own
  · exact h.job k hk

end Prepares

theorem prepares_setSource (source? : Option Reader) : m.Prepares j (m.setSource j source?) :=
  ⟨confines_setSource source?, rfl⟩

theorem prepares_bind {dev : Nat} {b : Binding} (howner : ownerOf? dev = some j)
    (h : m.bind dev b = .ok m') : m.Prepares j m' := by
  obtain ⟨hconfines, hjobs⟩ := confines_bind howner h
  exact ⟨hconfines, by rw [job, hjobs, job]⟩

theorem prepares_createOutput {path : String} {s : Sink}
    (h : m.createOutput path = .ok (s, m')) : m.Prepares j m' := by
  unfold createOutput at h
  split at h
  · obtain ⟨-, rfl⟩ := Prod.mk.inj (Except.ok.inj h)
    exact ⟨⟨rfl, rfl, fun _ _ => rfl, fun _ _ => rfl, fun hm => ⟨hm.devices, hm.number⟩,
      fun _ _ _ => rfl⟩, rfl⟩
  · simp at h

/-- `attach` prepares job `j`, however far it gets. -/
theorem prepares_attach (j : Nat) (path : String) : m.Prepares j (m.attach j path).2 := by
  unfold attach
  split
  · exact .refl
  · rename_i s m₁ hcreate
    have h₁ : m.Prepares j m₁ := prepares_createOutput hcreate
    split
    · exact h₁
    · rename_i m₂ hout
      have h₂ := h₁.trans (prepares_bind (ownerOf?_outputNumber j) hout)
      split
      · exact h₂
      · rename_i m₃ hin
        exact h₂.trans (prepares_bind (ownerOf?_inputNumber j) hin)

/-- `loadNext` prepares job `j`. If there is a segment and nothing goes wrong, the job enters it
with an image that fits, and that is all. -/
theorem loadNext_inv {res : Except LoadError Bool} (h : m.loadNext j = (res, m')) :
    (res ≠ .ok true ∧ m.Prepares j m') ∨
      (res = .ok true ∧ ∃ m₁ name image path, m.Prepares j m₁ ∧ image.size ≤ imageLimit ∧
        m' = m₁.enterSegment j name image path) := by
  unfold loadNext at h
  split at h
  · obtain ⟨rfl, rfl⟩ := Prod.mk.inj h
    exact .inl ⟨by simp, .refl⟩
  · rename_i r hsource
    rcases hcode : r.nextImage with ⟨code, reader⟩
    -- the reader has moved on whatever it has found, which concerns the text of the job alone
    have hset : m.Prepares j (m.setSource j (some reader)) := prepares_setSource _
    simp only [hcode] at h
    match code with
    | .error e =>
      obtain ⟨rfl, rfl⟩ := Prod.mk.inj h
      exact .inl ⟨by simp, hset⟩
    | .ok none =>
      obtain ⟨rfl, rfl⟩ := Prod.mk.inj h
      exact .inl ⟨by simp, hset⟩
    | .ok (some image) =>
      simp only at h
      generalize hpath : (m.setSource j (some reader)).outputFile j
        (((m.setSource j (some reader)).job j).segments + 1) = path at h
      have hattach := hset.trans (prepares_attach j path)
      rcases hres : (m.setSource j (some reader)).attach j path with ⟨res', m₁⟩
      rw [hres] at h hattach
      match res' with
      | .error e =>
        obtain ⟨rfl, rfl⟩ := Prod.mk.inj h
        exact .inl ⟨by simp, hattach⟩
      | .ok () =>
        obtain ⟨rfl, rfl⟩ := Prod.mk.inj h
        exact .inr ⟨rfl, m₁, reader.name, image.toArray, path, hattach,
          by simpa using Reader.length_nextImage_le hcode, rfl⟩

theorem prepares_openSource {r : Reader} (h : m.openSource j = .ok (r, m')) :
    m.Prepares j m' := by
  unfold openSource at h
  simp only at h
  split at h
  · obtain ⟨-, rfl⟩ := Prod.mk.inj (Except.ok.inj h)
    exact .refl
  · simp at h
  · split at h
    · simp at h
    · obtain ⟨-, rfl⟩ := Prod.mk.inj (Except.ok.inj h)
      exact prepares_setSource _

/-- `boot` prepares job `j`. If its first segment can be loaded the job enters it, and is booted
from then on. -/
theorem boot_inv {res : Except LoadError Unit} (h : m.boot j = (res, m')) :
    ((∃ e, res = .error e) ∧ m.Prepares j m') ∨
      (res = .ok () ∧ ∃ m₁ name image path, m.Prepares j m₁ ∧ image.size ≤ imageLimit ∧
        m' = ((m₁.enterSegment j name image path).modifyJob j fun job =>
          { job with boot := .booted }).note (.booted j (m.job j).origin)) := by
  unfold boot at h
  simp only at h
  split at h
  · rename_i e hopen
    obtain ⟨rfl, rfl⟩ := Prod.mk.inj h
    exact .inl ⟨⟨e, rfl⟩, .refl⟩
  · rename_i r m₁ hopen
    have h₁ := prepares_openSource hopen
    -- the text is not healthy
    split at h
    · obtain ⟨rfl, rfl⟩ := Prod.mk.inj h
      exact .inl ⟨⟨_, rfl⟩, h₁⟩
    -- the text is at its end
    split at h
    · obtain ⟨rfl, rfl⟩ := Prod.mk.inj h
      exact .inl ⟨⟨_, rfl⟩, h₁⟩
    -- what comes of loading the first segment decides the rest
    split at h
    · rename_i e m₂ hload
      obtain ⟨rfl, rfl⟩ := Prod.mk.inj h
      rcases loadNext_inv hload with ⟨-, h₂⟩ | ⟨hok, -⟩
      · exact .inl ⟨⟨e, rfl⟩, h₁.trans h₂⟩
      · simp at hok
    · rename_i m₂ hload
      obtain ⟨rfl, rfl⟩ := Prod.mk.inj h
      rcases loadNext_inv hload with ⟨-, h₂⟩ | ⟨hok, -⟩
      · exact .inl ⟨⟨_, rfl⟩, h₁.trans h₂⟩
      · simp at hok
    · rename_i m₂ hload
      obtain ⟨rfl, rfl⟩ := Prod.mk.inj h
      rcases loadNext_inv hload with ⟨hno, -⟩ | ⟨-, m₃, name, image, path, h₃, hsize, rfl⟩
      · exact absurd rfl hno
      · exact .inr ⟨rfl, m₃, name, image, path, h₁.trans h₃, hsize, rfl⟩

/-! ## Switching to a job -/

/-- `m'` comes from `m` by seeing to it that job `j`, which does not run, is booted. -/
structure Readies (j : Nat) (m m' : Machine) : Prop where
  cpu : m'.hardware.cpu = m.hardware.cpu
  control : m'.control = m.control
  job : ∀ k, k ≠ j → m'.job k = m.job k
  booted : (m'.job j).boot = .booted
  resumes : (m.job j).boot = .booted → m'.job j = m.job j
  boots : (m.job j).boot = .fresh → (m'.job j).image.size ≤ imageLimit ∧
    (m'.job j).life = .runnable ∧ (m'.job j).outcome? = (m.job j).outcome?

/-- If job `j` has been prepared and enters a segment whose image fits, it is ready when it is
booted then. -/
theorem Prepares.readies {name : String} {image : Array Instruction} {path : String}
    (h : m.Prepares j m₁) (hj : j < m.jobs.size) (hrun : m.runs j = false)
    (hboot : (m.job j).boot = .fresh) (hsize : image.size ≤ imageLimit) :
    m.Readies j (((m₁.enterSegment j name image path).modifyJob j fun job =>
      { job with boot := .booted }).note (.booted j (m.job j).origin)) := by
  have hj₁ : j < m₁.jobs.size := h.size.symm ▸ hj
  have hj₂ : j < (m₁.enterSegment j name image path).jobs.size := by
    rw [show (m₁.enterSegment j name image path).jobs.size = m₁.jobs.size from
      congrArg Control.size (control_enterSegment name image path)]
    exact hj₁
  have hjob : ∀ k, (m₁.enterSegment j name image path).job k =
      if k = j then (m.job k).enter name image else m.job k := by
    intro k
    rw [job_enterSegment name image path hj₁, h.job_eq]
  have hbooted : ((((m₁.enterSegment j name image path).modifyJob j fun job =>
      { job with boot := .booted }).note (.booted j (m.job j).origin)).job j) =
      { (m.job j).enter name image with boot := .booted } := by
    refine (job_modifyJob _ hj₂).trans ?_
    rw [if_pos rfl, hjob, if_pos rfl]
  constructor
  case cpu =>
    -- the job that enters a segment does not run, so that the processor is left alone
    have hrun₁ : m₁.runs j = false := h.runs.trans hrun
    show (m₁.enterSegment j name image path).hardware.cpu = m.hardware.cpu
    rw [hardware_enterSegment, hrun₁]
    exact h.cpu
  case control =>
    show ((m₁.enterSegment j name image path).modifyJob j _).control = m.control
    rw [control_modifyJob, control_enterSegment, h.control]
  case job =>
    intro k hk
    refine (job_modifyJob_of_ne _ hk).trans ?_
    rw [hjob, if_neg hk]
  case booted => rw [hbooted]
  case resumes => exact fun h => absurd (hboot.symm.trans h) (by decide)
  case boots =>
    intro _
    rw [hbooted]
    exact ⟨hsize, rfl, rfl⟩

/-- A job `j` that is to run has been booted, or `ensureBooted` boots it, or it cannot be booted. -/
theorem ensureBooted_inv {res : Except LoadError Unit} (hj : j < m.jobs.size)
    (hrun : m.runs j = false) (h : m.ensureBooted j = (res, m')) :
    (res = .ok () ∧ m.Readies j m') ∨
      ((∃ e, res = .error e) ∧ (m.job j).boot = .fresh ∧ m.Prepares j m') := by
  unfold ensureBooted at h
  cases hboot : (m.job j).boot with
  | fresh =>
    rw [if_pos hboot] at h
    rcases boot_inv h with ⟨herror, hprepares⟩ |
      ⟨hok, m₁, name, image, path, hprepares, hsize, rfl⟩
    · exact .inr ⟨herror, rfl, hprepares⟩
    · exact .inl ⟨hok, hprepares.readies hj hrun hboot hsize⟩
  | booted =>
    have hnew : (m.job j).boot ≠ .fresh := by simp [hboot]
    rw [if_neg hnew] at h
    obtain ⟨rfl, rfl⟩ := Prod.mk.inj h
    exact .inl ⟨rfl, rfl, rfl, fun _ _ => rfl, hboot, fun _ => rfl, fun h => absurd h hnew⟩

/-! ### Making room

Before a job is loaded into the processor the job that runs is saved, if there is one. -/

theorem hardware_room : (if m.idle then m else m.suspend).hardware = m.hardware := by
  split <;> rfl

theorem control_room : (if m.idle then m else m.suspend).control = m.control := by
  split
  · rfl
  · exact control_modifyJob _

/-- Making room leaves the slot of a job `k` that does not run. -/
theorem job_room (h : m.runs k = false) : (if m.idle then m else m.suspend).job k = m.job k := by
  split
  · rfl
  · rename_i hbusy
    apply job_modifyJob_of_ne
    rintro rfl
    simp [runs, hbusy] at h

/-- Making room saves the job that runs. -/
theorem job_room_current (hbusy : m.idle = false) (hlt : m.current < m.jobs.size) :
    (if m.idle then m else m.suspend).job m.current =
      { m.job m.current with registers := m.hardware.cpu.regs, trap := m.hardware.cpu.trap } := by
  rw [hbusy]
  show m.suspend.job m.current = _
  unfold suspend
  rw [job_modifyJob _ hlt, if_pos rfl]

/-! ### Getting the processor -/

/-- `m'` comes from `m` by loading job `j`, which did not run, into the processor. The job that ran
before, if any, is saved. -/
structure SwitchesTo (j : Nat) (m m' : Machine) : Prop where
  size : m'.jobs.size = m.jobs.size
  current : m'.current = j
  busy : m'.idle = false
  culprit : m'.culprit? = m.culprit?
  switches : m'.switches = m.switches + 1
  cpu : m'.hardware.cpu = { m.hardware.cpu with
    program := (m'.job j).image, regs := (m'.job j).registers, trap := (m'.job j).trap }
  fits : (m'.job j).image.size ≤ imageLimit
  booted : (m'.job j).boot = .booted
  resumes : (m.job j).boot = .booted → m'.job j = m.job j
  boots : (m.job j).boot = .fresh →
    (m'.job j).life = .runnable ∧ (m'.job j).outcome? = (m.job j).outcome?
  saves : m.idle = false → m.current < m.jobs.size → m'.job m.current =
    { m.job m.current with registers := m.hardware.cpu.regs, trap := m.hardware.cpu.trap }
  job : ∀ k, k ≠ j → m.runs k = false → m'.job k = m.job k

theorem SwitchesTo.runs (h : m.SwitchesTo j m') : m'.runs k = true ↔ k = j := by
  rw [runs_eq_true_iff, h.current]
  exact ⟨fun hrun => hrun.2.symm, fun hk => ⟨h.busy, hk.symm⟩⟩

theorem SwitchesTo.runs_eq_false (h : m.SwitchesTo j m') (hne : j ≠ k) : m'.runs k = false := by
  rw [Bool.eq_false_iff]
  exact fun hrun => hne (h.runs.1 hrun).symm

/-- Once job `j` is booted, `install` loads it into the processor if its image fits. -/
theorem Readies.install (h : m.Readies j m₁) (hrun : m.runs j = false)
    {res : Except LoadError Unit}
    (hinstall : (if m₁.idle then m₁ else m₁.suspend).install j = (res, m')) :
    (res = .ok () ∧ m.SwitchesTo j m') ∨
      ((∃ e, res = .error e) ∧ imageLimit < (m₁.job j).image.size) := by
  have hidle : m₁.idle = m.idle := congrArg Control.idle h.control
  have hcurrent : m₁.current = m.current := congrArg Control.current h.control
  have hsize : m₁.jobs.size = m.jobs.size := congrArg Control.size h.control
  have hruns : ∀ k, m₁.runs k = m.runs k := fun k => runs_congr h.control
  have hhardware := hardware_room (m := m₁)
  have hcontrol := (control_room (m := m₁)).trans h.control
  have hjob : ∀ k, m.runs k = false → (if m₁.idle then m₁ else m₁.suspend).job k = m₁.job k :=
    fun k hk => job_room ((hruns k).trans hk)
  have hsaved := job_room_current (m := m₁)
  -- from here on it does not matter whether there was a job to be saved
  generalize (if m₁.idle then m₁ else m₁.suspend) = m₂ at *
  unfold Machine.install Processor.load at hinstall
  by_cases hfits : (m₂.job j).image.size ≤ imageLimit
  · left
    rw [if_pos hfits] at hinstall
    obtain ⟨rfl, rfl⟩ := Prod.mk.inj hinstall
    refine ⟨rfl, ?_⟩
    constructor
    case size => exact congrArg Control.size hcontrol
    case current => rfl
    case busy => rfl
    case culprit => exact congrArg Control.culprit? hcontrol
    case switches => exact congrArg (Control.switches · + 1) hcontrol
    case cpu =>
      show { m₂.hardware.cpu with
        program := (m₂.job j).image, regs := (m₂.job j).registers, trap := (m₂.job j).trap } = _
      rw [hhardware, h.cpu]
      rfl
    case fits => exact hfits
    case booted => exact (congrArg Job.boot (hjob j hrun)).trans h.booted
    case resumes => exact fun hboot => (hjob j hrun).trans (h.resumes hboot)
    case boots =>
      intro hboot
      obtain ⟨_, hlife, houtcome⟩ := h.boots hboot
      exact ⟨(congrArg Job.life (hjob j hrun)).trans hlife,
        (congrArg Job.outcome? (hjob j hrun)).trans houtcome⟩
    -- the job that is saved is not the one that is loaded, which does not run
    case saves =>
      intro hbusy hlt
      have hne : m.current ≠ j := by
        rintro rfl
        simp [Machine.runs, hbusy] at hrun
      rw [hcurrent, h.cpu, h.job _ hne] at hsaved
      exact hsaved (hidle.trans hbusy) (hsize.symm ▸ hlt)
    case job => exact fun k hk hout => (hjob k hout).trans (h.job k hk)
  -- the job that runs has been saved in vain
  · right
    rw [if_neg hfits] at hinstall
    obtain ⟨rfl, rfl⟩ := Prod.mk.inj hinstall
    rw [hjob j hrun] at hfits
    exact ⟨⟨_, rfl⟩, not_le.1 hfits⟩

/-- A job `j` that is to run runs already, or the machine switches to it, or it cannot be booted.
Only where the image of a booted job does not fit can `activate` fail at a later point. -/
theorem activate_inv {res : Except LoadError Unit} (hj : j < m.jobs.size)
    (h : m.activate j = (res, m')) :
    (m.runs j = true ∧ res = .ok () ∧ m' = m.note (.alreadyRunning j)) ∨
    (m.runs j = false ∧ res = .ok () ∧ m.SwitchesTo j m') ∨
    (m.runs j = false ∧ (∃ e, res = .error e) ∧
      ((m.job j).image.size ≤ imageLimit → (m.job j).boot = .fresh ∧ m.Prepares j m')) := by
  unfold activate at h
  by_cases hrun : m.runs j = true
  · rw [if_pos hrun] at h
    obtain ⟨rfl, rfl⟩ := Prod.mk.inj h
    exact .inl ⟨hrun, rfl, rfl⟩
  · rw [if_neg hrun] at h
    replace hrun : m.runs j = false := by simpa using hrun
    right
    rcases hready : m.ensureBooted j with ⟨res₁, m₁⟩
    rw [hready] at h
    rcases ensureBooted_inv hj hrun hready with ⟨rfl, hreadies⟩ | ⟨⟨e, rfl⟩, hboot, hprepares⟩
    · rcases hreadies.install hrun h with ⟨hok, hswitches⟩ | ⟨herror, hlarge⟩
      · exact .inl ⟨hrun, hok, hswitches⟩
      · refine .inr ⟨hrun, herror, fun hfits => absurd hlarge (not_lt.2 ?_)⟩
        -- the image of a job that has just been booted fits in any case
        cases hboot : (m.job j).boot with
        | fresh => exact (hreadies.boots hboot).1
        | booted => rwa [hreadies.resumes hboot]
    · obtain ⟨rfl, rfl⟩ := Prod.mk.inj h
      exact .inr ⟨hrun, ⟨e, rfl⟩, fun _ => ⟨hboot, hprepares⟩⟩

/-- `activate` fails only because job `j` cannot be booted. -/
theorem prepares_of_activate {e : LoadError} (hj : j < m.jobs.size)
    (hfits : (m.job j).image.size ≤ imageLimit) (h : m.activate j = (.error e, m')) :
    m.runs j = false ∧ (m.job j).boot = .fresh ∧ m.Prepares j m' := by
  rcases activate_inv hj h with ⟨-, hok, -⟩ | ⟨-, hok, -⟩ | ⟨hrun, -, hfails⟩
  · simp at hok
  · simp at hok
  · exact ⟨hrun, hfails hfits⟩

/-- `activate` switches to a booted job `j` whose image fits. -/
theorem switchesTo_of_booted (hj : j < m.jobs.size) (hrun : m.runs j = false)
    (hboot : (m.job j).boot = .booted) (hfits : (m.job j).image.size ≤ imageLimit) :
    ∃ m', m.activate j = (.ok (), m') ∧ m.SwitchesTo j m' := by
  rcases hact : m.activate j with ⟨res, m'⟩
  rcases activate_inv hj hact with ⟨hrun', -⟩ | ⟨-, rfl, hswitches⟩ | ⟨-, -, hfails⟩
  · rw [hrun] at hrun'
    exact absurd hrun' (by decide)
  · exact ⟨m', rfl, hswitches⟩
  · exact absurd (hboot.symm.trans (hfails hfits).1) (by decide)

/-! ## Giving up a job -/

/-- To give up job `j` is confined to it. -/
theorem confines_giveUp (j : Nat) (e : LoadError) : m.Confines j (m.giveUp j e) := by
  have hnote : m.Confines j (m.note (.bootFailed (m.job j).origin e.message)) :=
    Confines.refl.agrees (agrees_note _)
  unfold giveUp dismiss
  exact ((((hnote.trans (confines_modifyJob _)).trans (confines_modifyJob _)).trans
    (confines_setSource none)).trans confines_releaseJob.1).agrees (agrees_note _)

/-- When job `j` is dismissed it is over, and nothing is asked for it any more. -/
theorem job_dismiss (hj : j < m.jobs.size) :
    (m.dismiss j).job j =
      { m.job j with life := .finished, pending? := none, target? := none } := by
  -- of all that happens to the job only the change of its slot shows there
  have hjobs : (m.dismiss j).jobs = (m.modifyJob j fun job =>
      { job with life := .finished, pending? := none, target? := none }).jobs :=
    confines_releaseJob.2
  rw [job, hjobs]
  show Machine.job _ j = _
  rw [job_modifyJob _ hj, if_pos rfl]

/-- When job `j` is given up it is over. -/
theorem job_giveUp (hj : j < m.jobs.size) (e : LoadError) :
    (m.giveUp j e).job j = (m.job j).abandoned := by
  have hj' : j < (m.note (.bootFailed (m.job j).origin e.message)).jobs.size := hj
  unfold giveUp
  rw [job_dismiss (by simpa using hj'), job_modifyJob _ hj', if_pos rfl]
  rfl

end Machine

end BatchMachine
