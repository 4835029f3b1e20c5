import BatchMachine.Proofs.Loading
import Mathlib.Data.Finset.Card
import Mathlib.Data.Finset.Range

/-!
# What switching between jobs does

Loading a job into the processor, saving it and idling move registers between the processor and
the job table, so that no view of a job changes. A job that cannot be booted when it is to run is
given up. Each such job is one less that can run, so the search for the next job ends.

* `Machine.activate_cases`: a job runs already, it starts (`Machine.Starts`), or it is spared.
* `Machine.between`, `Machine.between_lt_of_nextRunnable?`: the search finds the first job on the
  way around the table.
* `Machine.rotate_cases`: what holds of a machine and is kept whenever a job is given up
  (`Machine.Drops`) holds when the search for the next job ends.
* `Machine.unload_spec`: the processor idles (`Machine.Unloads`).
-/

namespace BatchMachine

open JobText

namespace Machine

variable {m m' : Machine} {j k : Nat}

/-! ## Loading a job into the processor -/

/-- `m'` comes from `m` by loading job `j` into the processor. -/
structure Installs (j : Nat) (m m' : Machine) : Prop where
  wired : m'.Wired
  size : m'.jobs.size = m.jobs.size
  config : m'.config = m.config
  culprit : m'.culprit? = m.culprit?
  current : m'.current = j
  busy : m'.idle = false
  switches : m'.switches = m.switches + 1
  line : m'.line.isIdle = true
  files : m'.hardware.files = m.hardware.files
  view : ∀ k, m'.view k = m.view k

/-- `m'` comes from `m` by letting the processor idle. -/
structure Unloads (m m' : Machine) : Prop where
  wired : m'.Wired
  size : m'.jobs.size = m.jobs.size
  config : m'.config = m.config
  culprit : m'.culprit? = m.culprit?
  current : m'.current = m.current
  idle : m'.idle = true
  switches : m'.switches = m.switches
  pc : m'.hardware.cpu.regs.pc = Registers.idlePc
  line : m'.line = m.line
  files : m'.hardware.files = m.hardware.files
  view : ∀ k, m'.view k = m.view k

/-- The jobs of `m` all have their registers in the job table, in so far as they have not changed
since. -/
def Saved (m : Machine) : Prop :=
  ∀ k, m.regsOf k = (m.job k).registers

theorem saved_of_idle (h : m.idle = true) : m.Saved := by
  intro k
  simp [regsOf, runs, h]

theorem job_suspend (w : m.Wired) :
    m.suspend.job k =
      if k = m.current then
        { m.job k with registers := m.hardware.cpu.regs, trap := m.hardware.cpu.trap }
      else m.job k :=
  job_modifyJob _ w.current

theorem regsOf_suspend (w : m.Wired) (h : m.idle = false) : m.suspend.regsOf k = m.regsOf k := by
  have hruns : m.suspend.runs k = m.runs k := rfl
  have hcpu : m.suspend.hardware = m.hardware := rfl
  unfold regsOf
  rw [hruns, hcpu, job_suspend w]
  by_cases hk : k = m.current
  · simp [runs, h, hk]
  · simp [hk]

theorem saved_suspend (w : m.Wired) (h : m.idle = false) : m.suspend.Saved := by
  intro k
  rw [regsOf_suspend w h, job_suspend w]
  by_cases hk : k = m.current
  · simp [regsOf, runs, h, hk]
  · simp [regsOf, runs, hk, Ne.symm hk]

theorem view_suspend (w : m.Wired) (h : m.idle = false) : m.suspend.view k = m.view k := by
  have hhw : m.suspend.hardware = m.hardware := rfl
  simp only [view, regsOf_suspend w h, job_suspend w, hhw]
  split <;> rfl

theorem Wired.suspend (w : m.Wired) (hidle : m.idle = false) (hline : m.line.isIdle = true) :
    m.suspend.Wired := by
  have hsize : m.suspend.jobs.size = m.jobs.size := size_modifyJob _
  constructor
  case devices =>
    rw [hsize]
    exact w.devices
  case sources =>
    rw [hsize]
    exact w.sources
  case current =>
    rw [hsize]
    exact w.current
  case program =>
    intro hbusy
    rw [job_suspend w]
    have := w.program hbusy
    split <;> exact this
  case saved =>
    intro k hk
    rw [hsize] at hk
    rw [job_suspend w]
    split
    · exact hline
    · exact w.saved k hk
  case input =>
    intro k hk
    rw [hsize] at hk
    rw [view_suspend w hidle]
    exact w.input k hk
  case output =>
    intro k hk
    rw [hsize] at hk
    rw [view_suspend w hidle]
    exact w.output k hk

/-- If the image of job `j` fits, `install` loads it into the processor. -/
theorem install_of_fits (hfits : (m.job j).image.size ≤ imageLimit) :
    m.install j =
      (.ok (), (m.modifyCpu fun cpu => { cpu with program := (m.job j).image }).occupy j) := by
  unfold install Processor.load
  rw [if_pos hfits]
  rfl

/-- When the registers of every job are saved, job `j`, whose image is in the processor, can take
the place of another. -/
theorem occupy_spec (w : m.Wired) (hj : j < m.jobs.size) (hsaved : m.Saved) :
    m.Installs j
      ((m.modifyCpu fun cpu => { cpu with program := (m.job j).image }).occupy j) := by
  generalize hm' : (m.modifyCpu fun cpu => { cpu with program := (m.job j).image }).occupy j = m'
  have hjob : ∀ k, m'.job k = m.job k := fun k => by rw [← hm']; rfl
  have hrun : ∀ k, m'.runs k = true ↔ k = j := fun k => by
    rw [← hm', runs_eq_true_iff]
    exact ⟨fun h => h.2.symm, fun h => ⟨rfl, h.symm⟩⟩
  have hcpu : m'.hardware.cpu.regs = (m.job j).registers := by rw [← hm']; rfl
  -- what is loaded is what was saved, and nothing of the others was in the processor
  have hregs : ∀ k, m'.regsOf k = m.regsOf k := by
    intro k
    rw [hsaved k, regsOf, hjob, hcpu]
    split
    · rw [(hrun k).1 ‹_›]
    · rfl
  have hview : ∀ k, m'.view k = m.view k := by
    intro k
    simp only [view, hregs, hjob]
    rw [← hm']
    rfl
  subst hm'
  constructor
  case wired =>
    refine ⟨w.devices, w.sources, hj, fun _ => rfl, w.saved, ?_, ?_⟩
    · intro k hk
      rw [hview]
      exact w.input k hk
    · intro k hk
      rw [hview]
      exact w.output k hk
  case line => exact w.saved j hj
  case view => exact hview
  all_goals rfl

/-- The processor turns to job `j` from another one, which is saved by `suspend`, or from idling. -/
theorem switch_spec (w : m.Wired) (hj : j < m.jobs.size) (hline : m.line.isIdle = true)
    (hfits : (m.job j).image.size ≤ imageLimit) :
    ∃ m', (if m.idle then m else m.suspend).install j = (.ok (), m') ∧ m.Installs j m' := by
  cases hidle : m.idle with
  | true => exact ⟨_, install_of_fits hfits, occupy_spec w hj (saved_of_idle hidle)⟩
  | false =>
    have hsize : m.suspend.jobs.size = m.jobs.size := size_modifyJob _
    have hfits' : (m.suspend.job j).image.size ≤ imageLimit := by
      rw [job_suspend w]
      split <;> exact hfits
    have h := occupy_spec (w.suspend hidle hline) (hsize.symm ▸ hj) (saved_suspend w hidle)
    exact ⟨_, install_of_fits hfits', h.wired, h.size.trans hsize, h.config, h.culprit, h.current,
      h.busy, h.switches, h.line, h.files, fun k => (h.view k).trans (view_suspend w hidle)⟩

/-- While no job is loaded the program counter can be set to `idlePc`, which no job sees. -/
theorem unloads_of_idle (w : m.Wired) (hidle : m.idle = true) :
    m.Unloads ((m.modifyCpu fun cpu =>
      { cpu with regs := cpu.regs.setPc Registers.idlePc }).note .nothingToRun) := by
  have hview : ∀ k, ((m.modifyCpu fun cpu =>
      { cpu with regs := cpu.regs.setPc Registers.idlePc }).note .nothingToRun).view k =
        m.view k := by
    intro k
    have hrun : m.runs k = false := by simp [runs, hidle]
    -- the registers of the processor stand for those of a job only while it runs
    have hregs : ((m.modifyCpu fun cpu =>
        { cpu with regs := cpu.regs.setPc Registers.idlePc }).note .nothingToRun).regsOf k =
          m.regsOf k := by
      rw [regsOf, regsOf, hrun]
      simp [modifyCpu, note, noteOf, runs, hidle, job]
    simp only [view, hregs]
    rfl
  constructor
  case wired =>
    refine ⟨w.devices, w.sources, w.current, ?_, w.saved, ?_, ?_⟩
    · intro hbusy
      exact absurd (hidle.symm.trans hbusy) (by decide)
    · intro k hk
      rw [hview]
      exact w.input k hk
    · intro k hk
      rw [hview]
      exact w.output k hk
  case idle => exact hidle
  case pc => exact Registers.pc_setPc _ _
  case view => exact hview
  all_goals rfl

/-- `unload` saves the job that runs, and the processor idles. -/
theorem unload_spec (w : m.Wired) (hline : m.line.isIdle = true) : m.Unloads m.unload := by
  unfold unload
  cases hidle : m.idle with
  | true => exact unloads_of_idle w hidle
  | false =>
    have hsize : m.suspend.jobs.size = m.jobs.size := size_modifyJob _
    have hsaved := saved_suspend w hidle
    have w₁ := w.suspend hidle hline
    have hview : ∀ k, { m.suspend with idle := true }.view k = m.view k := by
      intro k
      -- the registers that the job had in the processor are now in the job table
      have hregs : { m.suspend with idle := true }.regsOf k = m.suspend.regsOf k := by
        rw [hsaved k]
        simp [regsOf, runs, job]
      rw [← view_suspend w hidle]
      simp only [view, hregs]
      rfl
    -- nothing is loaded any more, so that there is no program to agree with a job's
    have w₂ : { m.suspend with idle := true }.Wired := by
      refine ⟨w₁.devices, w₁.sources, w₁.current, fun h => by simp at h, w₁.saved, ?_, ?_⟩
      · intro k hk
        rw [hview, ← view_suspend w hidle]
        exact w₁.input k hk
      · intro k hk
        rw [hview, ← view_suspend w hidle]
        exact w₁.output k hk
    have h := unloads_of_idle w₂ rfl
    exact ⟨h.wired, h.size.trans hsize, h.config, h.culprit, h.current, h.idle, h.switches, h.pc,
      h.line, h.files, fun k => (h.view k).trans (hview k)⟩

/-! ## Letting a job run -/

/-- `m'` comes from `m` by letting job `j` run, which did not: it is loaded into the processor, and
booted before if need be. -/
def Starts (j : Nat) (m m' : Machine) : Prop :=
  ((m.job j).boot = .booted ∧ m.Installs j m') ∨
    ((m.job j).boot = .fresh ∧
      ∃ m₁ image reader, m.Boots j image reader m₁ ∧ m₁.Installs j m')

/-- A job `j` that is to run runs already, or it starts, or it is spared since it cannot be
booted. -/
theorem activate_cases (w : m.Wired) (hj : j < m.jobs.size) (hline : m.line.isIdle = true)
    (hfits : (m.job j).image.size ≤ imageLimit) :
    (m.runs j = true ∧ m.activate j = (.ok (), m.note (.alreadyRunning j))) ∨
    (m.runs j = false ∧ ∃ m', m.activate j = (.ok (), m') ∧ m.Starts j m') ∨
    (m.runs j = false ∧ (m.job j).boot = .fresh ∧
      ∃ m' e, m.activate j = (.error e, m') ∧ m.Spares j m' ∧
        m.Barred j m.hardware.files) := by
  unfold activate
  by_cases hrun : m.runs j = true
  · exact .inl ⟨hrun, if_pos hrun⟩
  · have hstopped : m.runs j = false := by simpa using hrun
    rw [if_neg hrun]
    unfold ensureBooted
    -- a job that has not been booted is booted first, and only that can fail
    by_cases hboot : (m.job j).boot = .fresh
    · rw [if_pos hboot]
      rcases boot_cases w hj with ⟨m₁, image, reader, hok, h⟩ | ⟨m₁, e, herror, h, hbarred⟩
      · have hline₁ : m₁.line.isIdle = true := by
          rw [h.line, if_neg hrun]
          exact hline
        obtain ⟨m', hinstall, h'⟩ :=
          switch_spec h.wired (h.size.symm ▸ hj) hline₁ h.fits
        simp only [hok]
        exact .inr (.inl ⟨hstopped, m', hinstall, .inr ⟨hboot, m₁, image, reader, h, h'⟩⟩)
      · simp only [herror]
        exact .inr (.inr ⟨hstopped, hboot, m₁, e, rfl, h, hbarred⟩)
    · have hbooted : (m.job j).boot = .booted := by
        cases h : (m.job j).boot with
        | fresh => exact absurd h hboot
        | booted => rfl
      obtain ⟨m', hinstall, h⟩ := switch_spec w hj hline hfits
      rw [if_neg hboot]
      exact .inr (.inl ⟨hstopped, m', hinstall, .inl ⟨hbooted, h⟩⟩)

/-- `m'` comes from `m` by giving up job `j`, which cannot be booted. -/
structure Drops (j : Nat) (m m' : Machine) : Prop extends m.Touches j m' where
  files : m'.hardware.files = m.hardware.files
  barred : m.Barred j m.hardware.files
  dropped : m'.view j =
    { m.view j with job := { (m.view j).job with outcome? := some .bootFailed } }.dismissed

/-- If job `j` was spared, it is given up as if nothing had been tried. -/
theorem Spares.giveUp (h : m.Spares j m') (hj : j < m.jobs.size)
    (hbarred : m.Barred j m.hardware.files) (e : LoadError) : m.Drops j (m'.giveUp j e) := by
  have hadm : Job.Administrative fun job => { job with outcome? := some .bootFailed } :=
    fun _ _ _ _ => rfl
  have hnote := h.note (.bootFailed (m'.job j).origin e.message)
  have hj' : j < m'.jobs.size := h.size.symm ▸ hj
  have hmod := touches_modifyJob hnote.wired hadm hj'
  have hj'' := hmod.size.symm ▸ hj'
  obtain ⟨hdismiss, hfiles⟩ := dismiss_spec hmod.wired hj''
  refine ⟨(hnote.trans hmod).trans hdismiss.toTouches, hfiles.trans h.files, hbarred, ?_⟩
  · have hview := view_modifyJob (m := m'.note (.bootFailed (m'.job j).origin e.message)) (k := j)
      hadm hj'
    rw [if_pos rfl, view_note] at hview
    unfold Machine.giveUp
    rw [hdismiss.dismissed, hview]
    simp only [View.dismissed, h.job, h.input, h.output]

/-! ## The next job -/

theorem lt_of_nextRunnable? (h : m.nextRunnable? = some j) :
    j < m.jobs.size ∧ (m.job j).life = .runnable := by
  have hrun := List.find?_some h
  have hmem := List.mem_of_find?_eq_some h
  obtain ⟨k, hk, rfl⟩ := List.mem_map.1 hmem
  refine ⟨Nat.mod_lt _ ?_, by simpa [Job.isRunnable] using hrun⟩
  have := List.mem_range.1 hk
  omega

/-- The number of jobs that come between `c` and `k` on the way from `c` to `k` around a table of
the size `size`. -/
def between (size c k : Nat) : Nat :=
  if c < k then k - (c + 1) else k + size - (c + 1)

theorem between_lt {size c k : Nat} (hc : c < size) (hk : k < size) : between size c k < size := by
  unfold between
  split <;> omega

/-- `between size c k` is the place of `k` in the search that starts after `c`. -/
theorem mod_eq_iff_between {size c k i : Nat} (hc : c < size) (hk : k < size) (hi : i < size) :
    (c + 1 + i) % size = k ↔ i = between size c k := by
  have hmod : (c + 1 + i) % size = if c + 1 + i < size then c + 1 + i else c + 1 + i - size := by
    split
    · exact Nat.mod_eq_of_lt ‹_›
    · rw [Nat.mod_eq_sub_mod (by omega), Nat.mod_eq_of_lt (by omega)]
  unfold between
  rw [hmod]
  split <;> split <;> omega

/-- On the way around a table every place `k` is passed, wherever the way starts. -/
theorem exists_mod_eq {size k : Nat} (c : Nat) (hk : k < size) :
    ∃ i < size, (c + i) % size = k := by
  have hpos : 0 < size := Nat.zero_lt_of_lt hk
  have hlt := Nat.mod_lt c hpos
  -- from the start the way goes on to the end of the table, and from there to the place
  have hsum : c + (k + size - c % size) = k + size * (c / size + 1) := by
    have := Nat.div_add_mod c size
    rw [Nat.mul_add, Nat.mul_one]
    omega
  refine ⟨(k + size - c % size) % size, Nat.mod_lt _ hpos, ?_⟩
  rw [Nat.add_mod_mod, hsum, Nat.add_mul_mod_self_left, Nat.mod_eq_of_lt hk]

/-- `nextRunnable?` goes through the whole job table. -/
theorem not_runnable_of_nextRunnable? (h : m.nextRunnable? = none) (hj : j < m.jobs.size) :
    (m.job j).life ≠ .runnable := by
  obtain ⟨i, hi, hplace⟩ := exists_mod_eq (m.current + 1) hj
  have := List.find?_eq_none.1 h j (List.mem_map.2 ⟨i, List.mem_range.2 hi, hplace⟩)
  simpa [Job.isRunnable] using this

/-- `nextRunnable?` finds the first job after the one that ran last, so that every other job `k`
that can run has fewer jobs before it once the one that is found, `j`, has got the processor. -/
theorem between_lt_of_nextRunnable? (hcurrent : m.current < m.jobs.size)
    (h : m.nextRunnable? = some j) (hk : k < m.jobs.size) (hlife : (m.job k).life = .runnable)
    (hne : k ≠ j) : between m.jobs.size j k < between m.jobs.size m.current k := by
  obtain ⟨hj, _⟩ := lt_of_nextRunnable? h
  obtain ⟨_, i, hi, hfound, hbefore⟩ := List.find?_eq_some_iff_getElem.1 h
  simp only [List.length_map, List.length_range] at hi
  simp only [List.getElem_map, List.getElem_range] at hfound hbefore
  -- the places of both jobs in the search, of which that of `j` comes first
  have hplace := (mod_eq_iff_between hcurrent hj hi).1 hfound
  have hplace' := (mod_eq_iff_between hcurrent hk (between_lt hcurrent hk)).2 rfl
  have hle : i ≤ between m.jobs.size m.current k := by
    by_contra hlt
    have hnot := hbefore _ (not_le.1 hlt)
    rw [hplace'] at hnot
    simp [Job.isRunnable, hlife] at hnot
  unfold between at hplace hle ⊢
  split at hplace <;> split at hle <;> split <;> omega

/-- The jobs of `m` that can run. -/
def runnables (m : Machine) : Finset Nat :=
  (Finset.range m.jobs.size).filter fun j => (m.job j).life = .runnable

/-- Giving up job `j` takes it out of the `runnables`. -/
theorem Drops.runnables (h : m.Drops j m') : m'.runnables = m.runnables.erase j := by
  ext k
  have hjob : (m'.job k).life = if k = j then .finished else (m.job k).life := by
    split
    · rename_i hk
      subst hk
      rw [← view_life, h.dropped]
      rfl
    · rename_i hk
      rw [← view_life, h.view k hk, view_life]
  simp only [Machine.runnables, Finset.mem_filter, Finset.mem_range, Finset.mem_erase, h.size,
    hjob]
  by_cases hk : k = j <;> simp [hk]

/-- The image of every job of `m` fits the processor. -/
def Loadable (m : Machine) : Prop :=
  ∀ j < m.jobs.size, (m.job j).image.size ≤ imageLimit

/-- The processor of `m` is free for another job: nothing is pending, every image fits, and the job
that runs, if any, cannot go on. -/
structure Vacant (m : Machine) : Prop where
  wired : m.Wired
  loadable : m.Loadable
  line : m.line.isIdle = true
  stopped : m.idle = false → (m.job m.current).life ≠ .runnable

theorem Vacant.runs_eq_false (h : m.Vacant) (hlife : (m.job j).life = .runnable) :
    m.runs j = false := by
  rw [Bool.eq_false_iff]
  intro hrun
  obtain ⟨hidle, hcurrent⟩ := runs_eq_true_iff.1 hrun
  exact h.stopped hidle (hcurrent ▸ hlife)

/-- The processor stays free when job `j` is given up. -/
theorem Drops.vacant (h : m.Drops j m') (hvacant : m.Vacant) : m'.Vacant where
  wired := h.wired
  loadable k hk := by
    have hfits := hvacant.loadable k (h.size ▸ hk)
    rw [← view_image]
    by_cases hkj : k = j
    · subst hkj
      rw [h.dropped]
      exact hfits
    · rw [h.view k hkj]
      exact hfits
  line := by
    rw [line, h.cpu]
    exact hvacant.line
  stopped hidle := by
    rw [h.idle] at hidle
    rw [h.current, ← view_life]
    by_cases hk : m.current = j
    · rw [hk, h.dropped]
      simp [View.dismissed]
    · rw [h.view _ hk]
      exact hvacant.stopped hidle

section Rotation

variable {P : Machine → Prop}
  (drop : ∀ {m m' : Machine} {j : Nat}, m.Vacant → P m → j < m.jobs.size →
    (m.job j).boot = .fresh → (m.job j).life = .runnable → m.Drops j m' → P m')

include drop

/-- When a search among enough jobs ends, the next job has started, or there is none. A property `P`
that holds at first and is kept whenever a job is given up holds then. -/
theorem rotateAmong_cases {n : Nat} (hvacant : m.Vacant) (h : P m)
    (hcount : m.runnables.card ≤ n) :
    (∃ m₁ j m', m.rotateAmong n = (true, m') ∧ m₁.Vacant ∧ P m₁ ∧
      m₁.nextRunnable? = some j ∧ m₁.Starts j m') ∨
    ∃ m', m.rotateAmong n = (false, m') ∧ m'.Vacant ∧ P m' ∧ m'.nextRunnable? = none := by
  -- every job that is given up leaves one less to try, so that the count covers what is left
  induction n generalizing m with
  | zero =>
    right
    refine ⟨m, rfl, hvacant, h, ?_⟩
    have hempty := Finset.card_eq_zero.1 (Nat.le_zero.1 hcount)
    cases hnext : m.nextRunnable? with
    | none => rfl
    | some j =>
      obtain ⟨hj, hlife⟩ := lt_of_nextRunnable? hnext
      have hmem : j ∈ m.runnables := by simp [runnables, hj, hlife]
      rw [hempty] at hmem
      exact absurd hmem (Finset.notMem_empty j)
  | succ n ih =>
    unfold rotateAmong
    cases hnext : m.nextRunnable? with
    | none => exact .inr ⟨m, rfl, hvacant, h, hnext⟩
    | some j =>
      obtain ⟨hj, hlife⟩ := lt_of_nextRunnable? hnext
      simp only
      rcases activate_cases hvacant.wired hj hvacant.line (hvacant.loadable j hj) with
        ⟨hrun, _⟩ | ⟨_, m', hact, hstart⟩ | ⟨hrun, hboot, m', e, hact, hspare, hbarred⟩
      · rw [hvacant.runs_eq_false hlife] at hrun
        exact absurd hrun (by decide)
      · exact .inl ⟨m, j, m', by rw [hact], hvacant, h, hnext, hstart⟩
      · have hdrop := hspare.giveUp hj hbarred e
        have hmem : j ∈ m.runnables := by simp [runnables, hj, hlife]
        have hcount' : (m'.giveUp j e).runnables.card ≤ n := by
          rw [hdrop.runnables, Finset.card_erase_of_mem hmem]
          omega
        have := ih (hdrop.vacant hvacant) (drop hvacant h hj hboot hlife hdrop) hcount'
        simpa only [hact] using this

/-- `rotate`, a search among all jobs, is a search among enough. -/
theorem rotate_cases (hvacant : m.Vacant) (h : P m) :
    (∃ m₁ j m', m.rotate = (true, m') ∧ m₁.Vacant ∧ P m₁ ∧ m₁.nextRunnable? = some j ∧
      m₁.Starts j m') ∨
    ∃ m', m.rotate = (false, m') ∧ m'.Vacant ∧ P m' ∧ m'.nextRunnable? = none := by
  refine rotateAmong_cases drop hvacant h ?_
  have := Finset.card_filter_le (Finset.range m.jobs.size) fun j => (m.job j).life = .runnable
  simpa [runnables] using this

/-- When a job has ended, `passOn` starts the next one, or the processor idles for those that wait,
or none is left. -/
theorem passOn_cases (hvacant : m.Vacant) (h : P m) (status : Word) :
    (∃ m₁ j m', m.passOn status = (.running, m') ∧ m₁.Vacant ∧ P m₁ ∧
      m₁.nextRunnable? = some j ∧ m₁.Starts j m') ∨
    (∃ m₁ m', m.passOn status = (.running, m') ∧ m₁.Vacant ∧ P m₁ ∧
      m₁.nextRunnable? = none ∧ m₁.hasWaiter = true ∧ m₁.Unloads m') ∨
    ∃ m₁, m.passOn status = (.exited status, m₁.note (.exiting status)) ∧ m₁.Vacant ∧ P m₁ ∧
      m₁.nextRunnable? = none ∧ m₁.hasWaiter = false := by
  unfold passOn
  rcases rotate_cases drop hvacant h with
    ⟨m₁, j, m', hrotate, hvacant₁, h₁, hnext, hstart⟩ | ⟨m₁, hrotate, hvacant₁, h₁, hnext⟩
  · exact .inl ⟨m₁, j, m', by rw [hrotate], hvacant₁, h₁, hnext, hstart⟩
  · rw [hrotate]
    by_cases hwait : m₁.hasWaiter = true
    · exact .inr (.inl ⟨m₁, m₁.unload, if_pos hwait, hvacant₁, h₁, hnext, hwait,
        unload_spec hvacant₁.wired hvacant₁.line⟩)
    · exact .inr (.inr ⟨m₁, if_neg hwait, hvacant₁, h₁, hnext, by simpa using hwait⟩)

end Rotation

/-- A job waits if and only if one in the job table does. -/
theorem hasWaiter_iff : m.hasWaiter = true ↔ ∃ j < m.jobs.size, (m.job j).life = .waiting := by
  simp only [hasWaiter, Array.any_eq_true, decide_eq_true_eq]
  constructor
  · rintro ⟨j, hj, hlife⟩
    exact ⟨j, hj, by simpa [job, hj] using hlife⟩
  · rintro ⟨j, hj, hlife⟩
    exact ⟨j, hj, by simpa [job, hj] using hlife⟩

end Machine

end BatchMachine
