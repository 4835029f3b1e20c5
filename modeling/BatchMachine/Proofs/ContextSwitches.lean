import Mathlib.Logic.Relation
import BatchMachine.Proofs.FailedActivations

/-!
# Context switches

A switch saves the registers and the trap line of the job that runs in its slot, and loads those of
the next job from its own. While a job does not run its slot is nobody's but its own, so that it
finds what it had when it gets the processor again, whatever other jobs do with the processor in
the meantime.

* `Machine.Hosts`: the processor works for a job.
* `Machine.Meanwhile`: what may happen while the job does not run.
* `Machine.Keeps`: a job that does not run has its state in its slot.
* `Machine.switches_restore`: switches save and restore exactly.
-/

namespace BatchMachine

open JobText Relation

namespace Machine

variable {m m₁ m₂ m' : Machine} {a i j k : Nat}

/-- The processor of `m` works for job `a`, which has been booted and whose image fits. -/
structure Hosts (m : Machine) (a : Nat) : Prop where
  lt : a < m.jobs.size
  runs : m.runs a = true
  booted : (m.job a).boot = .booted
  program : m.hardware.cpu.program = (m.job a).image
  fits : (m.job a).image.size ≤ imageLimit

/-- Along a run the processor works for the job `a` that runs. -/
theorem Run.hosts {jobs : List (Job × Option Reader)} {config : Config} {files : Files}
    {journal : Journal} {first : Machine} {past : List Machine}
    (hlaunch : Launches jobs config files journal first) (hrun : Run first .running past m)
    (hruns : m.runs a = true) : m.Hosts a := by
  have hsound := (hrun.sound hlaunch.sound).2 rfl
  obtain ⟨hidle, rfl⟩ := runs_eq_true_iff.1 hruns
  exact ⟨hsound.wired.current, hruns, (hsound.of_runs hruns).2, hsound.wired.program hidle,
    (hsound.job _ hsound.wired.current).fits⟩

/-- What may happen to a machine while job `a` does not run: the machine switches to another job, or
it changes in any other way that leaves the job out of the processor and what is saved of it in its
slot. The latter also covers every change of the processor. -/
inductive Meanwhile (a : Nat) : Machine → Machine → Prop
  /-- Another job, `j`, is activated. -/
  | switches {m m' : Machine} {j : Nat} : j < m.jobs.size → j ≠ a →
      m.activate j = (.ok (), m') → Meanwhile a m m'
  /-- The machine works, with no transfer and no segment of the job involved. -/
  | works {m m' : Machine} : m'.jobs.size = m.jobs.size → m'.runs a = false →
      (m'.job a).registers = (m.job a).registers → (m'.job a).trap = (m.job a).trap →
      (m'.job a).image = (m.job a).image → (m'.job a).boot = (m.job a).boot → Meanwhile a m m'

/-- Job `a`, which has been booted, does not run, and what `cpu` had of it is in its slot. -/
structure Keeps (a : Nat) (cpu : Processor) (m : Machine) : Prop where
  lt : a < m.jobs.size
  out : m.runs a = false
  booted : (m.job a).boot = .booted
  registers : (m.job a).registers = cpu.regs
  trap : (m.job a).trap = cpu.trap
  image : (m.job a).image = cpu.program

/-- When the machine switches to another job `j`, the job `a` that ran is saved. -/
theorem Hosts.keeps (h : m.Hosts a) (hne : j ≠ a) (hswitches : m.SwitchesTo j m') :
    Keeps a m.hardware.cpu m' := by
  obtain ⟨hbusy, rfl⟩ := runs_eq_true_iff.1 h.runs
  have hsaved := hswitches.saves hbusy h.lt
  constructor
  case lt => exact hswitches.size.symm ▸ h.lt
  case out => exact hswitches.runs_eq_false hne
  case booted =>
    rw [hsaved]
    exact h.booted
  case registers => rw [hsaved]
  case trap => rw [hsaved]
  case image =>
    rw [hsaved]
    exact h.program.symm

/-- Job `a` is kept by every change that leaves it out of the processor and these parts of its slot
alone. -/
theorem Keeps.of_same {cpu : Processor} (h : Keeps a cpu m) (hsize : m'.jobs.size = m.jobs.size)
    (hout : m'.runs a = false) (hregisters : (m'.job a).registers = (m.job a).registers)
    (htrap : (m'.job a).trap = (m.job a).trap) (himage : (m'.job a).image = (m.job a).image)
    (hboot : (m'.job a).boot = (m.job a).boot) : Keeps a cpu m' where
  lt := hsize.symm ▸ h.lt
  out := hout
  booted := hboot.trans h.booted
  registers := hregisters.trans h.registers
  trap := htrap.trans h.trap
  image := himage.trans h.image

/-- Whatever happens meanwhile, job `a` is kept. -/
theorem Keeps.meanwhile {cpu : Processor} (h : Keeps a cpu m) (hmean : Meanwhile a m m') :
    Keeps a cpu m' := by
  cases hmean with
  | switches hj hne hact =>
    rcases activate_inv hj hact with ⟨-, -, rfl⟩ | ⟨-, -, hswitches⟩ | ⟨-, ⟨e, herror⟩, -⟩
    · exact h.of_same rfl h.out rfl rfl rfl rfl
    -- the job neither makes room nor gets the processor, so that its slot is left alone
    · have hsame : m'.job a = m.job a := hswitches.job a (Ne.symm hne) h.out
      apply h.of_same hswitches.size (hswitches.runs_eq_false hne)
      all_goals rw [hsame]
    · simp at herror
  | works hsize hout hregisters htrap himage hboot =>
    exact h.of_same hsize hout hregisters htrap himage hboot

theorem Keeps.along {cpu : Processor} (h : Keeps a cpu m)
    (hmean : ReflTransGen (Meanwhile a) m m') : Keeps a cpu m' := by
  -- what is kept of the job is the invariant of every such run
  induction hmean with
  | refl => exact h
  | tail _ hstep ih => exact ih.meanwhile hstep

/-- If job `a` is kept it gets back what `cpu` had of it. -/
theorem Keeps.restores {cpu : Processor} (h : Keeps a cpu m)
    (hfits : cpu.program.size ≤ imageLimit) :
    ∃ m', m.activate a = (.ok (), m') ∧ m'.runs a = true ∧ m'.hardware.cpu.regs = cpu.regs ∧
      m'.hardware.cpu.trap = cpu.trap ∧ m'.hardware.cpu.program = cpu.program := by
  obtain ⟨m', hact, hswitches⟩ := switchesTo_of_booted h.lt h.out h.booted (h.image ▸ hfits)
  -- the job is not booted again, so that the processor is loaded from what has been kept
  have hslot : m'.job a = m.job a := hswitches.resumes h.booted
  refine ⟨m', hact, hswitches.runs.2 rfl, ?_, ?_, ?_⟩
  · rw [hswitches.cpu, hslot]
    exact h.registers
  · rw [hswitches.cpu, hslot]
    exact h.trap
  · rw [hswitches.cpu, hslot]
    exact h.image

/-- What an activation of job `j` does that succeeds, from `m` to `m'`. -/
structure SwitchedCleanly (m : Machine) (j : Nat) (m' : Machine) : Prop where
  /-- Nothing but the journal changes if the job runs already. -/
  already : m.runs j = true → m' = { m with journal := m'.journal }
  /-- A switch to another job is counted. -/
  counted : m.runs j = false → m'.switches = m.switches + 1
  /-- The data memory is left alone. -/
  memory : m'.hardware.cpu.mem = m.hardware.cpu.mem
  /-- Job `k`, which makes room, is saved, and nothing else of it changes. -/
  saved : ∀ k < m.jobs.size, m.runs j = false → m.runs k = true → m'.job k =
    { m.job k with registers := m.hardware.cpu.regs, trap := m.hardware.cpu.trap }
  /-- No other slot changes, except that of job `j` if it is booted. -/
  others : ∀ k, m.runs k = false → ¬ (k = j ∧ (m.job j).boot = .fresh) → m'.job k = m.job k

theorem switchedCleanly_of_activate (hj : j < m.jobs.size) (hact : m.activate j = (.ok (), m')) :
    m.SwitchedCleanly j m' := by
  rcases activate_inv hj hact with ⟨hrun, -, rfl⟩ | ⟨hrun, -, hswitches⟩ | ⟨-, ⟨e, herror⟩, -⟩
  · have hnot : m.runs j ≠ false := by simp [hrun]
    exact ⟨fun _ => rfl, fun h => absurd h hnot, rfl, fun _ _ h => absurd h hnot, fun _ _ _ => rfl⟩
  · constructor
    case already => exact fun h => absurd (hrun.symm.trans h) (by decide)
    case counted => exact fun _ => hswitches.switches
    case memory => rw [hswitches.cpu]
    case saved =>
      intro k hk _ hruns
      obtain ⟨hbusy, rfl⟩ := runs_eq_true_iff.1 hruns
      exact hswitches.saves hbusy hk
    case others =>
      intro k hout hnew
      by_cases hkj : k = j
      -- the job that gets the processor has been booted before
      · subst hkj
        apply hswitches.resumes
        cases hboot : (m.job k).boot with
        | fresh => exact absurd ⟨rfl, hboot⟩ hnew
        | booted => rfl
      · exact hswitches.job k hkj hout
  · simp at herror

/-- When `m` switches from job `a` to another one, and then to others, with any work in between that
neither delivers anything to `a` nor loads a segment of it, then it can switch back to `a`, which
finds the registers, the trap line and the program that it left. Every successful activation on the
way and elsewhere is clean. -/
theorem switches_restore (hhosts : m.Hosts a) (hj : j < m.jobs.size) (hne : j ≠ a)
    (hout : m.activate j = (.ok (), m₁)) (hmean : ReflTransGen (Meanwhile a) m₁ m₂) :
    (∃ m₃, m₂.activate a = (.ok (), m₃) ∧ m₃.runs a = true ∧
      m₃.hardware.cpu.regs = m.hardware.cpu.regs ∧ m₃.hardware.cpu.trap = m.hardware.cpu.trap ∧
      m₃.hardware.cpu.program = m.hardware.cpu.program) ∧
    ∀ (x x' : Machine) (i : Nat), i < x.jobs.size → x.activate i = (.ok (), x') →
      x.SwitchedCleanly i x' := by
  refine ⟨?_, fun x x' i hi hact => switchedCleanly_of_activate hi hact⟩
  have hkeeps : Keeps a m.hardware.cpu m₁ := by
    rcases activate_inv hj hout with ⟨hrun, -⟩ | ⟨-, -, hswitches⟩ | ⟨-, ⟨e, herror⟩, -⟩
    -- only one job runs at a time
    · have hcurrent := (runs_eq_true_iff.1 hrun).2.symm.trans (runs_eq_true_iff.1 hhosts.runs).2
      exact absurd hcurrent hne
    · exact hhosts.keeps hne hswitches
    · simp at herror
  exact (hkeeps.along hmean).restores (hhosts.program ▸ hhosts.fits)

/-- Three jobs after their start and one tick, when the first one has put a request on the trap
line. The machine switches to the third one, which executes an instruction, and back again. -/
theorem switches_restore_turn :
    ∃ m₁ m₃ : Machine, (tickUpTo 1 turnFirst).2.activate 2 = (.ok (), m₁) ∧
      (m₁.modifyCpu fun cpu => cpu.step.2).activate 0 = (.ok (), m₃) ∧
      m₃.hardware.cpu.regs = (tickUpTo 1 turnFirst).2.hardware.cpu.regs ∧
      m₃.hardware.cpu.trap.isIdle = false := by
  have hstate : (tickUpTo 1 turnFirst).1 = none ∧ (tickUpTo 1 turnFirst).2.runs 0 = true ∧
      2 < (tickUpTo 1 turnFirst).2.jobs.size ∧
      (tickUpTo 1 turnFirst).2.hardware.cpu.trap.isIdle = false ∧
      ((tickUpTo 1 turnFirst).2.activate 2).1 = .ok () ∧
      ((tickUpTo 1 turnFirst).2.activate 2).2.runs 0 = false := by
    decide +kernel
  obtain ⟨hnone, hruns, hlt, hline, hok, hout⟩ := hstate
  obtain ⟨past, hrun, -⟩ := run_of_tickUpTo hnone
  have hact : (tickUpTo 1 turnFirst).2.activate 2 =
      (.ok (), ((tickUpTo 1 turnFirst).2.activate 2).2) := Prod.ext hok rfl
  have hworks : Meanwhile 0 ((tickUpTo 1 turnFirst).2.activate 2).2
      (((tickUpTo 1 turnFirst).2.activate 2).2.modifyCpu fun cpu => cpu.step.2) :=
    .works rfl hout rfl rfl rfl rfl
  obtain ⟨⟨m₃, hback, -, hregs, htrap, -⟩, -⟩ := switches_restore (hrun.hosts launches_turn hruns)
    hlt (by decide) hact (.single hworks)
  exact ⟨_, m₃, hact, hback, hregs, htrap ▸ hline⟩

end Machine

end BatchMachine
