import Mathlib.Logic.Relation
import BatchMachine.Device.Numbering
import BatchMachine.Job
import BatchMachine.JobText.Segment
import BatchMachine.Proofs.Instructions

/-!
# A job that has the machine for itself

A job that runs alone needs neither devices nor a scheduler: a word that it reads is there at once,
and a word that it writes is written at once. The segments of the job run one after the other, each
from its first instruction on, with the registers that the one before has left.

* `Solo`: a segment of a job as it runs alone.
* `Solo.step`: it executes an instruction, or it acts on its trap.
* `Solo.run`, `Solo.runAll`: a segment until its end, and all segments of a job.
* `Solo.Leads`: one state leads to another.
* `Course`: how far a job has come that runs alone.
* `Processor.step_congr`: a program that does not load from memory does not depend on it.
-/

namespace BatchMachine

open JobText

/-- A segment of a job as it runs alone. -/
structure Solo where
  /-- The processor, for the job alone. -/
  cpu : Processor
  /-- The input words of the segment that have not been read yet. -/
  unread : List Word
  /-- The words that the segment has written. -/
  words : List Word

namespace Solo

variable {j : Nat} {s t u : Solo} {o : Outcome} {fuel more : Nat}

/-- `segment` at its start, on a processor as the segment before has left it. -/
def enter (cpu : Processor) (segment : Segment) : Solo where
  cpu := { cpu with
    program := segment.code.toArray, regs := cpu.regs.setPc 0, trap := .clear }
  unread := segment.input?.getD []
  words := []

/-- Act on the trap that is pending. A word is read into the register that the trap names, or
written from it; there is a word to read, or else the segment ends with the number of the input
device of job `j`. What is no trap, or names no register, becomes an error. -/
def serve (j : Nat) (s : Solo) : Option Outcome × Solo :=
  let line := s.cpu.trap
  match line.trap?, s.cpu.regs.get? line.data with
  | some .halt, value? => (some (.halted (value?.getD 0)), s)
  | some .fatal, _ => (some (.fatal line.data), s)
  | some .getw, some _ =>
    match s.unread with
    | [] => (some (.fatal (.ofCount (inputNumber j))), s)
    | w :: unread =>
      (none, { s with
        cpu := { s.cpu with regs := s.cpu.regs.set line.data w, trap := .clear }, unread })
  | some .putw, some value =>
    (none, { s with cpu := { s.cpu with trap := .clear }, words := s.words ++ [value] })
  | _, _ => (none, { s with cpu := s.cpu.fail })

/-- One step of `s`: the pending trap comes first, then the end of the code, then the next
instruction. The outcome is there when the segment ends. -/
def step (j : Nat) (s : Solo) : Option Outcome × Solo :=
  if s.cpu.trap.isIdle then
    if s.cpu.atEnd then (some .completed, s) else (none, { s with cpu := s.cpu.step.2 })
  else s.serve j

/-- Run a segment until its end, with at most `fuel` steps. -/
def run (j : Nat) : Nat → Solo → Option (Outcome × Solo)
  | 0, _ => none
  | fuel + 1, s =>
    match s.step j with
    | (some o, s) => some (o, s)
    | (none, s) => s.run j fuel

/-- Run segments one after the other, each with at most `fuel` steps. The answer is how each of them
ended and what it wrote, and the processor as the last one left it. -/
def runAll (j fuel : Nat) (cpu : Processor) :
    List Segment → Option (List (Outcome × List Word) × Processor)
  | [] => some ([], cpu)
  | segment :: segments => do
    let (o, s) ← (enter cpu segment).run j fuel
    let (results, cpu) ← runAll j fuel s.cpu segments
    return ((o, s.words) :: results, cpu)

/-- One state of a segment of job `j` leads to another. -/
def Leads (j : Nat) : Solo → Solo → Prop :=
  Relation.ReflTransGen fun s t => s.step j = (none, t)

/-! ## Fuel -/

/-- `run` gives the same with more fuel. -/
theorem run_add (h : s.run j fuel = some (o, t)) : s.run j (fuel + more) = some (o, t) := by
  induction fuel generalizing s with
  | zero => simp [run] at h
  | succ fuel ih =>
    rw [Nat.succ_add]
    unfold run at h ⊢
    rcases hstep : s.step j with ⟨_ | o', s'⟩
    · simp only [hstep] at h ⊢
      exact ih h
    · simp only [hstep] at h ⊢
      exact h

theorem run_le (h : s.run j fuel = some (o, t)) (hle : fuel ≤ more) :
    s.run j more = some (o, t) := by
  obtain ⟨n, rfl⟩ := Nat.exists_eq_add_of_le hle
  exact run_add h

/-- `runAll` gives a result if the first segment comes to its end and the others give one. -/
theorem runAll_cons {cpu cpu' : Processor} {segment : Segment} {segments : List Segment}
    {results : List (Outcome × List Word)} :
    runAll j fuel cpu (segment :: segments) = some (results, cpu') ↔
      ∃ o s rest, (enter cpu segment).run j fuel = some (o, s) ∧
        runAll j fuel s.cpu segments = some (rest, cpu') ∧ results = (o, s.words) :: rest := by
  simp only [runAll, Option.bind_eq_bind, Option.bind_eq_some_iff, Option.pure_def,
    Option.some.injEq, Prod.mk.injEq, Prod.exists]
  constructor
  · rintro ⟨o, s, hrun, rest, _, hrest, rfl, rfl⟩
    exact ⟨o, s, rest, hrun, hrest, rfl⟩
  · rintro ⟨o, s, rest, hrun, hrest, rfl⟩
    exact ⟨o, s, hrun, rest, cpu', hrest, rfl, rfl⟩

/-- Each of `segments` has its result. -/
theorem length_runAll {cpu cpu' : Processor} {segments : List Segment}
    {results : List (Outcome × List Word)}
    (h : runAll j fuel cpu segments = some (results, cpu')) :
    results.length = segments.length := by
  induction segments generalizing cpu results with
  | nil =>
    cases h
    rfl
  | cons segment segments ih =>
    obtain ⟨o, s, rest, _, hrest, rfl⟩ := runAll_cons.1 h
    rw [List.length_cons, List.length_cons, ih hrest]

theorem runAll_le {cpu cpu' : Processor} {segments : List Segment}
    {results : List (Outcome × List Word)}
    (h : runAll j fuel cpu segments = some (results, cpu')) (hle : fuel ≤ more) :
    runAll j more cpu segments = some (results, cpu') := by
  induction segments generalizing cpu results with
  | nil => exact h
  | cons segment segments ih =>
    obtain ⟨o, s, rest, hrun, hrest, rfl⟩ := runAll_cons.1 h
    exact runAll_cons.2 ⟨o, s, rest, run_le hrun hle, ih hrest, rfl⟩

/-- The last `segment` runs after the others. -/
theorem runAll_concat {cpu cpu' : Processor} {segments : List Segment} {segment : Segment}
    {results : List (Outcome × List Word)}
    (h : runAll j fuel cpu segments = some (results, cpu'))
    (hlast : (enter cpu' segment).run j fuel = some (o, s)) :
    runAll j fuel cpu (segments ++ [segment]) = some (results ++ [(o, s.words)], s.cpu) := by
  induction segments generalizing cpu results with
  | nil =>
    cases h
    exact runAll_cons.2 ⟨o, s, [], hlast, rfl, rfl⟩
  | cons first segments ih =>
    obtain ⟨o', s', rest, hrun, hrest, rfl⟩ := runAll_cons.1 h
    exact runAll_cons.2 ⟨o', s', _, hrun, ih hrest, rfl⟩

/-- A state `s` that leads to `t`, where the segment ends, comes to this end. -/
theorem Leads.run (h : Leads j s t) (hend : t.step j = (some o, u)) :
    ∃ fuel, s.run j fuel = some (o, u) := by
  -- a run begins with the first step, so the induction takes steps off at this end
  induction h using Relation.ReflTransGen.head_induction_on with
  | refl =>
    refine ⟨1, ?_⟩
    rw [Solo.run, hend]
  | head hstep _ ih =>
    obtain ⟨fuel, hfuel⟩ := ih
    refine ⟨fuel + 1, ?_⟩
    rw [Solo.run, hstep]
    exact hfuel

/-- A `segment` whose first state leads to its end comes after those before it. -/
theorem Leads.runAll {cpu cpu' : Processor} {segments : List Segment} {segment : Segment}
    {results : List (Outcome × List Word)}
    (hbefore : ∃ fuel, runAll j fuel cpu segments = some (results, cpu'))
    (h : Leads j (enter cpu' segment) t) (hend : t.step j = (some o, u)) :
    ∃ fuel, Solo.runAll j fuel cpu (segments ++ [segment]) =
      some (results ++ [(o, u.words)], u.cpu) := by
  obtain ⟨n, hn⟩ := hbefore
  obtain ⟨n', hn'⟩ := h.run hend
  refine ⟨max n n', runAll_concat (runAll_le hn (Nat.le_max_left _ _)) ?_⟩
  exact run_le hn' (Nat.le_max_right _ _)

/-! ## Steps -/

/-- `step` serves what is pending. -/
theorem step_of_trap {trap : Trap} (htrap : s.cpu.trap.trap? = some trap) :
    s.step j = s.serve j := by
  rw [step, TrapLine.isIdle_eq_false htrap]
  rfl

/-- `step` ends the segment when it halts. -/
theorem step_halt (htrap : s.cpu.trap.trap? = some .halt) :
    s.step j = (some (.halted ((s.cpu.regs.get? s.cpu.trap.data).getD 0)), s) := by
  rw [step_of_trap htrap, serve, htrap]

/-- `step` ends the segment with an error. -/
theorem step_fatal (htrap : s.cpu.trap.trap? = some .fatal) :
    s.step j = (some (.fatal s.cpu.trap.data), s) := by
  rw [step_of_trap htrap, serve, htrap]

/-- `step` reads a word `w`. -/
theorem step_getw (htrap : s.cpu.trap.trap? = some .getw)
    (hregister : (s.cpu.regs.get? s.cpu.trap.data).isSome = true) {w : Word} {unread : List Word}
    (hunread : s.unread = w :: unread) :
    s.step j = (none, { s with
      cpu := { s.cpu with regs := s.cpu.regs.set s.cpu.trap.data w, trap := .clear }
      unread }) := by
  obtain ⟨value, hvalue⟩ := Option.isSome_iff_exists.1 hregister
  rw [step_of_trap htrap, serve, htrap, hvalue, hunread]

/-- `step` ends the segment when there is no word to read. -/
theorem step_getw_nil (htrap : s.cpu.trap.trap? = some .getw)
    (hregister : (s.cpu.regs.get? s.cpu.trap.data).isSome = true) (hunread : s.unread = []) :
    s.step j = (some (.fatal (.ofCount (inputNumber j))), s) := by
  obtain ⟨value, hvalue⟩ := Option.isSome_iff_exists.1 hregister
  rw [step_of_trap htrap, serve, htrap, hvalue, hunread]

/-- `step` writes the word `value`. -/
theorem step_putw (htrap : s.cpu.trap.trap? = some .putw) {value : Word}
    (hvalue : s.cpu.regs.get? s.cpu.trap.data = some value) :
    s.step j =
      (none, { s with cpu := { s.cpu with trap := .clear }, words := s.words ++ [value] }) := by
  rw [step_of_trap htrap, serve, htrap, hvalue]

/-- `step` makes what is no trap an error. -/
theorem step_unknown (hline : s.cpu.trap.isIdle = false) (htrap : s.cpu.trap.trap? = none) :
    s.step j = (none, { s with cpu := s.cpu.fail }) := by
  rw [step, hline, serve, htrap]
  rfl

/-- `step` makes a request that names no register an error. -/
theorem step_misuse {trap : Trap} (htrap : s.cpu.trap.trap? = some trap)
    (hrequest : trap = .getw ∨ trap = .putw) (hvalue : s.cpu.regs.get? s.cpu.trap.data = none) :
    s.step j = (none, { s with cpu := s.cpu.fail }) := by
  rw [step_of_trap htrap, serve, htrap, hvalue]
  rcases hrequest with rfl | rfl <;> rfl

/-- `step` ends the segment at the end of its code. -/
theorem step_atEnd (hline : s.cpu.trap.isIdle = true) (hend : s.cpu.atEnd = true) :
    s.step j = (some .completed, s) := by
  rw [step, if_pos hline, if_pos hend]

/-- `step` executes an instruction. -/
theorem step_execute (hline : s.cpu.trap.isIdle = true) (hend : s.cpu.atEnd = false) :
    s.step j = (none, { s with cpu := s.cpu.step.2 }) := by
  rw [step, if_pos hline, hend]
  rfl

/-- `step` keeps the program of the segment. -/
theorem program_step (hstep : s.step j = (none, t)) : t.cpu.program = s.cpu.program := by
  unfold step at hstep
  split at hstep
  · split at hstep
    · simp at hstep
    · cases hstep
      exact Processor.program_step _
  · -- whether there is a word to read is looked at last
    unfold serve at hstep
    rcases hunread : s.unread with _ | ⟨w, unread⟩ <;> simp only [hunread] at hstep <;>
      split at hstep <;> cases hstep <;> rfl

theorem Leads.program (h : Leads j s t) : t.cpu.program = s.cpu.program := by
  induction h with
  | refl => rfl
  | tail _ hstep ih => exact (program_step hstep).trans ih

end Solo

/-- How far job `j` has come when it runs alone: the segments that have ended and their results, the
segment that runs and its state, and the segments that follow. -/
structure Course (j : Nat) where
  /-- The segments that have ended. -/
  before : List Segment
  /-- How each of them ended, and what it wrote. -/
  results : List (Outcome × List Word)
  /-- The segment that runs. -/
  segment : Segment
  /-- Its state. -/
  solo : Solo
  /-- The segments that follow. -/
  after : List Segment
  /-- The segments before have run, and the one that runs has come to its state. -/
  leads : ∃ cpu, (∃ fuel, Solo.runAll j fuel .new before = some (results, cpu)) ∧
    Solo.Leads j (.enter cpu segment) solo

namespace Course

variable {j : Nat} {s : Solo} {o : Outcome}

/-- All segments of `c`. -/
def segments (c : Course j) : List Segment :=
  c.before ++ c.segment :: c.after

/-- Job `j` at the start of its first segment. -/
def first (j : Nat) (segment : Segment) (after : List Segment) : Course j where
  before := []
  results := []
  segment
  solo := .enter .new segment
  after
  leads := ⟨.new, ⟨0, rfl⟩, .refl⟩

theorem solo_first (j : Nat) (segment : Segment) (after : List Segment) :
    (first j segment after).solo = .enter .new segment := rfl

/-- The course `c` after a step in its segment. -/
def step (c : Course j) (hstep : c.solo.step j = (none, s)) : Course j where
  before := c.before
  results := c.results
  segment := c.segment
  solo := s
  after := c.after
  leads := by
    obtain ⟨cpu, hbefore, hleads⟩ := c.leads
    exact ⟨cpu, hbefore, hleads.tail hstep⟩

/-- The course `c` after the step from its segment to the next. -/
def next (c : Course j) (hend : c.solo.step j = (some o, s)) (segment : Segment)
    (after : List Segment) : Course j where
  before := c.before ++ [c.segment]
  results := c.results ++ [(o, s.words)]
  segment
  solo := .enter s.cpu segment
  after
  leads := by
    obtain ⟨cpu, hbefore, hleads⟩ := c.leads
    exact ⟨s.cpu, hleads.runAll hbefore hend, .refl⟩

theorem segments_next (c : Course j) (hend : c.solo.step j = (some o, s)) {segment : Segment}
    {after : List Segment} (hafter : c.after = segment :: after) :
    (c.next hend segment after).segments = c.segments := by
  simp [segments, next, hafter]

/-- Each segment of `c` that has ended has its result. -/
theorem length_results (c : Course j) : c.results.length = c.before.length := by
  obtain ⟨cpu, ⟨fuel, hbefore⟩, _⟩ := c.leads
  exact Solo.length_runAll hbefore

theorem program (c : Course j) : c.solo.cpu.program = c.segment.code.toArray := by
  obtain ⟨cpu, _, hleads⟩ := c.leads
  exact hleads.program

/-- When the last segment of `c` has ended all segments have their results. -/
theorem runAll (c : Course j) (hend : c.solo.step j = (some o, s)) (hlast : c.after = []) :
    ∃ fuel, Solo.runAll j fuel .new c.segments =
      some (c.results ++ [(o, s.words)], s.cpu) := by
  obtain ⟨cpu, hbefore, hleads⟩ := c.leads
  rw [segments, hlast]
  exact hleads.runAll hbefore hend

end Course

/-! ## Programs that do not load from memory -/

/-- The instruction `i` reads data memory. -/
def Instruction.loads (i : Instruction) : Bool :=
  i.opcode = .ldw || i.opcode = .ldwi

namespace Processor

variable {a b : Processor} {i : Instruction}

/-- What an instruction `i` that does not load does depends on the registers alone. -/
theorem evaluate_congr (hregs : a.regs = b.regs) (hloads : i.loads = false) :
    a.evaluate i = b.evaluate i := by
  have hregister : ∀ r, a.register r = b.register r := by
    intro r
    rw [register, register, hregs]
  have hdivide : ∀ target source divisor,
      a.divide target source divisor = b.divide target source divisor := by
    intro target source divisor
    rw [divide, divide, hregister]
  simp only [Instruction.loads, Bool.or_eq_false_iff, decide_eq_false_iff_not] at hloads
  unfold evaluate
  cases hop : i.opcode with
  | ldw => exact absurd hop hloads.1
  | ldwi => exact absurd hop hloads.2
  | div | divi => simp only [hregister, hdivide]
  | _ => simp only [hregister]

/-- `a` and `b` with the same registers and the same program that does not load, and with nothing
pending, execute the same instruction and go on with the same registers and the same trap. -/
theorem step_congr (hregs : a.regs = b.regs) (hprogram : a.program = b.program)
    (hloads : ∀ i ∈ a.program, i.loads = false) :
    a.step.2.regs = b.step.2.regs ∧
      (a.step.2.trap = b.step.2.trap ∨ a.step.2.trap = a.trap ∧ b.step.2.trap = b.trap) := by
  have hfetch : a.fetch? = b.fetch? := by
    rw [fetch?, fetch?, hregs, hprogram]
  unfold step
  rw [← hfetch]
  cases hi : a.fetch? with
  | none => exact ⟨hregs, .inl rfl⟩
  | some i =>
    have hmem : i ∈ a.program := by
      rw [fetch?] at hi
      obtain ⟨n, _, hn⟩ := Option.bind_eq_some_iff.1 hi
      exact Array.mem_of_getElem? hn
    simp only
    rw [← evaluate_congr hregs (hloads i hmem)]
    cases a.evaluate i with
    | error fault => exact ⟨congrArg Registers.advance hregs, .inl rfl⟩
    | ok effect =>
      cases effect with
      -- what is stored shows in no register, and nothing loads it later
      | none | store _ _ => exact ⟨congrArg Registers.advance hregs, .inr ⟨rfl, rfl⟩⟩
      | set r value =>
        exact ⟨congrArg (fun regs => (regs.set r value).advance) hregs, .inr ⟨rfl, rfl⟩⟩
      | branch offset =>
        exact ⟨congrArg (fun regs => (regs.branch offset).advance) hregs, .inr ⟨rfl, rfl⟩⟩
      | raise line => exact ⟨congrArg Registers.advance hregs, .inl rfl⟩

theorem atEnd_congr (hregs : a.regs = b.regs) (hprogram : a.program = b.program) :
    a.atEnd = b.atEnd := by
  rw [atEnd, atEnd, hregs, hprogram]

end Processor

end BatchMachine
