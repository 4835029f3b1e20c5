import BatchMachine.Processor.Step

/-!
# What instructions do

An executed instruction changes registers, memory or the trap line of the processor, never its
image. Only a trap instruction and a fault put something on the trap line.

* `TrapLine.trap?_eq_none`, `TrapLine.isIdle_eq_false`: what is pending on a trap line.
* `Processor.program_step`: no instruction changes the image.
* `Processor.raise_of_evaluate`: the effect that raises a trap is that of a trap instruction.
* `Processor.trap_step`: what is on the trap line after an instruction.
-/

namespace BatchMachine

/-! ## Computations that may fail -/

section Except

variable {α β ε : Type} {x : Except ε α} {f : α → Except ε β} {b : β}

/-- If `x >>= f` gives a result, `x` gives one itself. -/
theorem ok_of_bind (h : x >>= f = .ok b) : ∃ a, x = .ok a ∧ f a = .ok b := by
  cases x with
  | error e => simp [bind, Except.bind] at h
  | ok a => exact ⟨a, rfl, h⟩

/-- If `x >>= f` ends in the error `e`, it does so in one of its parts. -/
theorem error_of_bind {e : ε} (h : x >>= f = .error e) :
    x = .error e ∨ ∃ a, x = .ok a ∧ f a = .error e := by
  cases x with
  | error e' => exact .inl (by simpa [bind, Except.bind] using h)
  | ok a => exact .inr ⟨a, rfl, h⟩

/-- A computation that begins with an error gives none. -/
@[simp]
theorem throw_bind_ne_ok {e : ε} : (throw e >>= f : Except ε β) ≠ .ok b := by
  simp [throw, throwThe, MonadExceptOf.throw, bind, Except.bind]

end Except

namespace TrapLine

variable {line : TrapLine} {trap : Trap}

/-- No trap has the number zero. -/
theorem trap?_eq_none (h : line.isIdle = true) : line.trap? = none := by
  have hzero : line.number = 0 := by simpa [isIdle] using h
  rw [trap?, hzero]
  rfl

/-- A `line` that carries a trap is not free. -/
theorem not_isIdle (h : line.trap? = some trap) : ¬ line.isIdle = true := by
  intro hidle
  rw [trap?_eq_none hidle] at h
  exact absurd h (by simp)

/-- Something is pending on a `line` that carries a trap. -/
theorem isIdle_eq_false (h : line.trap? = some trap) : line.isIdle = false :=
  Bool.eq_false_iff.2 (not_isIdle h)

/-- The number on a `line` that carries `trap` is that of `trap`. -/
theorem number_eq (h : line.trap? = some trap) : line.number = trap.code := by
  have hcode := List.find?_some h
  simpa using (of_decide_eq_true hcode).symm

end TrapLine

namespace Processor

variable {cpu : Processor} {e : Effect} {i : Instruction} {line : TrapLine}

/-- `cpu.step` does not change the image. -/
theorem program_step (cpu : Processor) : cpu.step.2.program = cpu.program := by
  unfold step
  cases cpu.fetch? with
  | none => rfl
  | some i =>
    simp only
    cases cpu.evaluate i with
    | error fault => rfl
    | ok effect => cases effect <;> rfl

/-- An instruction `i` that is executed comes from the image. -/
theorem mem_of_step (h : cpu.step.1 = .ok i) : i ∈ cpu.program := by
  unfold step at h
  cases hfetch : cpu.fetch? with
  | none => simp [hfetch] at h
  | some i' =>
    obtain ⟨n, _, hn⟩ := Option.bind_eq_some_iff.1 hfetch
    rw [hfetch] at h
    cases heval : cpu.evaluate i' with
    | error fault => simp [heval] at h
    | ok effect =>
      obtain rfl : i' = i := by simpa [heval] using h
      exact Array.mem_of_getElem? hn

/-! ## Traps -/

theorem ne_raise_of_assign {r value : Word} (h : assign r value = .ok e) : e ≠ .raise line := by
  unfold assign at h
  split at h
  · cases h
    simp
  · simp at h

theorem ne_raise_of_storeAt {address value : Word} (h : storeAt address value = .ok e) :
    e ≠ .raise line := by
  unfold storeAt at h
  split at h
  · cases h
    simp
  · simp at h

theorem ne_raise_of_divide {target source divisor : Word}
    (h : cpu.divide target source divisor = .ok e) : e ≠ .raise line := by
  unfold divide at h
  by_cases hzero : divisor = 0
  · rw [if_pos hzero] at h
    exact absurd h throw_bind_ne_ok
  · rw [if_neg hzero] at h
    obtain ⟨_, _, h⟩ := ok_of_bind h
    exact ne_raise_of_assign h

/-- If the effect of `i` is to raise `line`, then `i` is a trap instruction. -/
theorem raise_of_evaluate (h : cpu.evaluate i = .ok (.raise line)) :
    i.opcode = .trap ∧ line = ⟨i.first, i.second, 0⟩ := by
  unfold evaluate at h
  cases hop : i.opcode <;> rw [hop] at h
  case trap =>
    cases h
    exact ⟨rfl, rfl⟩
  -- the others come to one of the effects above once their sources have been read
  case nop | jmpi => simp [pure, Except.pure] at h
  case movi => exact absurd rfl (ne_raise_of_assign h)
  case divi => exact absurd rfl (ne_raise_of_divide h)
  case div =>
    obtain ⟨_, _, h⟩ := ok_of_bind h
    exact absurd rfl (ne_raise_of_divide h)
  case beqzi | bnezi | bnegi =>
    obtain ⟨_, _, h⟩ := ok_of_bind h
    simp only [branchIf, pure, Except.pure, Except.ok.injEq] at h
    split at h <;> simp at h
  case mov | addi | subi | muli | ldwi =>
    obtain ⟨_, _, h⟩ := ok_of_bind h
    exact absurd rfl (ne_raise_of_assign h)
  case add | sub | mul | ldw =>
    obtain ⟨_, _, h⟩ := ok_of_bind h
    obtain ⟨_, _, h⟩ := ok_of_bind h
    exact absurd rfl (ne_raise_of_assign h)
  case stwi =>
    obtain ⟨_, _, h⟩ := ok_of_bind h
    exact absurd rfl (ne_raise_of_storeAt h)
  case stw =>
    obtain ⟨_, _, h⟩ := ok_of_bind h
    obtain ⟨_, _, h⟩ := ok_of_bind h
    exact absurd rfl (ne_raise_of_storeAt h)

/-- After `cpu.step` the trap line is as it was, or it carries the trap of the instruction, or the
error of a fault. -/
theorem trap_step (cpu : Processor) :
    cpu.step.2.trap = cpu.trap ∨
    (∃ i, cpu.fetch? = some i ∧ i.opcode = .trap ∧ cpu.step.1 = .ok i ∧
      cpu.step.2.trap = ⟨i.first, i.second, 0⟩) ∨
    ((∃ fault, cpu.step.1 = .error fault) ∧ cpu.step.2.trap = .raise .fatal 0) := by
  unfold step
  cases hfetch : cpu.fetch? with
  | none => exact .inr (.inr ⟨⟨_, rfl⟩, rfl⟩)
  | some i =>
    simp only
    cases heval : cpu.evaluate i with
    | error fault => exact .inr (.inr ⟨⟨fault, rfl⟩, rfl⟩)
    | ok effect =>
      cases effect with
      | raise line =>
        obtain ⟨hop, rfl⟩ := raise_of_evaluate heval
        exact .inr (.inl ⟨i, rfl, hop, rfl, rfl⟩)
      | none | set _ _ | branch _ | store _ _ => exact .inl rfl

/-- A trap that `cpu.step` puts on the line tells of no failed transfer. -/
theorem status_step (cpu : Processor) :
    cpu.step.2.trap = cpu.trap ∨ cpu.step.2.trap.status = 0 := by
  rcases trap_step cpu with hsame | ⟨i, _, _, _, htrap⟩ | ⟨_, htrap⟩
  · exact .inl hsame
  · rw [htrap]
    exact .inr rfl
  · rw [htrap]
    exact .inr rfl

end Processor

end BatchMachine
