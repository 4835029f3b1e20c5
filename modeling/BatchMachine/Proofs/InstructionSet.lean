import Mathlib.Logic.Function.Basic
import BatchMachine.Proofs.Instructions

/-!
# The instruction set

The twenty operations, told by what they do to the numbers in registers and memory. An operation
reads its operands in the state before it, and its result wraps around to a word. Register zero is
the program counter like any other register, and it is incremented when everything else is done.

* `Processor.Means`: the effect of an instruction, one rule for each kind of operation.
* `Processor.Blames`: what can be wrong with an instruction.
* `Processor.means_iff`, `Processor.blames_of_evaluate`: evaluating an instruction finds its effect,
  or something that is wrong with it.
* `Processor.Finishes`: what registers, memory and trap line hold after an instruction.
* `Processor.step_follows`: every step follows the instruction set, and a step that fails changes
  nothing but the trap line, the program counter and the count of instructions.
-/

namespace BatchMachine

/-! ## Operations -/

/-- `r` is the number of a register. -/
def IsRegister (r : Word) : Prop := 0 ≤ r.toInt ∧ r.toInt < 32

/-- `a` is an address of the data memory. -/
def IsAddress (a : Word) : Prop := 0 ≤ a.toInt ∧ a.toInt < 1024

/-- The kinds of arithmetic. -/
inductive Arithmetic where
  /-- Addition. -/
  | add
  /-- Subtraction. -/
  | sub
  /-- Multiplication. -/
  | mul
  /-- Division. -/
  | div

namespace Arithmetic

/-- The result for `x` and `y` on whole numbers, before it wraps around. Division truncates toward
zero. -/
def value : Arithmetic → Int → Int → Int
  | add, x, y => x + y
  | sub, x, y => x - y
  | mul, x, y => x * y
  | div, x, y => x.tdiv y

/-- The operation accepts the word `y` as its second number: nothing is divided by zero. -/
def Accepts : Arithmetic → Word → Prop
  | div, y => y ≠ 0
  | _, _ => True

/-- The opcode of the operation that takes its second number from a register. -/
def onRegister : Arithmetic → Opcode
  | add => .add
  | sub => .sub
  | mul => .mul
  | div => .div

/-- The opcode of the operation whose second number is a literal. -/
def onLiteral : Arithmetic → Opcode
  | add => .addi
  | sub => .subi
  | mul => .muli
  | div => .divi

/-- The operation on the words `x` and `y`. -/
def onWords : Arithmetic → Word → Word → Word
  | add, x, y => x + y
  | sub, x, y => x - y
  | mul, x, y => x * y
  | div, x, y => x / y

/-- `op` on words is `op` on their values, wrapped around. -/
theorem ofInt_value (op : Arithmetic) (x y : Word) :
    Int32.ofInt (op.value x.toInt y.toInt) = op.onWords x y := by
  cases op with
  | add | sub | mul => simp [value, onWords]
  | div => rw [value, onWords, ← Int32.toInt_inj, Int32.toInt_div, Int32.toInt_ofInt]

end Arithmetic

/-- The conditions of branches. -/
inductive Condition where
  /-- The word is zero. -/
  | zero
  /-- The word is not zero. -/
  | nonzero
  /-- The word is negative. -/
  | negative

namespace Condition

/-- The word `x` meets the condition. -/
def Holds : Condition → Word → Prop
  | zero, x => x.toInt = 0
  | nonzero, x => x.toInt ≠ 0
  | negative, x => x.toInt < 0

instance (condition : Condition) (x : Word) : Decidable (condition.Holds x) :=
  match condition with
  | zero => inferInstanceAs (Decidable (x.toInt = 0))
  | nonzero => inferInstanceAs (Decidable (x.toInt ≠ 0))
  | negative => inferInstanceAs (Decidable (x.toInt < 0))

/-- The opcode of the branch that is taken under the condition. -/
def branch : Condition → Opcode
  | zero => .beqzi
  | nonzero => .bnezi
  | negative => .bnegi

end Condition

/-- The registers that the instruction `i` names, to read them or to set them. -/
def Instruction.registers (i : Instruction) : List Word :=
  match i.opcode with
  | .nop | .jmpi | .trap => []
  | .movi | .beqzi | .bnezi | .bnegi | .ldwi | .stwi => [i.first]
  | .mov | .addi | .subi | .muli | .divi | .ldw | .stw => [i.first, i.second]
  | .add | .sub | .mul | .div => [i.first, i.second, i.third]

namespace Registers

/-- `Registers.setPc` sets register zero. -/
theorem setPc_eq (regs : Registers) (value : Word) : regs.setPc value = regs.set 0 value := by
  rw [setPc, set, show Word.index? 0 = some 0 from rfl]
  congr 1
  ext i hi
  rw [Vector.getElem_set, Vector.getElem_setIfInBounds]

/-- A branch by `offset` moves register zero and leaves the others. -/
theorem get?_branch (regs : Registers) (offset r : Word) :
    (regs.branch offset).get? r =
      if r = 0 then (regs.get? 0).map (· + offset) else regs.get? r := by
  rw [branch, setPc_eq, get?_set, get?_zero]
  simp [show has 0 = true from rfl, eq_comm]

end Registers

namespace Effect

/-- What the registers hold once an effect has taken place, by their numbers, if they held
`before`. -/
def registers (before : Word → Option Word) : Effect → Word → Option Word
  | set r value => Function.update before r (some value)
  | branch offset => Function.update before 0 ((before 0).map (· + offset))
  | _ => before

/-- What the memory holds once an effect has taken place, by its addresses, if it held `before`. -/
def cells (before : Word → Option Word) : Effect → Word → Option Word
  | store a value => Function.update before a (some value)
  | _ => before

/-- What is on the trap line once an effect has taken place, if `before` was on it. -/
def line (before : TrapLine) : Effect → TrapLine
  | raise line => line
  | _ => before

end Effect

namespace Processor

/-- The number that `i` divides by. -/
def divisor? (cpu : Processor) (i : Instruction) : Option Word :=
  match i.opcode with
  | .div => cpu.regs.get? i.third
  | .divi => some i.third
  | _ => none

/-- The data address that `i` reads or writes. -/
def address? (cpu : Processor) (i : Instruction) : Option Word :=
  match i.opcode with
  | .ldwi | .stwi => some i.second
  | .ldw | .stw => cpu.regs.get? i.second
  | _ => none

/-- What an instruction does, as an `Effect`, given the registers and the memory of `cpu` before
it. -/
inductive Means (cpu : Processor) : Instruction → Effect → Prop
  /-- Nothing. -/
  | nop {a b c : Word} : Means cpu ⟨.nop, a, b, c⟩ .none
  /-- The register `source` is copied to `target`. -/
  | mov {target source c x : Word} (hsource : cpu.regs.get? source = some x)
      (htarget : IsRegister target) : Means cpu ⟨.mov, target, source, c⟩ (.set target x)
  /-- `literal` is put into the register `target`. -/
  | movi {target literal c : Word} (htarget : IsRegister target) :
      Means cpu ⟨.movi, target, literal, c⟩ (.set target literal)
  /-- The registers `left` and `right` are joined by `op`. -/
  | compute (op : Arithmetic) {target left right x y : Word}
      (hleft : cpu.regs.get? left = some x) (hright : cpu.regs.get? right = some y)
      (haccepts : op.Accepts y) (htarget : IsRegister target) :
      Means cpu ⟨op.onRegister, target, left, right⟩
        (.set target (Int32.ofInt (op.value x.toInt y.toInt)))
  /-- The register `left` is joined with `literal` by `op`. -/
  | computeLiteral (op : Arithmetic) {target left literal x : Word}
      (hleft : cpu.regs.get? left = some x) (haccepts : op.Accepts literal)
      (htarget : IsRegister target) :
      Means cpu ⟨op.onLiteral, target, left, literal⟩
        (.set target (Int32.ofInt (op.value x.toInt literal.toInt)))
  /-- The program counter moves by `offset`. -/
  | jump {offset b c : Word} : Means cpu ⟨.jmpi, offset, b, c⟩ (.branch offset)
  /-- The program counter moves by `offset`, as the register `source` meets the condition. -/
  | taken (condition : Condition) {source offset c x : Word}
      (hsource : cpu.regs.get? source = some x) (hholds : condition.Holds x) :
      Means cpu ⟨condition.branch, source, offset, c⟩ (.branch offset)
  /-- The register `source` does not meet the condition. -/
  | passed (condition : Condition) {source offset c x : Word}
      (hsource : cpu.regs.get? source = some x) (hholds : ¬ condition.Holds x) :
      Means cpu ⟨condition.branch, source, offset, c⟩ .none
  /-- The trap `number` is raised, with `data`. -/
  | trap {number data c : Word} : Means cpu ⟨.trap, number, data, c⟩ (.raise ⟨number, data, 0⟩)
  /-- `target` is loaded from the literal `address`. -/
  | ldwi {target address c x : Word} (hcell : cpu.mem.read? address = some x)
      (htarget : IsRegister target) : Means cpu ⟨.ldwi, target, address, c⟩ (.set target x)
  /-- `target` is loaded from the address in the register `source`. -/
  | ldw {target source c address x : Word} (hsource : cpu.regs.get? source = some address)
      (hcell : cpu.mem.read? address = some x) (htarget : IsRegister target) :
      Means cpu ⟨.ldw, target, source, c⟩ (.set target x)
  /-- The register `source` is stored at the literal `address`. -/
  | stwi {source address c x : Word} (hsource : cpu.regs.get? source = some x)
      (haddress : IsAddress address) : Means cpu ⟨.stwi, source, address, c⟩ (.store address x)
  /-- The register `source` is stored at the address in the register `target`. -/
  | stw {source target c x address : Word} (hsource : cpu.regs.get? source = some x)
      (htarget : cpu.regs.get? target = some address) (haddress : IsAddress address) :
      Means cpu ⟨.stw, source, target, c⟩ (.store address x)

/-- What is wrong with the instruction `i`, as a `Fault`. -/
inductive Blames (cpu : Processor) (i : Instruction) : Fault → Prop
  /-- It divides by zero. -/
  | divisionByZero (h : cpu.divisor? i = some 0) : Blames cpu i .divisionByZero
  /-- It names a register that does not exist. -/
  | badRegister {r : Word} (hmem : r ∈ i.registers) (h : ¬ IsRegister r) :
      Blames cpu i (.badRegister r)
  /-- It uses an address that does not exist. -/
  | badAddress {a : Word} (haddress : cpu.address? i = some a) (h : ¬ IsAddress a) :
      Blames cpu i (.badAddress a)

variable {cpu cpu' : Processor} {i : Instruction} {e : Effect} {fault : Fault} {r a x : Word}

/-! ## Operands -/

theorem has_iff : Registers.has r = true ↔ IsRegister r := by
  unfold Registers.has Word.index? registerCount IsRegister
  split
  · simp only [Option.any_none, Bool.false_eq_true, false_iff]
    omega
  · simp only [Option.any_some, decide_eq_true_eq]
    omega

theorem has_address_iff : Memory.has a = true ↔ IsAddress a := by
  unfold Memory.has Word.index? memorySize IsAddress
  split
  · simp only [Option.any_none, Bool.false_eq_true, false_iff]
    omega
  · simp only [Option.any_some, decide_eq_true_eq]
    omega

/-- What the register `r` holds is read from it. -/
theorem register_eq_ok_iff : cpu.register r = .ok x ↔ cpu.regs.get? r = some x := by
  unfold register
  cases cpu.regs.get? r <;> simp

/-- A register `r` that holds something exists. -/
theorem isRegister_of_get? (h : cpu.regs.get? r = some x) : IsRegister r := by
  rw [← has_iff, ← Registers.isSome_get? cpu.regs r, h]
  rfl

theorem register_eq_error (h : cpu.register r = .error fault) :
    fault = .badRegister r ∧ ¬ IsRegister r := by
  unfold register at h
  cases hget : cpu.regs.get? r with
  | some x => simp [hget] at h
  | none =>
    rw [← has_iff, ← Registers.isSome_get? cpu.regs r, hget]
    exact ⟨by simpa [hget] using h.symm, by simp⟩

/-- What the data address `a` holds is read from it. -/
theorem cell_eq_ok_iff : cpu.cell a = .ok x ↔ cpu.mem.read? a = some x := by
  unfold cell
  cases cpu.mem.read? a <;> simp

/-- An address `a` that holds something exists. -/
theorem isAddress_of_read? (h : cpu.mem.read? a = some x) : IsAddress a := by
  rw [← has_address_iff, ← Memory.isSome_read? cpu.mem a, h]
  rfl

theorem cell_eq_error (h : cpu.cell a = .error fault) :
    fault = .badAddress a ∧ ¬ IsAddress a := by
  unfold cell at h
  cases hread : cpu.mem.read? a with
  | some x => simp [hread] at h
  | none =>
    rw [← has_address_iff, ← Memory.isSome_read? cpu.mem a, hread]
    exact ⟨by simpa [hread] using h.symm, by simp⟩

/-- `assign r x` sets the register `r` if it exists. -/
theorem assign_eq_ok_iff : assign r x = .ok e ↔ IsRegister r ∧ e = .set r x := by
  unfold assign
  rw [← has_iff]
  split
  case isTrue h => simp [h, eq_comm]
  case isFalse h => simp [h]

theorem assign_eq_error (h : assign r x = .error fault) :
    fault = .badRegister r ∧ ¬ IsRegister r := by
  unfold assign at h
  rw [← has_iff]
  split at h <;> simp_all

/-- `storeAt a x` stores `x` if the address `a` exists. -/
theorem storeAt_eq_ok_iff : storeAt a x = .ok e ↔ IsAddress a ∧ e = .store a x := by
  unfold storeAt
  rw [← has_address_iff]
  split
  case isTrue h => simp [h, eq_comm]
  case isFalse h => simp [h]

theorem storeAt_eq_error (h : storeAt a x = .error fault) :
    fault = .badAddress a ∧ ¬ IsAddress a := by
  unfold storeAt at h
  rw [← has_address_iff]
  split at h <;> simp_all

theorem divide_eq_ok_iff {target source divisor : Word} :
    cpu.divide target source divisor = .ok e ↔
      ∃ x, cpu.regs.get? source = some x ∧ divisor ≠ 0 ∧ IsRegister target ∧
        e = .set target (x / divisor) := by
  unfold divide
  by_cases hdivisor : divisor = 0
  · simp [hdivisor]
  · rw [if_neg hdivisor]
    constructor
    · intro h
      obtain ⟨x, hx, h⟩ := ok_of_bind h
      obtain ⟨htarget, rfl⟩ := assign_eq_ok_iff.1 h
      exact ⟨x, register_eq_ok_iff.1 hx, hdivisor, htarget, rfl⟩
    · rintro ⟨x, hx, -, htarget, rfl⟩
      rw [register_eq_ok_iff.2 hx]
      exact assign_eq_ok_iff.2 ⟨htarget, rfl⟩

/-- A branch reads the register `source` and is taken if `condition` holds of it. -/
theorem evaluate_branch (condition : Condition) (source offset c : Word) :
    cpu.evaluate ⟨condition.branch, source, offset, c⟩ =
      (cpu.register source).map fun x => branchIf (condition.Holds x) offset := by
  -- the tests of words are those of their values
  have hzero : ∀ x : Word, (x == 0) = decide (Condition.zero.Holds x) := fun x => by
    rw [Bool.eq_iff_iff, beq_iff_eq, decide_eq_true_iff, ← Int32.toInt_inj, Int32.toInt_zero]
    rfl
  have hnonzero : ∀ x : Word, (x != 0) = decide (Condition.nonzero.Holds x) := fun x => by
    rw [bne, hzero, ← decide_not]
    rfl
  have hnegative : ∀ x : Word, decide (x < 0) = decide (Condition.negative.Holds x) := fun x => by
    rw [decide_eq_decide, Int32.lt_iff_toInt_lt, Int32.toInt_zero]
    rfl
  cases condition with
  | zero =>
    simp only [← hzero]
    rfl
  | nonzero =>
    simp only [← hnonzero]
    rfl
  | negative =>
    simp only [← hnegative]
    rfl

/-- Joining the registers `left` and `right` reads both and sets `target`. -/
theorem evaluate_onRegister_eq_ok_iff (op : Arithmetic) {target left right : Word} :
    cpu.evaluate ⟨op.onRegister, target, left, right⟩ = .ok e ↔
      ∃ x y, cpu.regs.get? left = some x ∧ cpu.regs.get? right = some y ∧ op.Accepts y ∧
        IsRegister target ∧ e = .set target (op.onWords x y) := by
  constructor
  · intro h
    cases op with
    | add | sub | mul =>
      obtain ⟨x, hx, h⟩ := ok_of_bind h
      obtain ⟨y, hy, h⟩ := ok_of_bind h
      obtain ⟨htarget, rfl⟩ := assign_eq_ok_iff.1 h
      exact ⟨x, y, register_eq_ok_iff.1 hx, register_eq_ok_iff.1 hy, trivial, htarget, rfl⟩
    | div =>
      -- the divisor is read before the dividend
      obtain ⟨y, hy, h⟩ := ok_of_bind h
      obtain ⟨x, hx, hdivisor, htarget, rfl⟩ := divide_eq_ok_iff.1 h
      exact ⟨x, y, hx, register_eq_ok_iff.1 hy, hdivisor, htarget, rfl⟩
  · rintro ⟨x, y, hx, hy, haccepts, htarget, rfl⟩
    cases op with
    | add | sub | mul =>
      simp only [evaluate, Arithmetic.onRegister, register_eq_ok_iff.2 hx, register_eq_ok_iff.2 hy]
      exact assign_eq_ok_iff.2 ⟨htarget, rfl⟩
    | div =>
      simp only [evaluate, Arithmetic.onRegister, register_eq_ok_iff.2 hy]
      exact divide_eq_ok_iff.2 ⟨x, hx, haccepts, htarget, rfl⟩

/-- Joining the register `left` and `literal` reads the register and sets `target`. -/
theorem evaluate_onLiteral_eq_ok_iff (op : Arithmetic) {target left literal : Word} :
    cpu.evaluate ⟨op.onLiteral, target, left, literal⟩ = .ok e ↔
      ∃ x, cpu.regs.get? left = some x ∧ op.Accepts literal ∧ IsRegister target ∧
        e = .set target (op.onWords x literal) := by
  constructor
  · intro h
    cases op with
    | add | sub | mul =>
      obtain ⟨x, hx, h⟩ := ok_of_bind h
      obtain ⟨htarget, rfl⟩ := assign_eq_ok_iff.1 h
      exact ⟨x, register_eq_ok_iff.1 hx, trivial, htarget, rfl⟩
    | div => exact divide_eq_ok_iff.1 h
  · rintro ⟨x, hx, haccepts, htarget, rfl⟩
    cases op with
    | add | sub | mul =>
      simp only [evaluate, Arithmetic.onLiteral, register_eq_ok_iff.2 hx]
      exact assign_eq_ok_iff.2 ⟨htarget, rfl⟩
    | div => exact divide_eq_ok_iff.2 ⟨x, hx, haccepts, htarget, rfl⟩

/-! ## Evaluating instructions -/

/-- `evaluate` finds the effect `e` of an instruction. -/
theorem evaluate_of_means (h : cpu.Means i e) : cpu.evaluate i = .ok e := by
  cases h with
  | nop | jump | trap => rfl
  | movi htarget => exact assign_eq_ok_iff.2 ⟨htarget, rfl⟩
  | mov hsource htarget =>
    simp only [evaluate, register_eq_ok_iff.2 hsource]
    exact assign_eq_ok_iff.2 ⟨htarget, rfl⟩
  | compute op hleft hright haccepts htarget =>
    -- the relation speaks of integers, the processor of words: they agree up to the wrap-around
    rw [op.ofInt_value]
    exact (evaluate_onRegister_eq_ok_iff op).2 ⟨_, _, hleft, hright, haccepts, htarget, rfl⟩
  | computeLiteral op hleft haccepts htarget =>
    rw [op.ofInt_value]
    exact (evaluate_onLiteral_eq_ok_iff op).2 ⟨_, hleft, haccepts, htarget, rfl⟩
  | taken condition hsource hholds | passed condition hsource hholds =>
    rw [evaluate_branch, register_eq_ok_iff.2 hsource]
    simp [Except.map, branchIf, hholds]
  | ldwi hcell htarget =>
    simp only [evaluate, cell_eq_ok_iff.2 hcell]
    exact assign_eq_ok_iff.2 ⟨htarget, rfl⟩
  | ldw hsource hcell htarget =>
    simp only [evaluate, register_eq_ok_iff.2 hsource, cell_eq_ok_iff.2 hcell, bind, Except.bind]
    exact assign_eq_ok_iff.2 ⟨htarget, rfl⟩
  | stwi hsource haddress =>
    simp only [evaluate, register_eq_ok_iff.2 hsource]
    exact storeAt_eq_ok_iff.2 ⟨haddress, rfl⟩
  | stw hsource htarget haddress =>
    simp only [evaluate, register_eq_ok_iff.2 hsource, register_eq_ok_iff.2 htarget]
    exact storeAt_eq_ok_iff.2 ⟨haddress, rfl⟩

theorem means_of_compute (op : Arithmetic) {target left right : Word}
    (h : cpu.evaluate ⟨op.onRegister, target, left, right⟩ = .ok e) :
    cpu.Means ⟨op.onRegister, target, left, right⟩ e := by
  obtain ⟨x, y, hleft, hright, haccepts, htarget, rfl⟩ := (evaluate_onRegister_eq_ok_iff op).1 h
  rw [← op.ofInt_value]
  exact .compute op hleft hright haccepts htarget

theorem means_of_computeLiteral (op : Arithmetic) {target left literal : Word}
    (h : cpu.evaluate ⟨op.onLiteral, target, left, literal⟩ = .ok e) :
    cpu.Means ⟨op.onLiteral, target, left, literal⟩ e := by
  obtain ⟨x, hleft, haccepts, htarget, rfl⟩ := (evaluate_onLiteral_eq_ok_iff op).1 h
  rw [← op.ofInt_value]
  exact .computeLiteral op hleft haccepts htarget

theorem means_of_branch (condition : Condition) {source offset c : Word}
    (h : cpu.evaluate ⟨condition.branch, source, offset, c⟩ = .ok e) :
    cpu.Means ⟨condition.branch, source, offset, c⟩ e := by
  rw [evaluate_branch] at h
  cases hsource : cpu.register source with
  | error fault => simp [hsource, Except.map] at h
  | ok x =>
    obtain rfl : branchIf (condition.Holds x) offset = e := by simpa [hsource, Except.map] using h
    rw [register_eq_ok_iff] at hsource
    by_cases hholds : condition.Holds x
    · simpa [branchIf, hholds] using Means.taken condition hsource hholds
    · simpa [branchIf, hholds] using Means.passed condition hsource hholds

/-- What `evaluate` finds is the effect of the instruction. -/
theorem means_of_evaluate (h : cpu.evaluate i = .ok e) : cpu.Means i e := by
  -- an instruction is taken apart in the order in which its operands are read
  obtain ⟨opcode, first, second, third⟩ := i
  cases opcode
  case nop | jmpi | trap =>
    cases h
    constructor
  case movi =>
    obtain ⟨htarget, rfl⟩ := assign_eq_ok_iff.1 h
    exact .movi htarget
  case mov =>
    obtain ⟨x, hx, h⟩ := ok_of_bind h
    obtain ⟨htarget, rfl⟩ := assign_eq_ok_iff.1 h
    exact .mov (register_eq_ok_iff.1 hx) htarget
  case add => exact means_of_compute .add h
  case sub => exact means_of_compute .sub h
  case mul => exact means_of_compute .mul h
  case div => exact means_of_compute .div h
  case addi => exact means_of_computeLiteral .add h
  case subi => exact means_of_computeLiteral .sub h
  case muli => exact means_of_computeLiteral .mul h
  case divi => exact means_of_computeLiteral .div h
  case beqzi => exact means_of_branch .zero h
  case bnezi => exact means_of_branch .nonzero h
  case bnegi => exact means_of_branch .negative h
  case ldwi =>
    obtain ⟨x, hx, h⟩ := ok_of_bind h
    obtain ⟨htarget, rfl⟩ := assign_eq_ok_iff.1 h
    exact .ldwi (cell_eq_ok_iff.1 hx) htarget
  case ldw =>
    obtain ⟨a, ha, h⟩ := ok_of_bind h
    obtain ⟨x, hx, h⟩ := ok_of_bind h
    obtain ⟨htarget, rfl⟩ := assign_eq_ok_iff.1 h
    exact .ldw (register_eq_ok_iff.1 ha) (cell_eq_ok_iff.1 hx) htarget
  case stwi =>
    obtain ⟨x, hx, h⟩ := ok_of_bind h
    obtain ⟨haddress, rfl⟩ := storeAt_eq_ok_iff.1 h
    exact .stwi (register_eq_ok_iff.1 hx) haddress
  case stw =>
    obtain ⟨x, hx, h⟩ := ok_of_bind h
    obtain ⟨a, ha, h⟩ := ok_of_bind h
    obtain ⟨haddress, rfl⟩ := storeAt_eq_ok_iff.1 h
    exact .stw (register_eq_ok_iff.1 hx) (register_eq_ok_iff.1 ha) haddress

/-- `Means` and `evaluate` agree on the effect `e` of `i`. -/
theorem means_iff : cpu.Means i e ↔ cpu.evaluate i = .ok e :=
  ⟨evaluate_of_means, means_of_evaluate⟩

/-! ## Instructions that fail -/

theorem blames_register (hmem : r ∈ i.registers) (h : cpu.register r = .error fault) :
    cpu.Blames i fault := by
  obtain ⟨rfl, hr⟩ := register_eq_error h
  exact .badRegister hmem hr

theorem blames_assign (hmem : r ∈ i.registers) (h : assign r x = .error fault) :
    cpu.Blames i fault := by
  obtain ⟨rfl, hr⟩ := assign_eq_error h
  exact .badRegister hmem hr

theorem blames_cell (haddress : cpu.address? i = some a) (h : cpu.cell a = .error fault) :
    cpu.Blames i fault := by
  obtain ⟨rfl, ha⟩ := cell_eq_error h
  exact .badAddress haddress ha

theorem blames_storeAt (haddress : cpu.address? i = some a) (h : storeAt a x = .error fault) :
    cpu.Blames i fault := by
  obtain ⟨rfl, ha⟩ := storeAt_eq_error h
  exact .badAddress haddress ha

theorem blames_divide {target source divisor : Word} (hdivisor : cpu.divisor? i = some divisor)
    (htarget : target ∈ i.registers) (hsource : source ∈ i.registers)
    (h : cpu.divide target source divisor = .error fault) : cpu.Blames i fault := by
  unfold divide at h
  by_cases hzero : divisor = 0
  · rw [if_pos hzero] at h
    cases h
    exact .divisionByZero (hzero ▸ hdivisor)
  · rw [if_neg hzero] at h
    rcases error_of_bind h with h | ⟨x, -, h⟩
    · exact blames_register hsource h
    · exact blames_assign htarget h

/-- If `evaluate` fails with `fault`, this is wrong with `i`. -/
theorem blames_of_evaluate (h : cpu.evaluate i = .error fault) : cpu.Blames i fault := by
  obtain ⟨opcode, first, second, third⟩ := i
  -- the operations read and check in their order, and the first that fails is to blame
  cases opcode
  case nop | jmpi | trap => cases h
  case movi => exact blames_assign (by simp [Instruction.registers]) h
  case mov | addi | subi | muli =>
    rcases error_of_bind h with h | ⟨x, -, h⟩
    · exact blames_register (by simp [Instruction.registers]) h
    · exact blames_assign (by simp [Instruction.registers]) h
  case add | sub | mul =>
    rcases error_of_bind h with h | ⟨x, -, h⟩
    · exact blames_register (by simp [Instruction.registers]) h
    rcases error_of_bind h with h | ⟨y, -, h⟩
    · exact blames_register (by simp [Instruction.registers]) h
    · exact blames_assign (by simp [Instruction.registers]) h
  case div =>
    rcases error_of_bind h with h | ⟨y, hy, h⟩
    · exact blames_register (by simp [Instruction.registers]) h
    · exact blames_divide (register_eq_ok_iff.1 hy) (by simp [Instruction.registers])
        (by simp [Instruction.registers]) h
  case divi =>
    exact blames_divide rfl (by simp [Instruction.registers]) (by simp [Instruction.registers]) h
  case beqzi | bnezi | bnegi =>
    rcases error_of_bind h with h | ⟨x, -, h⟩
    · exact blames_register (by simp [Instruction.registers]) h
    · cases h
  case ldwi =>
    rcases error_of_bind h with h | ⟨x, -, h⟩
    · exact blames_cell rfl h
    · exact blames_assign (by simp [Instruction.registers]) h
  case ldw =>
    rcases error_of_bind h with h | ⟨a, ha, h⟩
    · exact blames_register (by simp [Instruction.registers]) h
    rcases error_of_bind h with h | ⟨x, -, h⟩
    · exact blames_cell (register_eq_ok_iff.1 ha) h
    · exact blames_assign (by simp [Instruction.registers]) h
  case stwi =>
    rcases error_of_bind h with h | ⟨x, -, h⟩
    · exact blames_register (by simp [Instruction.registers]) h
    · exact blames_storeAt rfl h
  case stw =>
    rcases error_of_bind h with h | ⟨x, -, h⟩
    · exact blames_register (by simp [Instruction.registers]) h
    rcases error_of_bind h with h | ⟨a, ha, h⟩
    · exact blames_register (by simp [Instruction.registers]) h
    · exact blames_storeAt (register_eq_ok_iff.1 ha) h

theorem registers_onRegister (op : Arithmetic) (a b c : Word) :
    Instruction.registers ⟨op.onRegister, a, b, c⟩ = [a, b, c] := by
  cases op <;> rfl

theorem registers_onLiteral (op : Arithmetic) (a b c : Word) :
    Instruction.registers ⟨op.onLiteral, a, b, c⟩ = [a, b] := by
  cases op <;> rfl

theorem registers_branch (condition : Condition) (a b c : Word) :
    Instruction.registers ⟨condition.branch, a, b, c⟩ = [a] := by
  cases condition <;> rfl

/-- The registers of an instruction `i` that has an effect exist. -/
theorem Means.isRegister (h : cpu.Means i e) : ∀ r ∈ i.registers, IsRegister r := by
  cases h with
  | nop | jump | trap => simp [Instruction.registers]
  | movi htarget | ldwi _ htarget => simpa [Instruction.registers] using htarget
  | mov hsource htarget | ldw hsource _ htarget =>
    simpa [Instruction.registers] using ⟨htarget, isRegister_of_get? hsource⟩
  | compute op hleft hright _ htarget =>
    simpa [registers_onRegister] using
      ⟨htarget, isRegister_of_get? hleft, isRegister_of_get? hright⟩
  | computeLiteral op hleft _ htarget =>
    simpa [registers_onLiteral] using ⟨htarget, isRegister_of_get? hleft⟩
  | taken condition hsource _ | passed condition hsource _ =>
    simpa [registers_branch] using isRegister_of_get? hsource
  | stwi hsource _ => simpa [Instruction.registers] using isRegister_of_get? hsource
  | stw hsource htarget _ =>
    simpa [Instruction.registers] using ⟨isRegister_of_get? hsource, isRegister_of_get? htarget⟩

/-- An instruction `i` that has an effect does not divide by zero. -/
theorem Means.divisor?_ne (h : cpu.Means i e) : cpu.divisor? i ≠ some 0 := by
  cases h with
  | compute op _ hright haccepts _ =>
    cases op with
    | div => exact fun hzero => haccepts (Option.some.inj (hright.symm.trans hzero))
    | add | sub | mul => simp [divisor?, Arithmetic.onRegister]
  | computeLiteral op _ haccepts _ =>
    cases op with
    | div => exact fun hzero => haccepts (Option.some.inj hzero)
    | add | sub | mul => simp [divisor?, Arithmetic.onLiteral]
  | taken condition _ _ | passed condition _ _ =>
    cases condition <;> simp [divisor?, Condition.branch]
  | _ => simp [divisor?]

/-- The address `a` that an instruction with an effect uses exists. -/
theorem Means.isAddress (h : cpu.Means i e) (ha : cpu.address? i = some a) : IsAddress a := by
  cases h with
  | compute op _ _ _ _ => cases op <;> simp [address?, Arithmetic.onRegister] at ha
  | computeLiteral op _ _ _ => cases op <;> simp [address?, Arithmetic.onLiteral] at ha
  | taken condition _ _ | passed condition _ _ =>
    cases condition <;> simp [address?, Condition.branch] at ha
  | ldwi hcell _ =>
    obtain rfl := Option.some.inj ha
    exact isAddress_of_read? hcell
  | ldw hsource hcell _ =>
    obtain rfl := Option.some.inj (hsource.symm.trans ha)
    exact isAddress_of_read? hcell
  | stwi _ haddress =>
    obtain rfl := Option.some.inj ha
    exact haddress
  | stw _ htarget haddress =>
    obtain rfl := Option.some.inj (htarget.symm.trans ha)
    exact haddress
  | _ => simp [address?] at ha

/-- Nothing is wrong with an instruction `i` that has an effect. -/
theorem Means.not_blames (h : cpu.Means i e) : ¬ cpu.Blames i fault := by
  intro hblames
  cases hblames with
  | divisionByZero hzero => exact h.divisor?_ne hzero
  | badRegister hmem hr => exact hr (h.isRegister _ hmem)
  | badAddress haddress ha => exact ha (h.isAddress haddress)

/-- If `fault` is wrong with `i`, then `evaluate` fails, with `fault'` which is wrong with `i` as
well. -/
theorem evaluate_of_blames (h : cpu.Blames i fault) :
    ∃ fault', cpu.evaluate i = .error fault' ∧ cpu.Blames i fault' := by
  cases heval : cpu.evaluate i with
  | ok e => exact absurd h (means_of_evaluate heval).not_blames
  | error fault' => exact ⟨fault', rfl, blames_of_evaluate heval⟩

/-! ## Steps -/

/-- `cpu'` comes from `cpu` by the instruction `i`, with the registers `regs`, the memory `cells`
and the trap line `line`, and the rest of the processor is as it was. The program counter, which is
register zero, is incremented at last. -/
structure Finishes (cpu cpu' : Processor) (i : Instruction) (regs cells : Word → Option Word)
    (line : TrapLine) : Prop where
  /-- The registers but the program counter. -/
  registers : ∀ r, r ≠ 0 → cpu'.regs.get? r = regs r
  /-- The program counter. -/
  pc : cpu'.regs.get? 0 = (regs 0).map (· + 1)
  /-- The data memory. -/
  cells : ∀ a, cpu'.mem.read? a = cells a
  /-- The trap line. -/
  line : cpu'.trap = line
  /-- The image. -/
  program : cpu'.program = cpu.program
  /-- The count of instructions. -/
  cycles : cpu'.cycles = cpu.cycles + 1
  /-- The count of idle ticks. -/
  idleTicks : cpu'.idleTicks = cpu.idleTicks
  /-- The instruction executed last. -/
  last : cpu'.last? = some i

/-- At most one register besides the program counter differs between `cpu` and `cpu'`, or at most
one word of memory. -/
def DiffersInOne (cpu cpu' : Processor) : Prop :=
  (cpu'.mem = cpu.mem ∧ ∃ r, ∀ s, s ≠ 0 → s ≠ r → cpu'.regs.get? s = cpu.regs.get? s) ∨
    ((∀ s, s ≠ 0 → cpu'.regs.get? s = cpu.regs.get? s) ∧
      ∃ a, ∀ b, b ≠ a → cpu'.mem.read? b = cpu.mem.read? b)

theorem fetch?_eq_none (h : cpu.regs.pc.toInt < 0 ∨ cpu.program.size ≤ cpu.regs.pc.toInt) :
    cpu.fetch? = none := by
  unfold fetch?
  cases hindex : Word.index? cpu.regs.pc with
  | none => rfl
  | some n =>
    have hvalue := Word.index?_eq_some_iff.1 hindex
    rw [Option.bind_some, Array.getElem?_eq_none (by omega)]

theorem fetch?_eq_some {n : Nat} (hpc : cpu.regs.pc.toInt = n) (hi : cpu.program[n]? = some i) :
    cpu.fetch? = some i := by
  rw [fetch?, Word.index?_eq_some_iff.2 hpc, Option.bind_some, hi]

/-- `Processor.finish` moves the program counter and leaves the other registers. -/
theorem finishes_finish (hprogram : cpu'.program = cpu.program) (hcycles : cpu'.cycles = cpu.cycles)
    (hidle : cpu'.idleTicks = cpu.idleTicks) :
    cpu.Finishes (cpu'.finish i) i cpu'.regs.get? cpu'.mem.read? cpu'.trap where
  registers r hr := by
    rw [finish, Registers.advance, Registers.get?_branch, if_neg hr]
  pc := by
    rw [finish, Registers.advance, Registers.get?_branch, if_pos rfl]
  cells a := rfl
  line := rfl
  program := hprogram
  cycles := congrArg (· + 1) hcycles
  idleTicks := hidle
  last := rfl

/-- The registers after an effect `e` that sets only a register that exists. -/
theorem get?_apply (h : ∀ r v, e = .set r v → IsRegister r) (s : Word) :
    (cpu.apply e).regs.get? s = e.registers cpu.regs.get? s := by
  cases e with
  | set r value =>
    have hr := has_iff.2 (h r value rfl)
    rw [apply, Registers.get?_set, Effect.registers, Function.update_apply]
    simp [hr, eq_comm]
  | branch offset =>
    rw [apply, Registers.get?_branch, Effect.registers, Function.update_apply]
  | none | raise line | store a value => rfl

/-- The memory after an effect `e` that stores only at an address that exists. -/
theorem read?_apply (h : ∀ a v, e = .store a v → IsAddress a) (b : Word) :
    (cpu.apply e).mem.read? b = e.cells cpu.mem.read? b := by
  cases e with
  | store a value =>
    have ha := has_address_iff.2 (h a value rfl)
    rw [apply, Memory.read?_write, Effect.cells, Function.update_apply]
    simp [ha, eq_comm]
  | none | set r value | branch offset | raise line => rfl

theorem isRegister_of_set {value : Word} (h : cpu.Means i (.set r value)) : IsRegister r := by
  cases h with
  | mov _ htarget | movi htarget | compute _ _ _ _ htarget | computeLiteral _ _ _ htarget
  | ldwi _ htarget | ldw _ _ htarget => exact htarget

theorem isAddress_of_store {value : Word} (h : cpu.Means i (.store a value)) : IsAddress a := by
  cases h with
  | stwi _ haddress | stw _ _ haddress => exact haddress

/-- An instruction `i` with the effect `e` has it, and finishes. -/
theorem Means.finishes (h : cpu.Means i e) :
    cpu.Finishes ((cpu.apply e).finish i) i (e.registers cpu.regs.get?) (e.cells cpu.mem.read?)
      (e.line cpu.trap) := by
  -- an effect that comes from an instruction concerns a register or an address that exists
  have hregs : (cpu.apply e).regs.get? = e.registers cpu.regs.get? :=
    funext fun s => get?_apply (fun r v he => isRegister_of_set (he ▸ h)) s
  have hcells : (cpu.apply e).mem.read? = e.cells cpu.mem.read? :=
    funext fun b => read?_apply (fun a v he => isAddress_of_store (he ▸ h)) b
  have hline : (cpu.apply e).trap = e.line cpu.trap := by cases e <;> rfl
  rw [← hregs, ← hcells, ← hline]
  exact finishes_finish (by cases e <;> rfl) (by cases e <;> rfl) (by cases e <;> rfl)

/-- An effect `e` concerns one register or one word of memory. -/
theorem Finishes.differsInOne (h : cpu.Finishes cpu' i (e.registers cpu.regs.get?)
    (e.cells cpu.mem.read?) (e.line cpu.trap))
    (hmem : (∀ a v, e ≠ .store a v) → cpu'.mem = cpu.mem) : cpu.DiffersInOne cpu' := by
  have hregs := h.registers
  have hcells := h.cells
  cases e with
  | store a value =>
    refine .inr ⟨hregs, a, fun b hb => ?_⟩
    rw [hcells, Effect.cells, Function.update_of_ne hb]
  | set r value =>
    refine .inl ⟨hmem (by simp), r, fun s hzero hs => ?_⟩
    rw [hregs s hzero, Effect.registers, Function.update_of_ne hs]
  | branch offset =>
    refine .inl ⟨hmem (by simp), 0, fun s hzero _ => ?_⟩
    rw [hregs s hzero, Effect.registers, Function.update_of_ne hzero]
  | none | raise line => exact .inl ⟨hmem (by simp), 0, fun s hzero _ => hregs s hzero⟩

/-- Every step follows the instruction set. Where there is no instruction only the trap line is set.
An instruction either has an effect `e`, and then `cpu.step` has this effect and no other, or
something is wrong with it, and then the step sets the trap line and goes on to the next
instruction. -/
theorem step_follows (cpu : Processor) :
    (cpu.regs.pc.toInt < 0 ∨ cpu.program.size ≤ cpu.regs.pc.toInt →
      cpu.step = (.error (.illegalFetch cpu.regs.pc cpu.program.size),
        { cpu with trap := ⟨65, 0, 0⟩ })) ∧
    ∀ (n : Nat) (i : Instruction), cpu.regs.pc.toInt = n → cpu.program[n]? = some i →
      (∀ e, cpu.Means i e → cpu.step.1 = .ok i ∧
        cpu.Finishes cpu.step.2 i (e.registers cpu.regs.get?) (e.cells cpu.mem.read?)
          (e.line cpu.trap) ∧
        (∀ k, e = .set 0 k → cpu.step.2.regs.pc = k + 1) ∧
        cpu.DiffersInOne cpu.step.2) ∧
      ((∃ fault, cpu.Blames i fault) →
        ∃ fault, cpu.Blames i fault ∧ cpu.step.1 = .error fault ∧
          cpu.Finishes cpu.step.2 i cpu.regs.get? cpu.mem.read? ⟨65, 0, 0⟩ ∧
          cpu.step.2.mem = cpu.mem) ∧
      ((∃ e, cpu.Means i e) ∨ ∃ fault, cpu.Blames i fault) := by
  refine ⟨fun hpc => ?_, fun n i hpc hi => ⟨fun e he => ?_, ?_, ?_⟩⟩
  · simp only [step, fetch?_eq_none hpc]
    rfl
  · -- nothing is wrong with the instruction
    have hstep : cpu.step = (.ok i, (cpu.apply e).finish i) := by
      simp only [step, fetch?_eq_some hpc hi, evaluate_of_means he]
    rw [hstep]
    have hfinishes := he.finishes
    refine ⟨rfl, hfinishes, fun k hk => ?_, hfinishes.differsInOne fun hne => ?_⟩
    · subst hk
      have hpc' := hfinishes.pc
      rw [Registers.get?_zero] at hpc'
      simpa [Effect.registers] using hpc'
    · cases e with
      | store a v => exact absurd rfl (hne a v)
      | none | set r v | branch offset | raise line => rfl
  · -- several things may be wrong with it, and the first that is found is reported
    rintro ⟨fault, hfault⟩
    obtain ⟨fault', heval, hblames⟩ := evaluate_of_blames hfault
    have hstep : cpu.step = (.error fault', cpu.fail.finish i) := by
      simp only [step, fetch?_eq_some hpc hi, heval]
    rw [hstep]
    exact ⟨fault', hblames, rfl, finishes_finish rfl rfl rfl, rfl⟩
  · cases heval : cpu.evaluate i with
    | ok e => exact .inl ⟨e, means_of_evaluate heval⟩
    | error fault => exact .inr ⟨fault, blames_of_evaluate heval⟩

/-- A processor that divides the least word by minus one, into the program counter. -/
def leastProcessor : Processor :=
  { Processor.new with
    regs := Registers.zero.set 1 (-2147483648)
    program := #[⟨.divi, 0, 1, -1⟩] }

/-- The quotient wraps around to the least word, and the program counter goes on behind it. -/
theorem step_follows_least :
    leastProcessor.step.1 = .ok ⟨.divi, 0, 1, -1⟩ ∧
      leastProcessor.step.2.regs.pc = -2147483648 + 1 ∧
      leastProcessor.DiffersInOne leastProcessor.step.2 := by
  have hmeans : leastProcessor.Means ⟨.divi, 0, 1, -1⟩ (.set 0 (-2147483648)) :=
    @Means.computeLiteral _ .div 0 1 (-1) (-2147483648) rfl (by decide : (-1 : Word) ≠ 0)
      ⟨by decide, by decide⟩
  obtain ⟨hok, -, hpc, hone⟩ := ((step_follows leastProcessor).2 0 _ rfl rfl).1 _ hmeans
  exact ⟨hok, hpc _ rfl, hone⟩

end Processor

end BatchMachine
