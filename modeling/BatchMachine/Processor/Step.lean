import BatchMachine.Processor.Basic

/-!
# Executing instructions

An instruction reads registers and memory, checks everything it needs, and only then has its one
effect: it sets one register, or one memory word, or moves the program counter, or raises a
trap, or does nothing. So a fault never leaves an instruction half done.

* `Processor.evaluate`: the effect of an instruction, or the fault that it runs into.
* `Processor.step`: fetch, evaluate, apply, and advance the program counter.
* `Processor.run`: steps until the image ends, a trap is pending or a limit is reached.
-/

namespace BatchMachine

/-- What one instruction changes, apart from advancing the program counter: the result of
`evaluate`. -/
inductive Effect where
  /-- Nothing. -/
  | none
  /-- The register with the number `register` gets the word `value`. -/
  | set (register value : Word)
  /-- The program counter moves by `offset`. -/
  | branch (offset : Word)
  /-- The trap line is set to `line`. -/
  | raise (line : TrapLine)
  /-- The memory word at `address` becomes `value`. -/
  | store (address value : Word)
  deriving DecidableEq

/-- The reasons why an instruction fails, or why there is none to execute. -/
inductive Fault where
  /-- The divisor is zero. -/
  | divisionByZero
  /-- There is no register with the number `register`. -/
  | badRegister (register : Word)
  /-- There is no data memory at `address`. -/
  | badAddress (address : Word)
  /-- There is no instruction at the program counter `pc` in an image of `size` instructions. -/
  | illegalFetch (pc : Word) (size : Nat)
  deriving DecidableEq

/-- The text of a fault. -/
def Fault.message : Fault → String
  | divisionByZero => "division by zero"
  | badRegister register => s!"register r{Numeral.decimal register} does not exist"
  | badAddress address => s!"memory error: {Memory.outOfRange address}"
  | illegalFetch pc size =>
    s!"illegal instruction fetch at {Numeral.decimal pc} (image holds {size})"

namespace Processor

/-- The word in register `r`, or a fault if there is no such register. -/
def register (cpu : Processor) (r : Word) : Except Fault Word :=
  match cpu.regs.get? r with
  | some value => .ok value
  | none => .error (.badRegister r)

/-- The word at `address`, or a fault if there is no such address. -/
def cell (cpu : Processor) (address : Word) : Except Fault Word :=
  match cpu.mem.read? address with
  | some value => .ok value
  | none => .error (.badAddress address)

/-- The effect of setting register `r` to `value`. -/
def assign (r value : Word) : Except Fault Effect :=
  if Registers.has r then .ok (.set r value) else .error (.badRegister r)

/-- The effect of storing `value` at `address`. -/
def storeAt (address value : Word) : Except Fault Effect :=
  if Memory.has address then .ok (.store address value) else .error (.badAddress address)

/-- The effect of setting register `target` to the quotient of register `source` and `divisor`. The
divisor is looked at before the dividend. -/
def divide (cpu : Processor) (target source divisor : Word) : Except Fault Effect := do
  if divisor = 0 then throw .divisionByZero
  let dividend ← cpu.register source
  assign target (dividend / divisor)

/-- The effect of a branch by `offset` that is `taken` or not. -/
def branchIf (taken : Bool) (offset : Word) : Effect :=
  if taken then .branch offset else .none

/-- The effect of the instruction `i`. Sources are read before the target is looked at, so of two
faults the one in a source wins. -/
def evaluate (cpu : Processor) (i : Instruction) : Except Fault Effect := do
  match i.opcode with
  | .nop => return .none
  | .mov => assign i.first (← cpu.register i.second)
  | .movi => assign i.first i.second
  | .add =>
    let x ← cpu.register i.second
    let y ← cpu.register i.third
    assign i.first (x + y)
  | .addi =>
    let x ← cpu.register i.second
    assign i.first (x + i.third)
  | .sub =>
    let x ← cpu.register i.second
    let y ← cpu.register i.third
    assign i.first (x - y)
  | .subi =>
    let x ← cpu.register i.second
    assign i.first (x - i.third)
  | .mul =>
    let x ← cpu.register i.second
    let y ← cpu.register i.third
    assign i.first (x * y)
  | .muli =>
    let x ← cpu.register i.second
    assign i.first (x * i.third)
  -- unlike in the other instructions, the second source is read first
  | .div =>
    let divisor ← cpu.register i.third
    cpu.divide i.first i.second divisor
  | .divi => cpu.divide i.first i.second i.third
  | .jmpi => return .branch i.first
  | .beqzi =>
    let x ← cpu.register i.first
    return branchIf (x == 0) i.second
  | .bnezi =>
    let x ← cpu.register i.first
    return branchIf (x != 0) i.second
  | .bnegi =>
    let x ← cpu.register i.first
    return branchIf (x < 0) i.second
  | .trap => return .raise ⟨i.first, i.second, 0⟩
  | .ldwi =>
    let x ← cpu.cell i.second
    assign i.first x
  | .ldw =>
    let address ← cpu.register i.second
    let x ← cpu.cell address
    assign i.first x
  | .stwi =>
    let x ← cpu.register i.first
    storeAt i.second x
  | .stw =>
    let x ← cpu.register i.first
    let address ← cpu.register i.second
    storeAt address x

/-- Carry out an `Effect`. -/
def apply (cpu : Processor) : Effect → Processor
  | .none => cpu
  | .set r value => { cpu with regs := cpu.regs.set r value }
  | .branch offset => { cpu with regs := cpu.regs.branch offset }
  | .raise line => { cpu with trap := line }
  | .store address value => { cpu with mem := cpu.mem.write address value }

/-- Signal an error of the running job: `Trap.fatal` on the trap line. -/
def fail (cpu : Processor) : Processor :=
  { cpu with trap := .raise .fatal 0 }

/-- The end of the instruction `i`, also if it failed: the program counter advances, the instruction
is counted in `cycles` and remembered as `last?`. -/
def finish (cpu : Processor) (i : Instruction) : Processor :=
  { cpu with regs := cpu.regs.advance, cycles := cpu.cycles + 1, last? := some i }

/-- Execute the instruction at the program counter. The answer is the instruction, or the fault
that is now signalled on the trap line. -/
def step (cpu : Processor) : Except Fault Instruction × Processor :=
  match cpu.fetch? with
  | none => (.error (.illegalFetch cpu.regs.pc cpu.program.size), cpu.fail)
  | some i =>
    match cpu.evaluate i with
    | .ok effect => (.ok i, (cpu.apply effect).finish i)
    | .error fault => (.error fault, cpu.fail.finish i)

/-- Execute at most `limit` instructions, while the image lasts and no trap is pending. The
answer counts the steps taken, on top of those in `taken`. -/
def run (cpu : Processor) (taken : Nat) : Nat → Nat × Processor
  | 0 => (taken, cpu)
  | limit + 1 =>
    if cpu.atEnd || !cpu.trap.isIdle then (taken, cpu)
    else run cpu.step.2 (taken + 1) limit

end Processor

end BatchMachine
