import BatchMachine.Instruction.Basic
import BatchMachine.Processor.Memory
import BatchMachine.Processor.Registers
import BatchMachine.Processor.TrapLine

/-!
# The processor

The processor holds the registers of the job that runs on it, the data memory that all jobs
share, its own trap line, and the image of the running job as its instruction memory.

* `Processor.load`: replace the instruction memory, if the image fits.
* `Processor.fetch?`: the instruction at the program counter.
-/

namespace BatchMachine

/-- The most instructions that an image can have. -/
def imageLimit : Nat := 1024

/-- The number of the processor among the components of the machine. -/
def processorNumber : Nat := 0

/-- The processor: the state that an instruction reads and changes. -/
structure Processor where
  /-- The registers of the running job. -/
  regs : Registers
  /-- The data memory, shared by all jobs. -/
  mem : Memory
  /-- The trap line, where programs, faults and devices signal. The scheduler clears it. -/
  trap : TrapLine
  /-- The instruction memory: the `image` of the running job. -/
  program : Array Instruction
  /-- How many instructions were executed, those that failed included. -/
  cycles : Nat
  /-- How many ticks passed without anything to run. -/
  idleTicks : Nat
  /-- The instruction executed last, `none` before the first. -/
  last? : Option Instruction

/-- An image is too large for the instruction memory: it has more than `imageLimit` instructions. -/
structure ImageTooLarge where
  /-- The number of instructions in the image. -/
  size : Nat

/-- What is said of an image that is too large, with its `size`. -/
def ImageTooLarge.message (e : ImageTooLarge) : String :=
  s!"image of {e.size} instructions exceeds instruction memory"

namespace Processor

/-- The processor at power-on: everything zero and no image. -/
def new : Processor :=
  ⟨.zero, .zero, .clear, #[], 0, 0, none⟩

/-- Replace the instruction memory by `image`, if it fits. -/
def load (cpu : Processor) (image : Array Instruction) : Except ImageTooLarge Processor :=
  if image.size ≤ imageLimit then .ok { cpu with program := image }
  else .error ⟨image.size⟩

/-- The instruction at the program counter, `none` if there is none. -/
def fetch? (cpu : Processor) : Option Instruction :=
  (Word.index? cpu.regs.pc).bind fun i => cpu.program[i]?

/-- The program counter stands one past the last instruction of the image. -/
def atEnd (cpu : Processor) : Bool :=
  Word.index? cpu.regs.pc == some cpu.program.size

/-- Count a tick without anything to run in `idleTicks`. -/
def idle (cpu : Processor) : Processor :=
  { cpu with idleTicks := cpu.idleTicks + 1 }

/-- `cpu` as messages show it. -/
def shown (cpu : Processor) : String :=
  Text.record "Cpu"
    [("regs", cpu.regs.shown), ("trap", cpu.trap.shown),
      ("program_len", toString cpu.program.size), ("cycles", toString cpu.cycles),
      ("idle_ticks", toString cpu.idleTicks)]

end Processor

end BatchMachine
