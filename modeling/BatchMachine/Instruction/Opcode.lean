import BatchMachine.Word

/-!
# Operation codes

The machine has twenty operations, numbered from zero without gaps. A name that ends in `I` is
the immediate form: its last operand is a literal and not a register number.

* `Opcode.code`, `Opcode.ofCode?`: the number that object code holds.
* `Opcode.arity`: how many operands an operation takes.
* `Opcode.mnemonic`, `Opcode.ofMnemonic?`: the name that assembly uses.
-/

namespace BatchMachine

/-- The operations of the machine. -/
inductive Opcode where
  /-- Do nothing. -/
  | nop
  /-- Copy a register. -/
  | mov
  /-- Put a literal into a register. -/
  | movi
  /-- Add two registers. -/
  | add
  /-- Add a literal to a register. -/
  | addi
  /-- Subtract a register from a register. -/
  | sub
  /-- Subtract a literal from a register. -/
  | subi
  /-- Multiply two registers. -/
  | mul
  /-- Multiply a register by a literal. -/
  | muli
  /-- Divide a register by a register; a zero divisor is a fault. -/
  | div
  /-- Divide a register by a literal; a zero divisor is a fault. -/
  | divi
  /-- Branch always. -/
  | jmpi
  /-- Branch if a register is zero. -/
  | beqzi
  /-- Branch if a register is not zero. -/
  | bnezi
  /-- Branch if a register is negative. -/
  | bnegi
  /-- Raise a trap with a number and a data word. -/
  | trap
  /-- Load a register from a literal data address. -/
  | ldwi
  /-- Load a register from the data address in a register. -/
  | ldw
  /-- Store a register at a literal data address. -/
  | stwi
  /-- Store a register at the data address in a register. -/
  | stw
  deriving DecidableEq

namespace Opcode

/-- Every operation, in the order of its code. -/
def all : List Opcode :=
  [nop, mov, movi, add, addi, sub, subi, mul, muli, div, divi, jmpi, beqzi, bnezi, bnegi, trap,
    ldwi, ldw, stwi, stw]

/-- The number that object code holds for `op`. -/
def code (op : Opcode) : Word :=
  .ofCount op.ctorIdx

/-- The operation with the code `w`, if there is one. -/
def ofCode? (w : Word) : Option Opcode :=
  (Word.index? w).bind fun i => all[i]?

/-- The number of operands an operation takes. -/
def arity : Opcode → Nat
  | nop => 0
  | jmpi => 1
  | mov | movi | beqzi | bnezi | bnegi | trap | ldwi | ldw | stwi | stw => 2
  | add | addi | sub | subi | mul | muli | div | divi => 3

/-- The name of an operation in assembly. -/
def mnemonic : Opcode → String
  | nop => "NOP"
  | mov => "MOV"
  | movi => "MOVI"
  | add => "ADD"
  | addi => "ADDI"
  | sub => "SUB"
  | subi => "SUBI"
  | mul => "MUL"
  | muli => "MULI"
  | div => "DIV"
  | divi => "DIVI"
  | jmpi => "JMPI"
  | beqzi => "BEQZI"
  | bnezi => "BNEZI"
  | bnegi => "BNEGI"
  | trap => "TRAP"
  | ldwi => "LDWI"
  | ldw => "LDW"
  | stwi => "STWI"
  | stw => "STW"

/-- The operation an assembly name stands for. The branches may drop their `I`, since their
offset is always a literal. -/
def ofMnemonic? (name : String) : Option Opcode :=
  if name = "JMP" then some jmpi
  else if name = "BEQZ" then some beqzi
  else if name = "BNEZ" then some bnezi
  else if name = "BNEG" then some bnegi
  else all.find? fun op => op.mnemonic = name

/-- The title of an operation, by which records show it. -/
def title : Opcode → String
  | nop => "Nop"
  | mov => "Mov"
  | movi => "Movi"
  | add => "Add"
  | addi => "Addi"
  | sub => "Sub"
  | subi => "Subi"
  | mul => "Mul"
  | muli => "Muli"
  | div => "Div"
  | divi => "Divi"
  | jmpi => "Jmpi"
  | beqzi => "Beqzi"
  | bnezi => "Bnezi"
  | bnegi => "Bnegi"
  | trap => "Trap"
  | ldwi => "Ldwi"
  | ldw => "Ldw"
  | stwi => "Stwi"
  | stw => "Stw"

/-- At most three operands belong to `op`. -/
theorem arity_le (op : Opcode) : op.arity ≤ 3 := by
  cases op <;> decide

/-- Reading the code of `op` gives `op` back. -/
theorem ofCode?_code (op : Opcode) : ofCode? op.code = some op := by
  cases op <;> decide

/-- Reading the name of `op` gives `op` back. -/
theorem ofMnemonic?_mnemonic (op : Opcode) : ofMnemonic? op.mnemonic = some op := by
  cases op <;> decide

end Opcode

end BatchMachine
