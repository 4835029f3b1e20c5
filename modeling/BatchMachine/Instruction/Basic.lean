import BatchMachine.Instruction.Opcode
import BatchMachine.Instruction.Trap
import BatchMachine.Text.Numeral

/-!
# Instructions

An instruction is an operation with room for three operands. The constructors `ofOperands` and
`ofFields` check the number of operands and leave the unused slots at zero.
-/

namespace BatchMachine

/-- An operation with its three operand slots, of which those beyond its `arity` are zero. -/
structure Instruction where
  /-- The operation. -/
  opcode : Opcode
  /-- The first operand. -/
  first : Word
  /-- The second operand. -/
  second : Word
  /-- The third operand. -/
  third : Word
  deriving DecidableEq

/-- The reasons why the fields of a line are no instruction. -/
inductive FieldError where
  /-- There are no fields at all. -/
  | noFields
  /-- No operation has the code `code`. -/
  | unknownCode (code : Word)
  /-- The operation `opcode` takes another number of operands than `found`. -/
  | wrongCount (opcode : Opcode) (found : Nat)
  deriving DecidableEq

namespace FieldError

/-- The text of a field error. A code is shown as the hexadecimal form of its bits. -/
def message : FieldError → String
  | noFields => "empty instruction"
  | unknownCode code =>
    "invalid opcode: 0x" ++ String.ofList (Nat.toDigits 16 code.toUInt32.toNat)
  | wrongCount opcode found =>
    s!"{opcode.mnemonic} takes {opcode.arity} operand(s), found {found}"

end FieldError

namespace Instruction

/-- The instruction that does nothing. -/
def nop : Instruction := ⟨.nop, 0, 0, 0⟩

/-- All three operand slots of `i`, used or not. -/
def slots (i : Instruction) : List Word :=
  [i.first, i.second, i.third]

/-- The operands of `i` that its operation uses. -/
def operands (i : Instruction) : List Word :=
  i.slots.take i.opcode.arity

/-- The fields of `i` in object code: its code and its operands. -/
def fields (i : Instruction) : List Word :=
  i.opcode.code :: i.operands

/-- The number of fields of `i`. -/
def size (i : Instruction) : Nat :=
  i.opcode.arity + 1

/-- The instruction of `opcode` with the given `operands`, if their number fits the operation. -/
def ofOperands (opcode : Opcode) (operands : List Word) : Except FieldError Instruction :=
  if operands.length = opcode.arity then
    .ok ⟨opcode, operands.getD 0 0, operands.getD 1 0, operands.getD 2 0⟩
  else
    .error (.wrongCount opcode operands.length)

/-- The instruction that the fields of a line of object code stand for. -/
def ofFields : List Word → Except FieldError Instruction
  | [] => .error .noFields
  | code :: operands =>
    match Opcode.ofCode? code with
    | none => .error (.unknownCode code)
    | some opcode => ofOperands opcode operands

/-- The text of the first operand of `opcode`: the number of a known trap is shown by its name. -/
def firstText (opcode : Opcode) (operand : Word) : String :=
  match opcode, Trap.ofCode? operand with
  | .trap, some t => t.name
  | _, _ => Numeral.decimal operand

/-- The texts of the operands of `i` in assembly. -/
def operandTexts (i : Instruction) : List String :=
  match i.operands with
  | [] => []
  | operand :: rest => firstText i.opcode operand :: rest.map Numeral.decimal

/-- `i` as assembly writes it. -/
def text (i : Instruction) : String :=
  " ".intercalate (i.opcode.mnemonic :: i.operandTexts)

/-- `i` as object code writes it. -/
def objectText (i : Instruction) : String :=
  " ".intercalate (i.fields.map Numeral.hex)

end Instruction

end BatchMachine
