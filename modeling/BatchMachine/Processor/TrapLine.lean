import BatchMachine.Instruction.Trap
import BatchMachine.Text.Layout
import BatchMachine.Text.Numeral

/-!
# Trap lines

The processor and every device own a trap line of three words. A number other than zero means
that something is pending on it.
-/

namespace BatchMachine

/-- A trap line, on which one signal can be pending. -/
structure TrapLine where
  /-- What is pending, by number; `0` if nothing is. -/
  number : Word
  /-- A word that goes with `number`. -/
  data : Word
  /-- `0` unless the signalled operation failed. -/
  status : Word
  deriving DecidableEq

namespace TrapLine

/-- The line with nothing on it. -/
def clear : TrapLine := ⟨0, 0, 0⟩

/-- The line that signals `trap` with the word `data`, and with an OK status. -/
def raise (trap : Trap) (data : Word) : TrapLine :=
  ⟨trap.code, data, 0⟩

/-- Nothing is pending on `line`. -/
def isIdle (line : TrapLine) : Bool :=
  line.number == 0

/-- The trap that is pending on `line`, if its number is a known one. -/
def trap? (line : TrapLine) : Option Trap :=
  Trap.ofCode? line.number

/-- Nothing is pending on the clear line. -/
@[simp]
theorem isIdle_clear : clear.isIdle = true := rfl

/-- On the line that raises `trap` something is pending. -/
@[simp]
theorem isIdle_raise (trap : Trap) (data : Word) : (raise trap data).isIdle = false := by
  cases trap <;> rfl

/-- `trap` is pending on the line that raises it. -/
@[simp]
theorem trap?_raise (trap : Trap) (data : Word) : (raise trap data).trap? = some trap :=
  Trap.ofCode?_code trap

/-- `line` as messages show it. -/
def shown (line : TrapLine) : String :=
  Text.record "TrapLine"
    [("number", Numeral.decimal line.number), ("data", Numeral.decimal line.data),
      ("status", Numeral.decimal line.status)]

end TrapLine

end BatchMachine
