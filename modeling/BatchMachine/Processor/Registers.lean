import BatchMachine.Text.Layout
import BatchMachine.Text.Numeral

/-!
# Registers

A job has 32 registers. Register 0 is the program counter, and a negative program counter means
that the processor has nothing to run.
-/

namespace BatchMachine

/-- The number of registers. -/
def registerCount : Nat := 32

/-- The registers of a job. Register `0` is the program counter. -/
structure Registers where
  /-- The words in the registers, by number. -/
  words : Vector Word registerCount
  deriving DecidableEq

namespace Registers

/-- Registers that all hold zero. -/
def zero : Registers := ⟨Vector.replicate registerCount 0⟩

/-- The word in register `r`, if there is such a register. -/
def get? (regs : Registers) (r : Word) : Option Word :=
  (Word.index? r).bind fun i => regs.words[i]?

/-- `r` is the number of a register. -/
def has (r : Word) : Bool :=
  (Word.index? r).any fun i => i < registerCount

/-- Put `value` into register `r`. A register that does not exist changes nothing. -/
def set (regs : Registers) (r : Word) (value : Word) : Registers :=
  match Word.index? r with
  | some i => ⟨regs.words.setIfInBounds i value⟩
  | none => regs

/-- The program counter. -/
def pc (regs : Registers) : Word :=
  regs.words[0]

/-- Put `value` into the program counter. -/
def setPc (regs : Registers) (value : Word) : Registers :=
  ⟨regs.words.set 0 value⟩

/-- Add `offset` to the program counter, wrapping around. -/
def branch (regs : Registers) (offset : Word) : Registers :=
  regs.setPc (regs.pc + offset)

/-- Move the program counter to the next instruction. -/
def advance (regs : Registers) : Registers :=
  regs.branch 1

/-- The program counter is negative, so that there is nothing to run while no job is loaded. -/
def isIdle (regs : Registers) : Bool :=
  regs.pc < 0

/-- `regs.get? r` gives a word exactly if `r` is the number of a register. -/
theorem isSome_get? (regs : Registers) (r : Word) : (regs.get? r).isSome = has r := by
  unfold get? has
  cases Word.index? r with
  | none => rfl
  | some i => by_cases h : i < registerCount <;> simp [h]

/-- Setting register `r` shows in register `r` alone. -/
theorem get?_set (regs : Registers) (r s value : Word) :
    (regs.set r value).get? s = if r = s ∧ has r then some value else regs.get? s := by
  cases hr : Word.index? r with
  | none => simp [set, has, hr]
  | some i =>
    by_cases h : r = s
    · subst h
      by_cases hi : i < registerCount <;> simp [set, get?, has, hr, hi]
    · cases hs : Word.index? s with
      | none => simp [set, get?, hr, hs, h]
      | some k =>
        have hik : i ≠ k := fun e => h (Word.eq_of_index?_eq_some hr (e ▸ hs))
        simp [set, get?, hr, hs, h, Vector.getElem?_setIfInBounds_ne hik]

/-- The program counter is register `0`. -/
theorem get?_zero (regs : Registers) : regs.get? 0 = some regs.pc := by
  exact Vector.getElem?_eq_getElem (by decide)

/-- Setting the program counter by `setPc` shows in `pc`. -/
@[simp]
theorem pc_setPc (regs : Registers) (value : Word) : (regs.setPc value).pc = value := by
  simp [pc, setPc]

/-- The program counter of a processor that has nothing to run. -/
def idlePc : Word := -1

/-- The numbers and words of `regs` that are not zero, without the program counter. -/
def used (regs : Registers) : List (Nat × Word) :=
  (regs.words.toList.zipIdx.map fun (w, i) => (i, w)).filter fun (i, w) => i != 0 && w != 0

/-- `regs` as messages show them: the program counter and what is not zero. -/
def shown (regs : Registers) : String :=
  Text.record "RegisterFile" <|
    ("pc", Numeral.decimal regs.pc) ::
      regs.used.map fun (i, w) => (s!"r{i}", Numeral.decimal w)

end Registers

end BatchMachine
