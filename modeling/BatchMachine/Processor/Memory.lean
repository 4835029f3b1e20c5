import BatchMachine.Text.Layout
import BatchMachine.Text.Numeral

/-!
# Data memory

The machine has 1024 words of data memory, which all its jobs share.
-/

namespace BatchMachine

/-- The number of words in data memory. -/
def memorySize : Nat := 1024

/-- The data memory. -/
structure Memory where
  /-- The words by address, from `0` on. -/
  cells : Vector Word memorySize
  deriving DecidableEq

namespace Memory

/-- A memory that holds only zeros. -/
def zero : Memory := ⟨Vector.replicate memorySize 0⟩

/-- `address` is an address of the memory. -/
def has (address : Word) : Bool :=
  (Word.index? address).any fun i => i < memorySize

/-- The word at `address`, if there is such an address. -/
def read? (mem : Memory) (address : Word) : Option Word :=
  (Word.index? address).bind fun i => mem.cells[i]?

/-- Put `value` at `address`. An address out of range changes nothing. -/
def write (mem : Memory) (address value : Word) : Memory :=
  match Word.index? address with
  | some i => ⟨mem.cells.setIfInBounds i value⟩
  | none => mem

/-- `mem.read? address` gives a word exactly if `address` is one of the memory. -/
theorem isSome_read? (mem : Memory) (address : Word) :
    (mem.read? address).isSome = has address := by
  unfold read? has
  cases Word.index? address with
  | none => rfl
  | some i => by_cases h : i < memorySize <;> simp [h]

/-- Writing `value` at `a` shows at `a` alone. -/
theorem read?_write (mem : Memory) (a b value : Word) :
    (mem.write a value).read? b = if a = b ∧ has a then some value else mem.read? b := by
  cases ha : Word.index? a with
  | none => simp [write, has, ha]
  | some i =>
    by_cases h : a = b
    · subst h
      by_cases hi : i < memorySize <;> simp [write, read?, has, ha, hi]
    · cases hb : Word.index? b with
      | none => simp [write, read?, ha, hb, h]
      | some k =>
        have hik : i ≠ k := fun e => h (Word.eq_of_index?_eq_some ha (e ▸ hb))
        simp [write, read?, ha, hb, h, Vector.getElem?_setIfInBounds_ne hik]

/-- The addresses and words of `count` cells from `start` on, cut off at the end of memory. -/
def dump (mem : Memory) (start count : Nat) : List (Nat × Word) :=
  ((mem.cells.toList.zipIdx.map fun (w, i) => (i, w)).drop start).take count

/-- The addresses and words of `mem` that are not zero. -/
def used (mem : Memory) : List (Nat × Word) :=
  (mem.dump 0 memorySize).filter fun (_, w) => w != 0

/-- `mem` as messages show it: how much of it is in use. -/
def shown (mem : Memory) : String :=
  Text.record "DataMemory"
    [("non_zero_cells", toString mem.used.length), ("total_cells", toString memorySize)]

/-- What is said of an `address` out of range. -/
def outOfRange (address : Word) : String :=
  s!"data address {Numeral.decimal address} out of range (0 to 1023)"

end Memory

end BatchMachine
