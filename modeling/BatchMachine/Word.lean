/-!
# Machine words

A word is a signed 32-bit number. Its arithmetic wraps around, and division truncates toward
zero. Words also serve as register numbers, data addresses and instruction addresses.

* `Word.index?`: the position that a word names.
* `Word.ofInt?`: the word with a given value.
-/

namespace BatchMachine

/-- A machine word: a signed 32-bit number whose arithmetic wraps around. -/
abbrev Word := Int32

namespace Word

/-- The position that `w` names: itself when it is not negative, and `none` otherwise. -/
def index? (w : Word) : Option Nat :=
  if w.toInt < 0 then none else some w.toInt.toNat

/-- The word holding the count `n`. Counts beyond the range of a word wrap around. -/
def ofCount (n : Nat) : Word :=
  Int32.ofNat n

/-- The word with the value `i`, if the value is in the range of words. -/
def ofInt? (i : Int) : Option Word :=
  if -2147483648 ≤ i ∧ i ≤ 2147483647 then some (Int32.ofInt i) else none

/-- `w` names the position that equals its value. -/
theorem index?_eq_some_iff {w : Word} {i : Nat} : index? w = some i ↔ w.toInt = i := by
  unfold index?
  split <;> simp only [Option.some.injEq, reduceCtorEq, false_iff] <;> omega

/-- Two words that name the same position `i` are equal. -/
theorem eq_of_index?_eq_some {v w : Word} {i : Nat} (hv : index? v = some i)
    (hw : index? w = some i) : v = w :=
  Int32.toInt_inj.1 <| (index?_eq_some_iff.1 hv).trans (index?_eq_some_iff.1 hw).symm

/-- `w` is the word with the value of `w`. -/
theorem ofInt?_toInt (w : Word) : ofInt? w.toInt = some w := by
  have low := w.le_toInt
  have high := w.toInt_lt
  simp only [ofInt?, Int32.ofInt_toInt]
  exact if_pos (by omega)

/-- The word with the value `i` has the value `i`. -/
theorem toInt_of_ofInt?_eq_some {i : Int} {w : Word} (h : ofInt? i = some w) : w.toInt = i := by
  unfold ofInt? at h
  split at h
  · cases h
    exact Int32.toInt_ofInt_of_le (by omega) (by omega)
  · cases h

end Word

end BatchMachine
