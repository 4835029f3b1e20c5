/-!
# Device numbers

The processor is component 0. Every job owns two devices: job `j` has input device `2j + 1` and
output device `2j + 2`.
-/

namespace BatchMachine

/-- The number of the input device of the job with the number `job`. -/
def inputNumber (job : Nat) : Nat := 2 * job + 1

/-- The number of the output device of the job with the number `job`. -/
def outputNumber (job : Nat) : Nat := 2 * job + 2

/-- The job that owns the device with the number `device`; the processor has the number `0` and no
owner. -/
def ownerOf? (device : Nat) : Option Nat :=
  if device = 0 then none else some ((device - 1) / 2)

/-- The input device of `job` belongs to `job`. -/
theorem ownerOf?_inputNumber (job : Nat) : ownerOf? (inputNumber job) = some job := by
  simp [ownerOf?, inputNumber]

/-- The output device of `job` belongs to `job`. -/
theorem ownerOf?_outputNumber (job : Nat) : ownerOf? (outputNumber job) = some job := by
  simp [ownerOf?, outputNumber]
  omega

end BatchMachine
