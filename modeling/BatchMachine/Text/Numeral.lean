import BatchMachine.Word

/-!
# Numerals

Words are written as an optional minus sign and the digits of their magnitude, in base ten or
sixteen. Reading also takes a plus sign and upper-case digits, and refuses what is out of the
range of a word.

* `parse?`: the word that a numeral denotes.
* `format`: the numeral of a word, with the fewest digits and in lower case.
-/

namespace BatchMachine.Numeral

/-- The value of `c` as a digit in base sixteen. -/
def digitValue? (c : Char) : Option Nat :=
  if '0' ≤ c ∧ c ≤ '9' then some (c.toNat - '0'.toNat)
  else if 'a' ≤ c ∧ c ≤ 'f' then some (c.toNat - 'a'.toNat + 10)
  else if 'A' ≤ c ∧ c ≤ 'F' then some (c.toNat - 'A'.toNat + 10)
  else none

/-- Append the digit `c` to the number `n` in the given `base`. -/
def pushDigit? (base n : Nat) (c : Char) : Option Nat :=
  match digitValue? c with
  | some d => if d < base then some (n * base + d) else none
  | none => none

/-- The number that `digits` denote in the given `base`; a text without digits denotes none. -/
def magnitude? (base : Nat) (digits : List Char) : Option Nat :=
  if digits.isEmpty then none else digits.foldlM (pushDigit? base) 0

/-- The word of the magnitude `n`, `negative` or not, if there is one. -/
def signed? (negative : Bool) (n : Nat) : Option Word :=
  Word.ofInt? (if negative then -(n : Int) else n)

/-- The word that `numeral` denotes in the given `base`. -/
def parse? (base : Nat) (numeral : String) : Option Word :=
  match numeral.toList with
  | '-' :: digits => (magnitude? base digits).bind (signed? true)
  | '+' :: digits => (magnitude? base digits).bind (signed? false)
  | digits => (magnitude? base digits).bind (signed? false)

/-- The numeral of `w` in the given `base`. -/
def format (base : Nat) (w : Word) : String :=
  let digits := Nat.toDigits base w.toInt.natAbs
  String.ofList (if w.toInt < 0 then '-' :: digits else digits)

/-- The hexadecimal numeral of `w`, as object code holds it. -/
def hex (w : Word) : String := format 16 w

/-- The decimal numeral of `w`. -/
def decimal (w : Word) : String := format 10 w

end BatchMachine.Numeral
