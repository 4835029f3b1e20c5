/-!
# Layouts of shown values

Values are shown in messages as a name with their parts: `record` names each part, `wrapped`
holds just one.
-/

namespace BatchMachine.Text

/-- The text of a value with the name `name` and named `parts`. -/
def record (name : String) (parts : List (String × String)) : String :=
  name ++ " \x7b " ++ ", ".intercalate (parts.map fun (part, value) => part ++ ": " ++ value) ++
    " \x7d"

/-- The text of a value with the name `name` and one unnamed `part`. -/
def wrapped (name part : String) : String :=
  name ++ "(" ++ part ++ ")"

/-- The text of a value that may be missing: `None` or `Some`. -/
def optional : Option String → String
  | none => "None"
  | some value => wrapped "Some" value

/-- `s`, filled up with blanks on the right to the least `width`. -/
def padRight (width : Nat) (s : String) : String :=
  s ++ String.ofList (List.replicate (width - s.length) ' ')

/-- `n`, filled up with zeros on the left to the least `width`. -/
def padNumber (width : Nat) (n : Nat) : String :=
  let digits := toString n
  String.ofList (List.replicate (width - digits.length) '0') ++ digits

end BatchMachine.Text
