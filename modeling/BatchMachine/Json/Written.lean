/-!
# Written JSON

A value is written on one line without blanks, or over several lines, where every level is
indented by two more blanks.

* `Json.Layout`: the two ways.
* `Json.Written`: a value, ready to be written either way.
-/

namespace BatchMachine.Json

/-- How a value is laid out. -/
inductive Layout where
  /-- On one line. -/
  | compact
  /-- Over several lines, starting at the given `depth`. -/
  | indented (depth : Nat)

/-- A value, ready to be written. -/
abbrev Written := Layout → String

namespace Layout

/-- The layout of what is inside of a list or an object. -/
def deeper : Layout → Layout
  | compact => compact
  | indented depth => indented (depth + 1)

/-- A new line, where lines count. -/
def newline : Layout → String
  | compact => ""
  | indented depth => "\n" ++ String.ofList (List.replicate (2 * depth) ' ')

/-- What stands between the name and the value of a member. -/
def colon : Layout → String
  | compact => ":"
  | indented _ => ": "

/-- `parts` between the brackets `opening` and `closing`. -/
def bracket (l : Layout) (opening closing : String) (parts : List String) : String :=
  if parts.isEmpty then opening ++ closing
  else
    opening ++ l.deeper.newline ++ (("," ++ l.deeper.newline).intercalate parts) ++ l.newline ++
      closing

end Layout

/-- The hexadecimal digits of the control character with the code `n`. -/
def controlDigits (n : Nat) : List Char :=
  [Nat.digitChar (n / 16), Nat.digitChar (n % 16)]

/-- `c` as it is written in a string. -/
def escape (c : Char) : List Char :=
  if c = '"' ∨ c = '\\' then ['\\', c]
  else if c = '\x08' then ['\\', 'b']
  else if c = '\x0c' then ['\\', 'f']
  else if c = '\n' then ['\\', 'n']
  else if c = '\r' then ['\\', 'r']
  else if c = '\t' then ['\\', 't']
  else if c.toNat < 0x20 then ['\\', 'u', '0', '0'] ++ controlDigits c.toNat
  else [c]

/-- The written form of the text `s`. -/
def quote (s : String) : String :=
  "\"" ++ String.ofList (s.toList.flatMap escape) ++ "\""

namespace Written

/-- The null value. -/
def null : Written := fun _ => "null"

/-- The truth value `b`. -/
def bool (b : Bool) : Written := fun _ => if b then "true" else "false"

/-- The integer `i`. -/
def int (i : Int) : Written := fun _ => toString i

/-- The natural number `n`. -/
def nat (n : Nat) : Written := int n

/-- The string `s`. -/
def string (s : String) : Written := fun _ => quote s

/-- The list of `items`. -/
def array (items : List Written) : Written := fun l =>
  l.bracket "[" "]" (items.map fun item => item l.deeper)

/-- The object with the given `members`. -/
def object (members : List (String × Written)) : Written := fun l =>
  l.bracket "\x7b" "\x7d" <|
    members.map fun (name, value) => quote name ++ l.colon ++ value l.deeper

/-- A value that may be missing. -/
def option : Option Written → Written
  | some value => value
  | none => null

end Written

/-- `value` on one line. -/
def compact (value : Written) : String := value .compact

/-- `value` over several lines. -/
def pretty (value : Written) : String := value (.indented 0)

end BatchMachine.Json
