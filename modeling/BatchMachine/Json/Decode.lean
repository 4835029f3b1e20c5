import BatchMachine.Json.Value

/-!
# Decoding JSON values

A record may be written as an object, with its fields in any order, or as a list of its fields in
their order. In an object no field may stand twice, and names that are not fields are passed over
unless the record is closed.

* `Json.Shape.slots?`: the fields of a record.
* `Json.int?`, `Json.nat?`, `Json.text?`, `Json.unit?`: plain values.
-/

namespace BatchMachine.Json

/-- The integer that a value is, if it is one. -/
def int? : Json → Option Int
  | number integer? => integer?
  | _ => none

/-- The natural number below `bound` that `j` is, if it is one. -/
def nat? (bound : Nat) (j : Json) : Option Nat :=
  match j.int? with
  | some (.ofNat n) => if n < bound then some n else none
  | _ => none

/-- The word that `j` is, if it is one. -/
def word? (j : Json) : Option Word :=
  j.int?.bind Word.ofInt?

/-- The words of a list of the length `count`. -/
def words? (count : Nat) : Json → Option (List Word)
  | array items => if items.length = count then items.mapM word? else none
  | _ => none

/-- The text of a string. -/
def text? : Json → Option String
  | string text? => text?
  | _ => none

/-- The null value. -/
def isNull : Json → Bool
  | null => true
  | _ => false

/-- A list. -/
def isArray : Json → Bool
  | array _ => true
  | _ => false

/-- The title of a choice: a string, or an object whose one member has the title as its name and
no value. -/
def title? : Json → Option String
  | string text? => text?
  | object [(name?, value)] => if value.isNull then name? else none
  | _ => none

/-- The one of the choices `all` that `j` stands for by its `title`. -/
def choice? {α : Type} (all : List α) (title : α → String) (j : Json) : Option α := do
  let name ← j.title?
  all.find? fun a => title a = name

/-- How a record is written: as an object, or as a list of its fields. -/
structure Shape where
  /-- The names of the fields, in their order. -/
  names : List String
  /-- Other names are refused. -/
  closed : Bool
  /-- A list may end before the last field. -/
  short : Bool

namespace Shape

/-- No one of `names` stands there twice. -/
def distinct (names : List String) : Bool :=
  names.Nodup

/-- The fields of a record of the shape `s` in an object with the given `members`. -/
def slotsOfMembers? (s : Shape) (members : List (Option String × Json)) :
    Option (List (Option Json)) := do
  let members ← members.mapM fun (name?, value) => name?.map fun name => (name, value)
  let known := members.filter fun (name, _) => s.names.contains name
  if !distinct (known.map (·.1)) then none
  if s.closed && known.length != members.length then none
  return s.names.map fun name => known.lookup name

/-- The fields of a record of the shape `s` in a list of `items`. -/
def slotsOfItems? (s : Shape) (items : List Json) : Option (List (Option Json)) :=
  let missing := s.names.length - items.length
  if items.length ≤ s.names.length && (s.short || missing == 0) then
    some (items.map some ++ List.replicate missing none)
  else none

/-- The fields of a record of the shape `s`, in their order; those that are not written are
`none`. -/
def slots? (s : Shape) : Json → Option (List (Option Json))
  | array items => s.slotsOfItems? items
  | object members => s.slotsOfMembers? members
  | _ => none

end Shape

end BatchMachine.Json
