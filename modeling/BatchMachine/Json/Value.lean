import BatchMachine.Text.Numeral

/-!
# JSON values

Values are read strictly: no comments, no trailing commas, no leading zeros, and nothing but
blanks after the value. Blanks here are the four of the format.

Of a number only what readers ask for is kept: which integer it is, if it is written as one. A
string may hold an escape for half of a surrogate pair; such a string is well formed, but has no
text.

* `Json.parse?`: the value that a text denotes.
-/

namespace BatchMachine

/-- A JSON value, as much of it as is read. -/
inductive Json where
  /-- The null value. -/
  | null
  /-- A truth value. -/
  | bool (b : Bool)
  /-- A number, with its value `integer?` if it is written as an integer. -/
  | number (integer? : Option Int)
  /-- A string, with its text `text?` if it has one. -/
  | string (text? : Option String)
  /-- A list of values. -/
  | array (items : List Json)
  /-- Named values, in the order of the text. A name that is no text is `none`. -/
  | object (members : List (Option String × Json))

namespace Json

/-- The rest of `cs` after leading blanks. -/
def skip (cs : List Char) : List Char :=
  cs.dropWhile fun c => c == ' ' || c == '\t' || c == '\n' || c == '\r'

/-- The rest of a text after a fixed beginning. -/
def expect? : List Char → List Char → Option (List Char)
  | [], cs => some cs
  | _ :: _, [] => none
  | e :: es, c :: cs => if e = c then expect? es cs else none

/-- The code unit that the hexadecimal digits `a`, `b`, `c` and `d` denote. -/
def unit? (a b c d : Char) : Option Nat :=
  [a, b, c, d].foldlM (Numeral.pushDigit? 16) 0

/-- `u` is a code unit that starts a surrogate pair. -/
def isHigh (u : Nat) : Bool := 0xd800 ≤ u && u < 0xdc00

/-- `u` is a code unit that ends a surrogate pair. -/
def isLow (u : Nat) : Bool := 0xdc00 ≤ u && u < 0xe000

/-- The character that the surrogate pair of `high` and `low` stands for. -/
def pair (high low : Nat) : Char :=
  Char.ofNat (0x10000 + (high - 0xd800) * 0x400 + (low - 0xdc00))

/-- The character that the one-letter escape `c` stands for. -/
def escaped? (c : Char) : Option Char :=
  if c = '"' ∨ c = '\\' ∨ c = '/' then some c
  else if c = 'b' then some '\x08'
  else if c = 'f' then some '\x0c'
  else if c = 'n' then some '\n'
  else if c = 'r' then some '\r'
  else if c = 't' then some '\t'
  else none

/-- What stands in a string: a character, or an escape with a code unit. -/
inductive Piece where
  /-- A character. -/
  | char (c : Char)
  /-- A code unit. -/
  | unit (u : Nat)

/-- The text of a string. Two code units that form a surrogate pair stand for one character; half
of a pair alone stands for none. -/
def Piece.text? : List Piece → Option (List Char)
  | [] => some []
  | .char c :: ps => (text? ps).map (c :: ·)
  | .unit u :: ps =>
    if isHigh u then
      match ps with
      | .unit v :: ps => if isLow v then (text? ps).map (pair u v :: ·) else none
      | _ => none
    else if isLow u then none
    else (text? ps).map (Char.ofNat u :: ·)

/-- The rest of a string whose opening quote has been read, and the text after it. Controls must
be escaped. -/
def pieces? : List Char → Option (List Piece × List Char)
  | [] => none
  | '"' :: cs => some ([], cs)
  | '\\' :: 'u' :: a :: b :: c :: d :: cs => do
    let u ← unit? a b c d
    let (ps, cs) ← pieces? cs
    return (.unit u :: ps, cs)
  | '\\' :: c :: cs => do
    let e ← escaped? c
    let (ps, cs) ← pieces? cs
    return (.char e :: ps, cs)
  | c :: cs => do
    if c.toNat < 0x20 then none
    let (ps, cs) ← pieces? cs
    return (.char c :: ps, cs)

/-- The string at the start of `cs` whose opening quote has been read, and the text after it. -/
def stringTail? (cs : List Char) : Option (Option String × List Char) := do
  let (ps, cs) ← pieces? cs
  return ((Piece.text? ps).map String.ofList, cs)

/-- Split `cs` after its leading digits. -/
def digits (cs : List Char) : List Char × List Char :=
  (cs.takeWhile Char.isDigit, cs.dropWhile Char.isDigit)

/-- The number that the digits `ds` denote. -/
def decimal (ds : List Char) : Nat :=
  ds.foldl (fun n d => n * 10 + (d.toNat - '0'.toNat)) 0

/-- The rest of a number after its integer part: a fraction and an exponent. The answer is the rest
of `cs`, and whether there was neither. -/
def numberTail? (cs : List Char) : Option (Bool × List Char) := do
  let (plain, cs) ← match cs with
    | '.' :: cs =>
      match digits cs with
      | ([], _) => none
      | (_, cs) => some (false, cs)
    | _ => some (true, cs)
  match cs with
  | 'e' :: cs | 'E' :: cs =>
    let unsigned := match cs with
      | '+' :: cs | '-' :: cs => cs
      | _ => cs
    match digits unsigned with
    | ([], _) => none
    | (_, cs) => some (false, cs)
  | _ => some (plain, cs)

/-- A number without its sign, which is a minus if `negative` is set. An integer has no leading
zeros. -/
def number? (negative : Bool) (cs : List Char) : Option (Json × List Char) := do
  let (ds, cs) := digits cs
  if ds.isEmpty || (ds.head? == some '0' && ds.length != 1) then none
  let (plain, cs) ← numberTail? cs
  let n := decimal ds
  let integer? : Option Int :=
    if !plain || (negative && n == 0) then none
    else some (if negative then -(n : Int) else n)
  return (.number integer?, cs)

/-- A value that is no list and no object. -/
def scalar? : List Char → Option (Json × List Char)
  | 'n' :: cs => do return (.null, ← expect? "ull".toList cs)
  | 't' :: cs => do return (.bool true, ← expect? "rue".toList cs)
  | 'f' :: cs => do return (.bool false, ← expect? "alse".toList cs)
  | '"' :: cs => do
    let (text?, cs) ← stringTail? cs
    return (.string text?, cs)
  | '-' :: cs => number? true cs
  | cs => number? false cs

/-- The name of a member at the start of `cs`, and the rest of the text after its colon. -/
def name? (cs : List Char) : Option (Option String × List Char) :=
  match skip cs with
  | '"' :: cs => do
    let (text?, cs) ← stringTail? cs
    let cs ← expect? [':'] (skip cs)
    return (text?, cs)
  | _ => none

mutual

/-- A value at the start of a text, and the rest of the text. Reading a value and going on in a
list or object each take one of `n`. -/
def value? : Nat → List Char → Option (Json × List Char)
  | 0, _ => none
  | n + 1, cs =>
    match skip cs with
    | '[' :: cs =>
      match skip cs with
      | ']' :: cs => some (.array [], cs)
      | cs => do
        let (items, cs) ← items? n cs
        return (.array items, cs)
    | '\x7b' :: cs =>
      match skip cs with
      | '\x7d' :: cs => some (.object [], cs)
      | cs => do
        let (members, cs) ← members? n cs
        return (.object members, cs)
    | cs => scalar? cs

/-- The values of a list up to its end. -/
def items? : Nat → List Char → Option (List Json × List Char)
  | 0, _ => none
  | n + 1, cs => do
    let (item, cs) ← value? n cs
    match skip cs with
    | ',' :: cs =>
      let (items, cs) ← items? n cs
      return (item :: items, cs)
    | ']' :: cs => return ([item], cs)
    | _ => none

/-- The members of an object up to its end. -/
def members? : Nat → List Char → Option (List (Option String × Json) × List Char)
  | 0, _ => none
  | n + 1, cs => do
    let (name, cs) ← name? cs
    let (item, cs) ← value? n cs
    match skip cs with
    | ',' :: cs =>
      let (members, cs) ← members? n cs
      return ((name, item) :: members, cs)
    | '\x7d' :: cs => return ([(name, item)], cs)
    | _ => none

end

/-- The value that `text` denotes. Every value and every step in a list or object takes at least one
character, so twice the length of the text is enough. -/
def parse? (text : String) : Option Json := do
  let cs := text.toList
  let (value, rest) ← value? (2 * cs.length + 2) cs
  if (skip rest).isEmpty then some value else none

end Json

end BatchMachine
