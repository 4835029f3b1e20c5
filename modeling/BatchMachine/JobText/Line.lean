import BatchMachine.Text.Blank

/-!
# Lines of a job text

Assembly and object code share their lines: a percent sign starts a comment, commas are as good
as blanks, and blank lines do not count. A line that starts with a dollar sign is a control
line; its first word is its keyword.

* `linesOf`: the lines of a text that hold something, with their numbers.
* `parts`: lines cut into the parts that belong to one job each.
-/

namespace BatchMachine.JobText

/-- A line of a job text with its comment, commas and outer blanks removed. -/
structure Line where
  /-- The number of the line in its text, counted from one. -/
  number : Nat
  /-- What the line holds. -/
  text : List Char
  deriving DecidableEq

namespace Line

/-- The words of `line`. -/
def tokens (line : Line) : List String :=
  (Text.words line.text).map String.ofList

/-- `line` is a control line: it starts with a dollar sign. -/
def isControl (line : Line) : Bool :=
  line.text.head? == some '$'

/-- `line` is a control line whose first word is `keyword`. -/
def hasKeyword (line : Line) (keyword : String) : Bool :=
  line.isControl && line.tokens.head? == some keyword

/-- `line` starts the code of a job. -/
def isJob (line : Line) : Bool := line.hasKeyword "$JOB"

/-- `line` starts the input of a job. -/
def isRun (line : Line) : Bool := line.hasKeyword "$RUN"

/-- The name that `line` gives to the job it starts: its second word. -/
def name? (line : Line) : Option String := line.tokens[1]?

end Line

/-- What is left of the line `raw` without its comment, commas and outer blanks. -/
def cleaned (raw : List Char) : List Char :=
  Text.trim <| (raw.takeWhile (· != '%')).map fun c => if c = ',' then ' ' else c

/-- The lines of `text` that hold something, with their numbers in `text`. -/
def linesOf (text : String) : List Line :=
  ((text.toList.splitOn '\n').zipIdx 1).filterMap fun (raw, number) =>
    let kept := cleaned raw
    if kept.isEmpty then none else some ⟨number, kept⟩

/-- Each `$JOB` line, with the lines up to the next one. Lines before the first belong to no job. -/
def parts : List Line → List (Line × List Line)
  | [] => []
  | line :: lines =>
    if line.isJob then (line, lines.takeWhile fun l => !l.isJob) :: parts lines
    else parts lines

/-- Those of `lines` that stand before the first control line. -/
def plainLines (lines : List Line) : List Line :=
  lines.takeWhile fun l => !l.isControl

/-- Those of `lines` from the first control line on. -/
def fromControl (lines : List Line) : List Line :=
  lines.dropWhile fun l => !l.isControl

end BatchMachine.JobText
