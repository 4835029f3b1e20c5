import BatchMachine.Instruction.Basic

/-!
# Job segments

A job file holds segments: a name, the code, and the input words if the segment has a section
for them.

* `objectText`: the object code of segments.
-/

namespace BatchMachine.JobText

/-- A segment of a job: code that is loaded as a whole, and the input that goes with it. -/
structure Segment where
  /-- The name on the `$JOB` line that starts the segment. -/
  name : String
  /-- The instructions. -/
  code : List Instruction
  /-- The input words, `none` if the segment has no input section. -/
  input? : Option (List Word)
  deriving DecidableEq

/-- The text of `lines`, each of them with its end. -/
def unlines (lines : List String) : String :=
  String.join (lines.map (· ++ "\n"))

/-- The lines of an input section, with the `numeral` for each word. -/
def inputLines (numeral : Word → String) : Option (List Word) → List String
  | none => []
  | some input => "$RUN" :: input.map numeral ++ ["$END"]

/-- The lines of `s` in object code. -/
def Segment.objectLines (s : Segment) : List String :=
  ("$JOB " ++ s.name) :: s.code.map Instruction.objectText ++ inputLines Numeral.hex s.input?

/-- The object code of `segments`. -/
def objectText (segments : List Segment) : String :=
  unlines (segments.flatMap Segment.objectLines)

end BatchMachine.JobText
