import BatchMachine.JobText.Reader
import BatchMachine.Text.Layout

/-!
# Listings

A listing shows object code as assembly. Each instruction is followed by its address and its
object code in a comment, so that a listing is again a text to assemble.
-/

namespace BatchMachine.JobText

/-- The line of the instruction `i` at `address` in a listing. -/
def listingLine (address : Nat) (i : Instruction) : String :=
  "    " ++ Text.padRight 20 i.text ++ " % " ++ Text.padNumber 3 address ++ ": " ++ i.objectText

/-- The lines of `s` in a listing. -/
def Segment.listingLines (s : Segment) : List String :=
  ("$JOB " ++ s.name) :: s.code.zipIdx.map (fun (i, address) => listingLine address i) ++
    inputLines Numeral.decimal s.input?

/-- The listing of `segments`, an assembly text with the addresses as comments. -/
def listing (segments : List Segment) : String :=
  unlines <|
    ["% RMMIX Disassembly", "% -----------------"] ++ segments.flatMap Segment.listingLines

/-- The listing of the text `object`, read as object code. -/
def disassemble (object : String) : Except ReadError String := do
  return listing (← ((Reader.ofText "" object).segments).1)

end BatchMachine.JobText
