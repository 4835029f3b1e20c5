import BatchMachine.JobText.Line
import BatchMachine.JobText.Segment
import BatchMachine.Text.Quoted

/-!
# Reading object code

A reader walks forward through the lines of an object text. It knows which part of a segment it
is in: before the first, in the code, past the code, in the input, or past the input. A control
line ends the part before it.

* `Reader.seekCode`, `Reader.seekInput`: go to the next section.
* `Reader.fetchInstruction`, `Reader.fetchInput`: read on in a section, entering it if need be.
* `Reader.segments`: everything that is left.

Every operation answers with the reader after it. After an error the reader is not healthy, but
can still be used.
-/

namespace BatchMachine.JobText

/-- The reasons why an object text cannot be read, each with the number of the line it is about. -/
inductive ReadError where
  /-- The line `line` of code holds `token`, which is no number. -/
  | badNumber (line : Nat) (token : String)
  /-- The line `line` of code is no instruction, for the reason `cause`. -/
  | badInstruction (line : Nat) (cause : FieldError)
  /-- The line `line` of input is not one word. -/
  | badInput (line : Nat)
  /-- The line `line`, which starts a job, has no name. -/
  | missingJobName (line : Nat)
  deriving DecidableEq

/-- The text of a reading error. -/
def ReadError.message : ReadError → String
  | badNumber line token => s!"line {line}: bad number {Text.quoted token}"
  | badInstruction line cause => s!"line {line}: {cause.message}"
  | badInput line => s!"line {line}: expected one hex word"
  | missingJobName line => s!"line {line}: could not find job name"

namespace Line

/-- The fields of `line` as a line of object code: its numerals in base sixteen. -/
def fields (line : Line) : Except ReadError (List Word) :=
  line.tokens.mapM fun token =>
    match Numeral.parse? 16 token with
    | some w => .ok w
    | none => .error (.badNumber line.number token)

/-- The instruction on `line` in object code. -/
def instruction (line : Line) : Except ReadError Instruction := do
  let fields ← line.fields
  match Instruction.ofFields fields with
  | .ok i => .ok i
  | .error cause => .error (.badInstruction line.number cause)

/-- The only word of `line`, as a numeral in the given `base`, if there is just one. -/
def onlyWord? (line : Line) (base : Nat) : Option Word :=
  match line.tokens with
  | [token] => Numeral.parse? base token
  | _ => none

/-- The input word on `line` in object code. -/
def input (line : Line) : Except ReadError Word :=
  match line.onlyWord? 16 with
  | some w => .ok w
  | none => .error (.badInput line.number)

end Line

/-- The part of a segment that a reader is in. -/
inductive Part where
  /-- Before the first segment. -/
  | preamble
  /-- In the code of a segment. -/
  | code
  /-- Past the code of a segment. -/
  | afterCode
  /-- In the input of a segment. -/
  | input
  /-- Past the input of a segment. -/
  | afterInput
  deriving DecidableEq

/-- A reader of object code: what is left to read, and where in a segment it is. -/
structure Reader where
  /-- Where the text came from, for messages. -/
  origin : String
  /-- The lines not yet read. -/
  rest : List Line
  /-- The part of the segment that the reader is in. -/
  part : Part
  /-- The name of the segment that has been entered, empty before the first. -/
  name : String
  /-- No read has failed so far. A reader that is not `healthy` reads on, but no device is bound to
  it. -/
  healthy : Bool
  deriving DecidableEq

/-- What a reading operation gives: its answer, and the reader after it. -/
abbrev Reading (α : Type) := Except ReadError α × Reader

namespace Reader

variable {α : Type}

/-- A reader at the start of `text`, which comes from `origin`. -/
def ofText (origin text : String) : Reader :=
  ⟨origin, linesOf text, .preamble, "", true⟩

/-- All lines of `r` have been read. -/
def atEnd (r : Reader) : Bool := r.rest.isEmpty

/-- The answer of a read that has failed with `e`. -/
def fail (r : Reader) (e : ReadError) : Reading α :=
  (.error e, { r with healthy := false })

/-- Go past the next `$JOB` line. In the code of a segment the reader stays where it is. The answer
is `false` if there is no such line. -/
def seekCode (r : Reader) : Reading Bool :=
  if r.part = .code then (.ok true, r)
  else
    match r.rest.dropWhile fun l => !l.isJob with
    | [] => (.ok false, { r with rest := [] })
    | line :: rest =>
      match line.name? with
      | some name => (.ok true, { r with rest, name := name, part := .code })
      | none => fail { r with rest } (.missingJobName line.number)

/-- Go past the next `$RUN` line. A `$JOB` line stops the search and is not read. The answer is
`false` if there is no input section. -/
def seekInput (r : Reader) : Reading Bool :=
  if r.part = .input then (.ok true, r)
  else
    match r.rest.dropWhile fun l => !l.isRun && !l.isJob with
    | [] => (.ok false, { r with rest := [] })
    | line :: rest =>
      -- the part does not change if there is no section, so that a later search ends here too
      if line.isRun then (.ok true, { r with rest, part := .input })
      else (.ok false, { r with rest := line :: rest })

/-- Read a line of the section at hand. At a control line, which stays unread, and at the end of the
text the section is over, and the reader is in the part `after` it. -/
def takeLine (r : Reader) (after : Part) : Option Line × Reader :=
  match r.rest with
  | [] => (none, { r with part := after })
  | line :: rest =>
    if line.isControl then (none, { r with part := after })
    else (some line, { r with rest })

/-- Read what the next line of the section at hand stands for by `decode`. -/
def readLine (r : Reader) (after : Part) (decode : Line → Except ReadError α) :
    Reading (Option α) :=
  match r.takeLine after with
  | (none, r) => (.ok none, r)
  | (some line, r) =>
    match decode line with
    | .ok a => (.ok (some a), r)
    | .error e => r.fail e

/-- Enter a section by `advance`, and `read` its first line if there is such a section. -/
def enter (advance : Reader → Reading Bool) (read : Reader → Reading (Option α)) (r : Reader) :
    Reading (Option α) :=
  match advance r with
  | (.ok true, r) => read r
  | (.ok false, r) => (.ok none, r)
  | (.error e, r) => (.error e, r)

/-- Read an instruction of the code at hand, `none` at its end. -/
def readInstruction (r : Reader) : Reading (Option Instruction) :=
  r.readLine .afterCode Line.instruction

/-- Read a word of the input at hand, `none` at its end. -/
def readInput (r : Reader) : Reading (Option Word) :=
  r.readLine .afterInput Line.input

/-- The next instruction of the segment, `none` once its code is over. Before the first segment the
reader enters it. -/
def fetchInstruction (r : Reader) : Reading (Option Instruction) :=
  match r.part with
  | .code => r.readInstruction
  | .preamble => enter seekCode readInstruction r
  | _ => (.ok none, r)

/-- The next input word of the segment, `none` once its input is over. Outside of an input section
the reader looks for one first. -/
def fetchInput (r : Reader) : Reading (Option Word) :=
  match r.part with
  | .input => r.readInput
  | .afterInput => (.ok none, r)
  | _ => enter seekInput readInput r

/-- Repeat a read until it gives nothing more, at most `n` times. -/
def collect (next : Reader → Reading (Option α)) : Nat → Reader → Reading (List α)
  | 0, r => (.ok [], r)
  | n + 1, r =>
    match next r with
    | (.error e, r) => (.error e, r)
    | (.ok none, r) => (.ok [], r)
    | (.ok (some a), r) =>
      match collect next n r with
      | (.ok as, r) => (.ok (a :: as), r)
      | (.error e, r) => (.error e, r)

/-- Repeat the read `next` until it gives nothing more. A read that gives something takes a line, so
there are no more reads than lines. -/
def readAll (next : Reader → Reading (Option α)) (r : Reader) : Reading (List α) :=
  r.collect next (r.rest.length + 1)

/-- The input section that follows the code at hand, `none` if there is none. -/
def inputSection (r : Reader) : Reading (Option (List Word)) :=
  match r.seekInput with
  | (.error e, r) => (.error e, r)
  | (.ok false, r) => (.ok none, r)
  | (.ok true, r) =>
    match r.readAll fetchInput with
    | (.ok input, r) => (.ok (some input), r)
    | (.error e, r) => (.error e, r)

/-- The rest of the segment whose code `r` has entered. -/
def segment (r : Reader) : Reading Segment :=
  match r.readAll fetchInstruction with
  | (.error e, r') => (.error e, r')
  | (.ok code, r') =>
    match r'.inputSection with
    | (.error e, r') => (.error e, r')
    | (.ok input?, r') => (.ok ⟨r.name, code, input?⟩, r')

/-- Read at most `n` segments. -/
def segmentsUpTo : Nat → Reader → Reading (List Segment)
  | 0, r => (.ok [], r)
  | n + 1, r =>
    match r.seekCode with
    | (.error e, r) => (.error e, r)
    | (.ok false, r) => (.ok [], r)
    | (.ok true, r) =>
      match r.segment with
      | (.error e, r) => (.error e, r)
      | (.ok s, r) =>
        match segmentsUpTo n r with
        | (.ok ss, r) => (.ok (s :: ss), r)
        | (.error e, r) => (.error e, r)

/-- Read every segment that is left in `r`. All but the first start with a line of their own, so
there are at most as many as lines, and one more. -/
def segments (r : Reader) : Reading (List Segment) :=
  segmentsUpTo (r.rest.length + 2) r

end Reader

end BatchMachine.JobText
