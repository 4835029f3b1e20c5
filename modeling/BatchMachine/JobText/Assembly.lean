import BatchMachine.JobText.Reader

/-!
# Assembling job texts

A line of assembly holds an instruction, a label and an instruction, or a label alone, which then
stands for the next instruction. Operands are trap names, decimal numbers, or labels; a label
operand is the offset from the instruction after its own to the labelled one.

* `Shape`: what a line of assembly holds.
* `collect`: the labels and statements of a code section.
* `encode`: the instruction of a statement.
* `assemble`: the segments of an assembly text.
* `assembleText`: its object code.
-/

namespace BatchMachine.JobText

/-- The reasons why a text cannot be assembled, each with the numbers of the lines it is about. -/
inductive AssemblyError where
  /-- The line `line` holds no operation, neither first nor after a label: `word` is none. -/
  | unknownMnemonic (line : Nat) (word : String)
  /-- The operands on the line `line` do not make an instruction, for the reason `cause`. -/
  | operands (line : Nat) (cause : FieldError)
  /-- `label` stands for two instructions, those with the numbers `first` and `second`. -/
  | ambiguousLabel (label : String) (first second : Nat)
  /-- The operand `label` on the line `line` is no number, no trap name and no label. -/
  | undefinedLabel (line : Nat) (label : String)
  /-- The line `line`, which starts a job, has no name. -/
  | missingJobName (line : Nat)
  /-- The line `line` of the input is not one word. -/
  | badInput (line : Nat)
  deriving DecidableEq

/-- The text of an assembly error. -/
def AssemblyError.message : AssemblyError → String
  | unknownMnemonic line word => s!"unknown mnemonic on line {line}: {word}"
  | operands line cause => s!"line {line}: {cause.message}"
  | ambiguousLabel label first second =>
    s!"ambiguous label {label}: can mean instruction {first} or {second}"
  | undefinedLabel line label => s!"line {line}: undefined label {label}"
  | missingJobName line => s!"line {line}: could not find job name"
  | badInput line => s!"line {line}: expected one decimal word"

/-- What a line of assembly holds. -/
inductive Shape where
  /-- The operation `opcode` and its operands. -/
  | plain (opcode : Opcode) (operands : List String)
  /-- The label `label`, the operation `opcode` and its operands. -/
  | labelled (label : String) (opcode : Opcode) (operands : List String)
  /-- The label `label` alone. -/
  | lone (label : String)
  /-- The label `label`, and then something that is no operation. -/
  | unknown (label : String)
  deriving DecidableEq

/-- The shape of a line that starts with the word `first`. -/
def shape (first : String) (others : List String) : Shape :=
  match Opcode.ofMnemonic? first with
  | some opcode => .plain opcode others
  | none =>
    match others with
    | [] => .lone first
    | second :: operands =>
      match Opcode.ofMnemonic? second with
      | some opcode => .labelled first opcode operands
      | none => .unknown first

/-- The label that a line of this `Shape` defines, if it defines one. -/
def Shape.label? : Shape → Option String
  | plain _ _ => none
  | labelled label _ _ => some label
  | lone label => some label
  | unknown label => some label

/-- An operation with the texts of its operands, which are not resolved yet. -/
structure Statement where
  /-- The number of the line that it stands on. -/
  line : Nat
  /-- The operation. -/
  opcode : Opcode
  /-- The texts of the operands. -/
  operands : List String
  deriving DecidableEq

/-- The instruction numbers that labels stand for, the latest definition first. -/
abbrev Labels := List (String × Nat)

/-- Let `label` stand for the instruction with the number `index`. It may be said twice, but only of
one instruction. -/
def Labels.define (labels : Labels) (label : String) (index : Nat) :
    Except AssemblyError Labels :=
  match labels.lookup label with
  | none => .ok ((label, index) :: labels)
  | some first =>
    if first = index then .ok labels else .error (.ambiguousLabel label first index)

/-- Define the label of a line of the shape `s`, if it has one, for the instruction `index`. -/
def Labels.defineFor (labels : Labels) (s : Shape) (index : Nat) : Except AssemblyError Labels :=
  match s.label? with
  | none => .ok labels
  | some label => labels.define label index

/-- The labels and statements of lines of code, the first statement having number `index`. -/
def collect (labels : Labels) (index : Nat) :
    List Line → Except AssemblyError (Labels × List Statement)
  | [] => .ok (labels, [])
  | line :: lines =>
    match line.tokens with
    | [] => collect labels index lines
    | first :: others => do
      let s := shape first others
      let labels ← labels.defineFor s index
      match s with
      | .plain opcode operands | .labelled _ opcode operands =>
        let (labels, statements) ← collect labels (index + 1) lines
        return (labels, ⟨line.number, opcode, operands⟩ :: statements)
      | .lone _ => collect labels index lines
      | .unknown label => throw (.unknownMnemonic line.number label)

/-- The word that an operand of the instruction with number `index` stands for. -/
def operand (labels : Labels) (line index : Nat) (token : String) : Except AssemblyError Word :=
  match Trap.ofName? token with
  | some trap => .ok trap.code
  | none =>
    match Numeral.parse? 10 token with
    | some w => .ok w
    | none =>
      match labels.lookup token with
      | some target => .ok (Word.ofCount target - (Word.ofCount index + 1))
      | none => .error (.undefinedLabel line token)

/-- The instruction of the statement with number `index`. -/
def encode (labels : Labels) (index : Nat) (s : Statement) : Except AssemblyError Instruction := do
  let operands ← s.operands.mapM (operand labels s.line index)
  match Instruction.ofOperands s.opcode operands with
  | .ok i => .ok i
  | .error cause => .error (.operands s.line cause)

/-- The instructions of the `lines` of a code section: collect labels and statements, then resolve
the operands. -/
def assembleCode (lines : List Line) : Except AssemblyError (List Instruction) := do
  let (labels, statements) ← collect [] 0 lines
  statements.zipIdx.mapM fun (s, index) => encode labels index s

/-- The input word on `line`, a decimal numeral. -/
def assembleInput (line : Line) : Except AssemblyError Word :=
  match line.onlyWord? 10 with
  | some w => .ok w
  | none => .error (.badInput line.number)

/-- The input section that follows a code section: it must come right after it, opened by a `$RUN`
line. -/
def assembleInputSection : List Line → Except AssemblyError (Option (List Word))
  | [] => .ok none
  | line :: lines =>
    if line.isRun then return some (← (plainLines lines).mapM assembleInput) else .ok none

/-- The segment of one part of an assembly text, the `$JOB` line `job` and the `lines` up to the
next one. -/
def assemblePart (job : Line) (lines : List Line) : Except AssemblyError Segment :=
  match job.name? with
  | none => .error (.missingJobName job.number)
  | some name => do
    let code ← assembleCode (plainLines lines)
    let input? ← assembleInputSection (fromControl lines)
    return ⟨name, code, input?⟩

/-- The segments of the assembly text `source`. -/
def assemble (source : String) : Except AssemblyError (List Segment) :=
  (parts (linesOf source)).mapM fun (job, lines) => assemblePart job lines

/-- The object code of the assembly text `source`. -/
def assembleText (source : String) : Except AssemblyError String := do
  return objectText (← assemble source)

end BatchMachine.JobText
