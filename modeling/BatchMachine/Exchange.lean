import BatchMachine.Config
import BatchMachine.Json.Decode
import BatchMachine.Json.Written
import BatchMachine.Machine.Tick

/-!
# Exchange forms

Configurations are read from JSON, reports are written as JSON, and the small values of the
machine have a form both ways. Choices are written by their titles, records as objects with the
fields in a fixed order.

Reading takes a value as it is written: the slots of an instruction that its operation does not
use keep the words that stand there.

* `Config.parse`, `Config.load`: a configuration.
* `Report.written`: a report.
* `decode?`, `written`: the two directions for the other values.
-/

namespace BatchMachine

open Json (Shape Written)

/-- The written form of `w`. -/
def Word.written (w : Word) : Written := .int w.toInt

namespace Opcode

/-- Read an operation by its `title`. -/
def decode? (j : Json) : Option Opcode := j.choice? all title

/-- Write `op` by its `title`. -/
def written (op : Opcode) : Written := .string op.title

end Opcode

namespace Trap

/-- Read a trap by its `title`. -/
def decode? (j : Json) : Option Trap := j.choice? all title

/-- Write `t` by its `title`. -/
def written (t : Trap) : Written := .string t.title

end Trap

namespace BootState

/-- Read a boot status by its `title`. -/
def decode? (j : Json) : Option BootState := j.choice? [fresh, booted] title

/-- Write `s` by its `title`. -/
def written (s : BootState) : Written := .string s.title

end BootState

namespace Life

/-- Read a life status by its `title`. -/
def decode? (j : Json) : Option Life := j.choice? [runnable, waiting, finished] title

/-- Write `s` by its `title`. -/
def written (s : Life) : Written := .string s.title

end Life

namespace Instruction

/-- Read an instruction with all of its slots, used or not. -/
def decode? (j : Json) : Option Instruction := do
  match ← Shape.slots? ⟨["opcode", "operands"], false, false⟩ j with
  | [some opcode, some operands] =>
    let opcode ← Opcode.decode? opcode
    match ← operands.words? 3 with
    | [first, second, third] => return ⟨opcode, first, second, third⟩
    | _ => none
  | _ => none

/-- Write `i` with all of its slots, used or not. -/
def written (i : Instruction) : Written :=
  .object [("opcode", i.opcode.written), ("operands", .array (i.slots.map Word.written))]

end Instruction

namespace TrapLine

/-- Read a trap line from `j`. -/
def decode? (j : Json) : Option TrapLine := do
  match ← Shape.slots? ⟨["number", "data", "status"], false, false⟩ j with
  | [some number, some data, some status] =>
    return ⟨← number.word?, ← data.word?, ← status.word?⟩
  | _ => none

/-- Write the trap line `t`. -/
def written (t : TrapLine) : Written :=
  .object [("number", Word.written t.number), ("data", Word.written t.data),
    ("status", Word.written t.status)]

end TrapLine

namespace Registers

/-- Read registers from `j`. -/
def decode? (j : Json) : Option Registers := do
  match ← Shape.slots? ⟨["regs"], false, false⟩ j with
  | [some regs] =>
    let words := (← regs.words? registerCount).toArray
    if h : words.size = registerCount then some ⟨words, h⟩ else none
  | _ => none

/-- Write the registers `r`. -/
def written (r : Registers) : Written :=
  .object [("regs", .array (r.words.toList.map Word.written))]

end Registers

namespace Outcome

/-- The kind of an outcome, as records name it. -/
def kind : Outcome → String
  | halted _ => "halted"
  | fatal _ => "fatal"
  | completed => "completed"
  | bootFailed => "boot_failed"

/-- The status of an outcome, if its kind has one. -/
def status? : Outcome → Option Word
  | halted status => some status
  | fatal data => some data
  | completed | bootFailed => none

/-- The outcome of the given `kind`, with the status `status?` that may be written beside it. Kinds
without a status take the null value for it. -/
def ofKind? (kind : String) (status? : Option Json) : Option Outcome :=
  if kind = "halted" then (status?.bind Json.word?).map halted
  else if kind = "fatal" then (status?.bind Json.word?).map fatal
  else if status?.any fun status => !status.isNull then none
  else if kind = "completed" then some completed
  else if kind = "boot_failed" then some bootFailed
  else none

/-- Read an outcome from `j`. As a list it always has a status, and its kind is a plain string. -/
def decode? (j : Json) : Option Outcome := do
  match ← Shape.slots? ⟨["kind", "status"], false, false⟩ j with
  | [some kind, status?] => ofKind? (← if j.isArray then kind.text? else kind.title?) status?
  | _ => none

/-- Write the outcome `o`. -/
def written (o : Outcome) : Written :=
  .object <| ("kind", .string o.kind) ::
    (o.status?.map fun status => ("status", Word.written status)).toList

end Outcome

namespace JobReport

/-- The fields of a report on a job. -/
def shape : Shape := ⟨["index", "name", "origin", "sub_jobs", "life", "outcome"], false, false⟩

/-- Read an outcome that may be missing, or written as the null value. -/
def outcome?? : Option Json → Option (Option Outcome)
  | none => some none
  | some j => if j.isNull then some none else (Outcome.decode? j).map some

/-- Read a report on a job from `j`. -/
def decode? (j : Json) : Option JobReport := do
  match ← shape.slots? j with
  | [some index, some name, some origin, some segments, some life, outcome] =>
    return {
      index := ← index.nat? UInt64.size
      name := ← name.text?
      origin := ← origin.text?
      segments := ← segments.nat? UInt32.size
      life := ← Life.decode? life
      outcome? := ← outcome?? outcome }
  | _ => none

/-- Write the report `s` on a job. -/
def written (s : JobReport) : Written :=
  .object [("index", .nat s.index), ("name", .string s.name), ("origin", .string s.origin),
    ("sub_jobs", .nat s.segments), ("life", s.life.written),
    ("outcome", .option (s.outcome?.map Outcome.written))]

end JobReport

/-- Write the report `r`. -/
def Report.written (r : Report) : Written :=
  .object [("status", Word.written r.status), ("ticks", .nat r.ticks),
    ("budget_exhausted", .bool r.budgetExhausted), ("instructions", .nat r.instructions),
    ("idle_ticks", .nat r.idleTicks), ("context_switches", .nat r.switches),
    ("jobs", .array (r.jobs.map JobReport.written))]

/-- Write `cpu`, without its data memory. -/
def Processor.written (cpu : Processor) : Written :=
  .object [("regs", cpu.regs.written), ("trap", cpu.trap.written),
    ("program", .array (cpu.program.toList.map Instruction.written)),
    ("cycles", .nat cpu.cycles), ("idle_ticks", .nat cpu.idleTicks),
    ("last_instr", .option (cpu.last?.map Instruction.written))]

/-- The reasons why `load` and `parse` give no configuration. -/
inductive ConfigError where
  /-- The file at `path` cannot be read, for the reason `cause`. -/
  | unreadable (path : String) (cause : FileError)
  /-- The text is no configuration. -/
  | malformed
  /-- The configuration makes no sense: it has `flaw`. -/
  | flawed (flaw : ConfigFlaw)
  deriving DecidableEq

/-- The text of a configuration error. -/
def ConfigError.message : ConfigError → String
  | unreadable path cause => s!"cannot read config {path}: {cause.message}"
  | malformed => "bad config JSON"
  | flawed flaw => flaw.message

namespace Config

/-- The fields of a configuration. -/
def shape : Shape := ⟨["device_delay", "max_ticks", "output_dir", "log_path"], true, true⟩

/-- Read a field by `decode?`, or take the value `standard` if it is not written. -/
def fieldOr {α : Type} (standard : α) (decode? : Json → Option α) : Option Json → Option α
  | none => some standard
  | some j => decode? j

/-- Read a configuration from `j`. What is not written is as in `Config.standard`. -/
def decode? (j : Json) : Option Config := do
  match ← shape.slots? j with
  | [delay, ticks, dir, log] =>
    return {
      deviceDelay := ← fieldOr standard.deviceDelay (Json.nat? UInt32.size) delay
      maxTicks := ← fieldOr standard.maxTicks (Json.nat? UInt64.size) ticks
      outputDir := ← fieldOr standard.outputDir Json.text? dir
      logPath := ← fieldOr standard.logPath Json.text? log }
  | _ => none

/-- The configuration that the JSON text `text` denotes. -/
def parse (text : String) : Except ConfigError Config :=
  match (Json.parse? text).bind decode? with
  | none => .error .malformed
  | some c =>
    match c.flaw? with
    | some flaw => .error (.flawed flaw)
    | none => .ok c

/-- The configuration in the file at `path`. -/
def load (files : Files) (path : String) : Except ConfigError Config :=
  match files.read path with
  | .error cause => .error (.unreadable path cause)
  | .ok text => parse text

end Config

end BatchMachine
