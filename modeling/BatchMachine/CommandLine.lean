import BatchMachine.Text.Numeral

/-!
# The command line

The first argument names a command: `run`, `asm`, `disasm` or `help`. The others are the options
and operands of the command. They are looked at from left to right, and the first that asks for
help or is wrong decides; what is missing shows only at the end.

* `CommandLine.parse`: what the arguments ask for.
-/

namespace BatchMachine.CommandLine

/-- What a run is told on the command line. -/
structure RunOptions where
  /-- The paths of the object files, one for each job. -/
  objects : List String
  /-- The path of a configuration, if one is given. -/
  config? : Option String
  /-- The delay of devices, in place of `Config.deviceDelay`. -/
  delay? : Option Nat
  /-- The budget of ticks, in place of `Config.maxTicks`. -/
  maxTicks? : Option Nat
  /-- The directory of the output files, in place of `Config.outputDir`. -/
  outputDir? : Option String
  /-- The path of the log file, in place of `Config.logPath`. -/
  log? : Option String
  /-- The path of a file for the report, if one is given. -/
  report? : Option String
  deriving DecidableEq

/-- A command. -/
inductive Command where
  /-- Run jobs with the given `options`. -/
  | run (options : RunOptions)
  /-- Assemble the job texts at `sources`, to the file `output?` or to the standard output. -/
  | assemble (sources : List String) (output? : Option String)
  /-- List the object code in the file `object`. -/
  | disassemble (object : String)
  deriving DecidableEq

/-- The paths that a command names. -/
def Command.paths : Command → List String
  | run o =>
    o.objects ++ o.config?.toList ++ o.outputDir?.toList ++ o.log?.toList ++ o.report?.toList
  | assemble sources output? => sources ++ output?.toList
  | disassemble object => [object]

/-- What the arguments of the program ask for. -/
inductive Request where
  /-- The command `c`. -/
  | command (c : Command)
  /-- Help. -/
  | help
  /-- The version. -/
  | version
  /-- Nothing that makes sense. -/
  | misuse
  deriving DecidableEq

/-- The reasons why the arguments of a command are not looked at any further. -/
inductive Stop where
  /-- One asks for help. -/
  | help
  /-- One is wrong. -/
  | misuse
  deriving DecidableEq

/-- What an option takes. -/
inductive Kind where
  /-- A path. -/
  | path
  /-- A number below a bound. A minus sign may stand before zero if `signed`. -/
  | number (signed : Bool) (bound : Nat)
  deriving DecidableEq

/-- An option, by its long and its short name. -/
structure Opt where
  /-- The name after two dashes. -/
  long : String
  /-- The letter after one dash. -/
  short : Char
  /-- What it takes. -/
  kind : Kind
  deriving DecidableEq

/-- The options and operands of a command. -/
structure Grammar where
  /-- The options. -/
  options : List Opt
  /-- There may be more than one operand. -/
  many : Bool

/-- The arguments of a command so far. -/
structure Parsed where
  /-- The operands. -/
  operands : List String
  /-- The values of the options, by their long names. -/
  values : List (String × String)
  deriving DecidableEq

/-- The number below `bound` that `text` denotes, with a sign in front if `signed` allows it. -/
def number? (signed : Bool) (bound : Nat) (text : String) : Option Nat := do
  let (negative, digits) := match text.toList with
    | '+' :: ds => (false, ds)
    | '-' :: ds => (true, ds)
    | ds => (false, ds)
  let n ← Numeral.magnitude? 10 digits
  if (negative && (!signed || n != 0)) || n ≥ bound then none else some n

/-- `text` is a value of the kind `k`. -/
def Kind.accepts (k : Kind) (text : String) : Bool :=
  match k with
  | path => text != ""
  | number signed bound => (number? signed bound text).isSome

namespace Parsed

/-- No arguments. -/
def none : Parsed := ⟨[], []⟩

/-- Add the operand `text`, which must be a path. -/
def addOperand (p : Parsed) (g : Grammar) (text : String) : Except Stop Parsed :=
  if text = "" || (!g.many && !p.operands.isEmpty) then .error .misuse
  else .ok { p with operands := p.operands ++ [text] }

/-- Set the option `o`, which must not be set yet, to `text`. -/
def setOption (p : Parsed) (o : Opt) (text : String) : Except Stop Parsed :=
  if (p.values.lookup o.long).isSome || !o.kind.accepts text then .error .misuse
  else .ok { p with values := p.values ++ [(o.long, text)] }

/-- The value of the option `name`, which takes a path. -/
def path? (p : Parsed) (name : String) : Option String :=
  p.values.lookup name

/-- The value of the option `name`, which takes a number. -/
def number? (p : Parsed) (name : String) : Option Nat :=
  (p.values.lookup name).bind (CommandLine.number? true UInt64.size)

end Parsed

/-- An argument by itself: the result of `argument`. -/
inductive Argument where
  /-- The operand `text`. -/
  | operand (text : String)
  /-- The option `o` with its value `text`. -/
  | attached (o : Opt) (text : String)
  /-- The option `o`, whose value is the next argument. -/
  | separate (o : Opt)
  /-- The end, for the reason `s`. -/
  | stop (s : Stop)
  deriving DecidableEq

/-- `text` cannot be the value of an option before it. -/
def isFlag (text : String) : Bool :=
  match text.toList with
  | '-' :: _ :: _ => true
  | _ => false

/-- The argument that starts with two dashes, given what follows them, `cs`. -/
def longArgument (g : Grammar) (cs : List Char) : Argument :=
  let name := String.ofList (cs.takeWhile (· != '='))
  match g.options.find? (fun o => o.long = name), cs.dropWhile (· != '=') with
  | some o, _ :: value => .attached o (String.ofList value)
  | some o, [] => .separate o
  | none, [] => .stop (if name = "help" then .help else .misuse)
  | none, _ :: _ => .stop .misuse

/-- The argument that starts with one dash, given the letter `c` after it and the rest `cs`. -/
def shortArgument (g : Grammar) (c : Char) (cs : List Char) : Argument :=
  match g.options.find? (fun o => o.short = c), cs with
  | some o, [] => .separate o
  | some o, '=' :: value => .attached o (String.ofList value)
  | some o, value => .attached o (String.ofList value)
  | none, _ => .stop (if c = 'h' then .help else .misuse)

/-- What the argument `text` is by itself. -/
def argument (g : Grammar) (text : String) : Argument :=
  match text.toList with
  | '-' :: '-' :: cs => longArgument g cs
  | '-' :: c :: cs => shortArgument g c cs
  | _ => .operand text

/-- Look at the arguments of a command, after those in `p`. After two dashes there are only
operands. -/
def scan (g : Grammar) (p : Parsed) : List String → Except Stop Parsed
  | [] => .ok p
  | text :: rest =>
    if text = "--" then rest.foldlM (fun p text => p.addOperand g text) p
    else
      match argument g text with
      | .stop s => .error s
      | .operand text =>
        match p.addOperand g text with
        | .ok p => scan g p rest
        | .error s => .error s
      | .attached o value =>
        match p.setOption o value with
        | .ok p => scan g p rest
        | .error s => .error s
      | .separate o =>
        match rest with
        | [] => .error .misuse
        | value :: rest =>
          if isFlag value then .error .misuse
          else
            match p.setOption o value with
            | .ok p => scan g p rest
            | .error s => .error s

/-- The arguments of `run`. -/
def runGrammar : Grammar where
  options :=
    [⟨"config", 'c', .path⟩, ⟨"delay", 'd', .number true UInt32.size⟩,
      ⟨"max-ticks", 'm', .number false UInt64.size⟩, ⟨"output-dir", 'o', .path⟩,
      ⟨"log", 'l', .path⟩, ⟨"report", 'r', .path⟩]
  many := true

/-- The arguments of `asm`. -/
def assembleGrammar : Grammar where
  options := [⟨"output", 'o', .path⟩]
  many := true

/-- The arguments of `disasm`. -/
def disassembleGrammar : Grammar where
  options := []
  many := false

/-- The command that `run` stands for with its arguments. -/
def runCommand (p : Parsed) : Command :=
  .run
    { objects := p.operands
      config? := p.path? "config"
      delay? := p.number? "delay"
      maxTicks? := p.number? "max-ticks"
      outputDir? := p.path? "output-dir"
      log? := p.path? "log"
      report? := p.path? "report" }

/-- The request of `command` with the arguments `args`. Every command needs an operand. -/
def request (g : Grammar) (command : Parsed → Command) (args : List String) : Request :=
  match scan g .none args with
  | .error .help => .help
  | .error .misuse => .misuse
  | .ok p => if p.operands.isEmpty then .misuse else .command (command p)

/-- The commands. -/
def commandNames : List String := ["run", "asm", "disasm", "help"]

/-- The argument `text` before a command: only those for help and version make sense. -/
def leading (text : String) : Request :=
  if text = "--help" then .help
  else if text = "--version" then .version
  else
    match text.toList with
    | '-' :: 'h' :: _ => .help
    | '-' :: 'V' :: _ => .version
    | _ => .misuse

/-- What the arguments ask for. -/
def parse : List String → Request
  | [] => .misuse
  | name :: args =>
    if name = "run" then request runGrammar runCommand args
    else if name = "asm" then
      request assembleGrammar (fun p => .assemble p.operands (p.path? "output")) args
    else if name = "disasm" then
      request disassembleGrammar (fun p => .disassemble (p.operands.headD "")) args
    else if name = "help" then
      match args with
      | [] => .help
      | [topic] => if commandNames.contains topic then .help else .misuse
      | _ => .misuse
    else leading name

/-- What the help says. -/
def usage : String :=
  "Usage: rmmix run [OPTIONS] <OBJECT>...\n" ++
    "       rmmix asm [-o <FILE>] <SOURCE>...\n" ++
    "       rmmix disasm <OBJECT>\n" ++
    "       rmmix help [COMMAND]\n" ++
    "\n" ++
    "Options of run:\n" ++
    "  -c, --config <FILE>      configuration in JSON\n" ++
    "  -d, --delay <TICKS>      delay of devices\n" ++
    "  -m, --max-ticks <TICKS>  budget of ticks\n" ++
    "  -o, --output-dir <DIR>   directory of the output files\n" ++
    "  -l, --log <FILE>         log file\n" ++
    "  -r, --report <FILE>      report in JSON\n"

end BatchMachine.CommandLine
