import BatchMachine.Device.Numbering
import BatchMachine.Device.Sink
import BatchMachine.JobText.Reader
import BatchMachine.Processor.TrapLine

/-!
# Devices

Every job has an input device, which reads words from the job's text, and an output device,
which writes words to a sink, one in a line. Both work in two phases. A request is put on the
trap line of the device; the device takes it off and counts down its delay. When the time is up
it makes the transfer and signals this on the processor's trap line, or waits as long as that
line is busy.

* `Device.phase`: what a device does in a tick.
* `Device.tick`: the tick.
-/

namespace BatchMachine

open JobText

/-- The far side of a device: what it reads from or writes to. -/
inductive Link where
  /-- An input device, bound to the text of the job `job?` or to none. -/
  | input (job? : Option Nat)
  /-- An output device, with the word `buffer` to write and the sink `sink?` it is bound to. -/
  | output (buffer : Word) (sink? : Option Sink)
  deriving DecidableEq

/-- An input or output device, with the transfer that it has to make. -/
structure Device where
  /-- The number of the device, by which requests and completions name it. -/
  number : Nat
  /-- The trap line of the device, where requests arrive and an input word is left. -/
  trap : TrapLine
  /-- The ticks to go until the transfer, `0` if there is none to make. -/
  timer : Nat
  /-- The ticks between a request and its transfer, for which `timer` is set. -/
  delay : Nat
  /-- The far side of the device. -/
  link : Link
  deriving DecidableEq

namespace Device

/-- The input device of the job with the number `job`, not bound to anything. -/
def newInput (job delay : Nat) : Device :=
  ⟨inputNumber job, .clear, 0, delay, .input none⟩

/-- The output device of the job with the number `job`, not bound to anything. -/
def newOutput (job delay : Nat) : Device :=
  ⟨outputNumber job, .clear, 0, delay, .output 0 none⟩

/-- `d` is an input device. -/
def isInput (d : Device) : Bool :=
  match d.link with
  | .input _ => true
  | .output _ _ => false

/-- The job whose text `d` reads, if it is a bound input device. -/
def job? (d : Device) : Option Nat :=
  match d.link with
  | .input job? => job?
  | .output _ _ => none

/-- The sink of `d`, if it is a bound output device. -/
def sink? (d : Device) : Option Sink :=
  match d.link with
  | .input _ => none
  | .output _ sink? => sink?

/-- The word that `d` holds, if it is an input device: the last one read. -/
def value? (d : Device) : Option Word :=
  if d.isInput then some d.trap.data else none

/-- Nothing has been asked of `d` that it has not done: no request is on its line, and its `timer`
is at zero. -/
def isIdle (d : Device) : Bool :=
  d.trap.isIdle && d.timer == 0

/-- The request that `d` takes: for an input word, or to write one. -/
def request (d : Device) : Trap :=
  if d.isInput then .getw else .putw

/-- The trap that says that `d` is done. -/
def completion (d : Device) : Trap :=
  if d.isInput then .getwReady else .putwReady

/-- The signal that `d` is done, well if `ok` is set. -/
def signal (d : Device) (ok : Bool) : TrapLine :=
  ⟨d.completion.code, .ofCount d.number, if ok then 0 else 1⟩

/-- `d` as messages show it. -/
def shown (d : Device) : String :=
  let number := ("number", toString d.number)
  let trap := ("trap", d.trap.shown)
  let timer := ("timer", toString d.timer)
  match d.link with
  | .input job? =>
    Text.wrapped "Input" <| Text.record "InputDevice"
      [number, trap, timer, ("delay", toString d.delay),
        ("job", Text.optional (job?.map toString))]
  | .output buffer sink? =>
    Text.wrapped "Output" <| Text.record "OutputDevice"
      [number, trap, timer, ("buffer", Numeral.decimal buffer),
        ("bound", toString sink?.isSome)]

/-- What a device does in a tick, as `Device.phase` says. -/
inductive Phase where
  /-- Take a request and start to count. -/
  | capture
  /-- Count down. -/
  | count
  /-- Wait because the time is up but the processor's trap line is busy. -/
  | hold
  /-- Make the transfer and signal it: the last tick of `timer` has come, and the line is free. -/
  | transfer
  /-- Nothing. -/
  | rest
  deriving DecidableEq

/-- What `d` does in a tick, given whether the processor's trap line is `free`. -/
def phase (d : Device) (free : Bool) : Phase :=
  if d.trap.trap? = some d.request then .capture
  else if d.timer = 0 then .rest
  else if d.timer ≠ 1 then .count
  else if free then .transfer
  else .hold

/-- The reasons why a transfer fails. -/
inductive TransferError where
  /-- The device is not bound, or there are no more words to read. -/
  | nothing
  /-- The next word cannot be read, for the reason `cause`. -/
  | input (cause : ReadError)
  /-- The word cannot be written, for the reason `cause`. -/
  | output (cause : FileError)
  deriving DecidableEq

/-- A device and its surroundings after a tick: the result of `Device.tick`. -/
structure Tick where
  /-- The device. -/
  device : Device
  /-- The processor's trap line. -/
  line : TrapLine
  /-- The reader of the job that the device is bound to. -/
  source? : Option Reader
  /-- The files. -/
  files : Files
  /-- Why the transfer of this tick failed, if it did. -/
  error? : Option TransferError

/-- Take a request: remember the word to write, and count down from `d.delay`, or from one if that
is zero. -/
def capture (d : Device) : Device :=
  { d with
    timer := max d.delay 1
    trap := .clear
    link := match d.link with
      | .input job? => .input job?
      | .output _ sink? => .output d.trap.data sink? }

/-- Read the next word from a job's text. -/
def readWord : Option Reader → Except TransferError Word × Option Reader
  | none => (.error .nothing, none)
  | some r =>
    match r.fetchInput with
    | (.ok (some w), r) => (.ok w, some r)
    | (.ok none, r) => (.error .nothing, some r)
    | (.error e, r) => (.error (.input e), some r)

/-- Write a word to a sink, on a line of its own. -/
def writeWord (w : Word) (files : Files) :
    Option Sink → Option TransferError × Option Sink × Files
  | none => (some .nothing, none, files)
  | some s =>
    let (e, s, files) := s.transfer (Numeral.decimal w ++ "\n") files
    (e.map .output, some s, files)

/-- Make the transfer of `d`. A word read stays on the device's trap line until it is fetched. -/
def transfer (d : Device) (source? : Option Reader) (files : Files) : Tick :=
  let done := { d with timer := 0 }
  match d.link with
  | .input _ =>
    match readWord source? with
    | (.ok w, source?) =>
      ⟨{ done with trap := { d.trap with data := w } }, d.signal true, source?, files, none⟩
    | (.error e, source?) => ⟨done, d.signal false, source?, files, some e⟩
  | .output buffer sink? =>
    let (e, sink?, files) := writeWord buffer files sink?
    ⟨{ done with link := .output buffer sink? }, d.signal e.isNone, source?, files, e⟩

/-- One tick of `d`, with the processor's trap line `line`. The reader `source?` is that of the job
the device is bound to. -/
def tick (d : Device) (line : TrapLine) (source? : Option Reader) (files : Files) : Tick :=
  match d.phase line.isIdle with
  | .capture => ⟨d.capture, line, source?, files, none⟩
  | .count => ⟨{ d with timer := d.timer - 1 }, line, source?, files, none⟩
  | .transfer => d.transfer source? files
  | .hold | .rest => ⟨d, line, source?, files, none⟩

/-- Drop what `d` is bound to. The answer tells why a sink could not be closed. -/
def release (d : Device) : Option FileError × Device :=
  match d.link with
  | .input _ => (none, { d with link := .input none })
  | .output buffer sink? =>
    (sink?.bind fun s => s.flush.1, { d with link := .output buffer none })

end Device

end BatchMachine
