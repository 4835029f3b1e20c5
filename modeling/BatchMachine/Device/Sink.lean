import BatchMachine.Files

/-!
# Output sinks

A sink takes the text that an output device writes. Each word is written and then flushed, so
that a file holds every word as soon as its transfer is done. Not every receiver keeps up:

* a full device keeps back what it gets and refuses to flush as long as it keeps something back;
* a limited receiver takes no data at all, or flushes only so many times.
-/

namespace BatchMachine

/-- How a receiver of output deals with data. -/
inductive Medium where
  /-- It takes everything. -/
  | plain
  /-- It has no space; `pending` tells whether it keeps data back. -/
  | full (pending : Bool)
  /-- It takes data only if `writable` is set, and it can be flushed `flushes?` times at most, or
  always if that is `none`. -/
  | limited (writable : Bool) (flushes? : Option Nat)
  deriving DecidableEq

/-- A receiver of output: a file and the way in which it takes data. -/
structure Sink where
  /-- The file that gets the data. -/
  target : Location
  /-- How the receiver deals with data. -/
  medium : Medium
  deriving DecidableEq

namespace Sink

/-- The sink of the file at `target`, which has just been created. -/
def ofFile (files : Files) (target : Location) : Sink :=
  match files.entry? target with
  | some .full => ⟨target, .full false⟩
  | _ => ⟨target, .plain⟩

/-- Pass on what has been written. The answer tells why the flush has failed. -/
def flush (s : Sink) : Option FileError × Sink :=
  match s.medium with
  | .plain => (none, s)
  | .full pending => (if pending then some .noSpace else none, s)
  | .limited _ none => (none, s)
  | .limited _ (some 0) => (some .flushRefused, s)
  | .limited writable (some (n + 1)) => (none, { s with medium := .limited writable (some n) })

/-- Hand over `text`. -/
def write (s : Sink) (text : String) (files : Files) : Except FileError (Sink × Files) :=
  match s.medium with
  | .plain | .limited true _ => .ok (s, files.append s.target text)
  | .full _ => .ok ({ s with medium := .full true }, files)
  | .limited false _ => .error .writeRefused

/-- Hand over `text` and pass it on. The answer tells why this has failed. -/
def transfer (s : Sink) (text : String) (files : Files) : Option FileError × Sink × Files :=
  match s.write text files with
  | .error e => (some e, s, files)
  | .ok (s, files) =>
    let (e, s) := s.flush
    (e, s, files)

end Sink

end BatchMachine
