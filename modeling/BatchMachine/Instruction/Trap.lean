import BatchMachine.Word

/-!
# Trap numbers

A trap number says why the processor interrupts its job. Programs raise the first three
themselves; the others come from the hardware and its handlers.
-/

namespace BatchMachine

/-- The traps that the machine knows how to handle. -/
inductive Trap where
  /-- The job's segment ends; the data word names the register with its status. -/
  | halt
  /-- The job asks for an input word; the data word names the register to fill. -/
  | getw
  /-- The job asks to write a word; the data word names the register that holds it. -/
  | putw
  /-- The job made an error it cannot recover from. -/
  | fatal
  /-- An input device is done; the data word is its number. -/
  | getwReady
  /-- An output device is done; the data word is its number. -/
  | putwReady
  deriving DecidableEq

namespace Trap

/-- Every known trap, in the order of its number. -/
def all : List Trap :=
  [halt, getw, putw, fatal, getwReady, putwReady]

/-- The number of a trap on a trap line. -/
def code : Trap → Word
  | halt => 1
  | getw => 2
  | putw => 3
  | fatal => 65
  | getwReady => 66
  | putwReady => 67

/-- The known trap with the number `w`. Zero, which means that nothing is pending, has none. -/
def ofCode? (w : Word) : Option Trap :=
  all.find? fun t => t.code = w

/-- The name of a trap in assembly and in messages. -/
def name : Trap → String
  | halt => "halt"
  | getw => "getw"
  | putw => "putw"
  | fatal => "FATAL"
  | getwReady => "GETW_READY"
  | putwReady => "PUTW_READY"

/-- The trap with the name `name`, if there is one. -/
def ofName? (name : String) : Option Trap :=
  all.find? fun t => t.name = name

/-- The title of a trap, by which records show it. -/
def title : Trap → String
  | halt => "Halt"
  | getw => "Getw"
  | putw => "Putw"
  | fatal => "Fatal"
  | getwReady => "GetwReady"
  | putwReady => "PutwReady"

/-- Reading the number of `t` gives `t` back. -/
theorem ofCode?_code (t : Trap) : ofCode? t.code = some t := by
  cases t <;> decide

/-- Reading the name of `t` gives `t` back. -/
theorem ofName?_name (t : Trap) : ofName? t.name = some t := by
  cases t <;> decide

end Trap

end BatchMachine
