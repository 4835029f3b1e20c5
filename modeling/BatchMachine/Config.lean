import BatchMachine.Path

/-!
# Configuration

A configuration says how slow devices are, how long a run may take, and where its files go.
-/

namespace BatchMachine

/-- The configuration of a machine and of its log. -/
structure Config where
  /-- The ticks between a request that reaches a device and its transfer, for which `Device.timer`
  is set. -/
  deviceDelay : Nat
  /-- The ticks that `Machine.run` may take. -/
  maxTicks : Nat
  /-- The directory for the output files of the jobs. -/
  outputDir : String
  /-- The path of the log file. -/
  logPath : String
  deriving DecidableEq

/-- The reasons why a configuration makes no sense. -/
inductive ConfigFlaw where
  /-- `deviceDelay` is zero; devices need at least one tick. -/
  | noDelay
  /-- `maxTicks` is zero; a run needs at least one tick. -/
  | noTicks
  deriving DecidableEq

/-- The text of a flaw. -/
def ConfigFlaw.message : ConfigFlaw → String
  | noDelay => "invalid config: device_delay must be at least 1"
  | noTicks => "invalid config: max_ticks must be at least 1"

namespace Config

/-- The configuration that holds where nothing else is said. -/
def standard : Config :=
  { deviceDelay := 10, maxTicks := 1024 * 1024, outputDir := ".", logPath := "rmmix.log" }

/-- `c` and `d` say the same. Paths are compared by their components. -/
def same (c d : Config) : Bool :=
  c.deviceDelay == d.deviceDelay && c.maxTicks == d.maxTicks &&
    Path.same c.outputDir d.outputDir && Path.same c.logPath d.logPath

/-- `c` says the same as itself. -/
theorem same_self (c : Config) : c.same c = true := by
  simp [same, Path.same_self]

/-- The first flaw of `c`, if it has one. -/
def flaw? (c : Config) : Option ConfigFlaw :=
  if c.deviceDelay = 0 then some .noDelay
  else if c.maxTicks = 0 then some .noTicks
  else none

end Config

end BatchMachine
