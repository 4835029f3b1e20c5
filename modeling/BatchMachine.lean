import BatchMachine.CommandLine
import BatchMachine.Config
import BatchMachine.Device.Basic
import BatchMachine.Device.Numbering
import BatchMachine.Device.Sink
import BatchMachine.Exchange
import BatchMachine.Files
import BatchMachine.Hardware
import BatchMachine.Instruction.Basic
import BatchMachine.Instruction.Opcode
import BatchMachine.Instruction.Trap
import BatchMachine.Job
import BatchMachine.JobText.Assembly
import BatchMachine.JobText.Line
import BatchMachine.JobText.Listing
import BatchMachine.JobText.Reader
import BatchMachine.JobText.Segment
import BatchMachine.Journal
import BatchMachine.Json.Decode
import BatchMachine.Json.Value
import BatchMachine.Json.Written
import BatchMachine.Machine.Basic
import BatchMachine.Machine.Boot
import BatchMachine.Machine.Interrupt
import BatchMachine.Machine.Schedule
import BatchMachine.Machine.Tick
import BatchMachine.Main
import BatchMachine.Path
import BatchMachine.Processor.Basic
import BatchMachine.Processor.Memory
import BatchMachine.Processor.Registers
import BatchMachine.Processor.Step
import BatchMachine.Processor.TrapLine
import BatchMachine.Proofs.Activation
import BatchMachine.Proofs.Awakenings
import BatchMachine.Proofs.CanonicalInstructions
import BatchMachine.Proofs.Charges
import BatchMachine.Proofs.CleanLines
import BatchMachine.Proofs.Collisions
import BatchMachine.Proofs.Concatenation
import BatchMachine.Proofs.ContextSwitches
import BatchMachine.Proofs.DeviceTicks
import BatchMachine.Proofs.Errands
import BatchMachine.Proofs.ExactlyOnce
import BatchMachine.Proofs.Exits
import BatchMachine.Proofs.FailedActivations
import BatchMachine.Proofs.FailedSearches
import BatchMachine.Proofs.Finality
import BatchMachine.Proofs.Handover
import BatchMachine.Proofs.HeldRequests
import BatchMachine.Proofs.IdleProcessor
import BatchMachine.Proofs.InstructionSet
import BatchMachine.Proofs.Instructions
import BatchMachine.Proofs.Interrupts
import BatchMachine.Proofs.JobInvariant
import BatchMachine.Proofs.LabelResolution
import BatchMachine.Proofs.Ledgers
import BatchMachine.Proofs.Listings
import BatchMachine.Proofs.Loading
import BatchMachine.Proofs.ObjectCode
import BatchMachine.Proofs.ObjectGrammar
import BatchMachine.Proofs.Origins
import BatchMachine.Proofs.OutputDirectory
import BatchMachine.Proofs.OutputFiles
import BatchMachine.Proofs.Persistence
import BatchMachine.Proofs.Programs
import BatchMachine.Proofs.Reachability
import BatchMachine.Proofs.ReaderWalks
import BatchMachine.Proofs.Refinement
import BatchMachine.Proofs.Renumbering
import BatchMachine.Proofs.Rotation
import BatchMachine.Proofs.RoundRobin
import BatchMachine.Proofs.RunReport
import BatchMachine.Proofs.SchedulerInvariant
import BatchMachine.Proofs.SectionCuts
import BatchMachine.Proofs.Sections
import BatchMachine.Proofs.SegmentOrder
import BatchMachine.Proofs.SegmentReload
import BatchMachine.Proofs.ServiceTimes
import BatchMachine.Proofs.Serving
import BatchMachine.Proofs.Solo
import BatchMachine.Proofs.Switching
import BatchMachine.Proofs.Tallies
import BatchMachine.Proofs.TransferTiming
import BatchMachine.Proofs.Transfers
import BatchMachine.Proofs.Turns
import BatchMachine.Proofs.View
import BatchMachine.Proofs.WakeUps
import BatchMachine.Proofs.WrittenLines
import BatchMachine.Proofs.WrittenValues
import BatchMachine.Session
import BatchMachine.Text.Blank
import BatchMachine.Text.Layout
import BatchMachine.Text.Numeral
import BatchMachine.Text.Plain
import BatchMachine.Text.Quoted
import BatchMachine.Word
