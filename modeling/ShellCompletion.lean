import ShellCompletion.Log.Message
import ShellCompletion.Main
import ShellCompletion.Schema.Fault
import ShellCompletion.Proofs.Dump.Unwritable
import ShellCompletion.Proofs.Interface.Unread
import ShellCompletion.Proofs.Interface.Writing
import ShellCompletion.Proofs.Load.Endings
import ShellCompletion.Proofs.Script.Compilation
import ShellCompletion.Proofs.Script.Determined
import ShellCompletion.Proofs.Script.SlotBranches
import ShellCompletion.Proofs.Schema.Depth
import ShellCompletion.Proofs.Dump.Loaded
import ShellCompletion.Proofs.Logging.Telling
import ShellCompletion.Proofs.Dump.Hosts
import ShellCompletion.Proofs.Dump.Alike
import ShellCompletion.Proofs.Logging.Delivery
import ShellCompletion.Proofs.CommandLine.Reading
import ShellCompletion.Proofs.Logging.Replacing
import ShellCompletion.Proofs.CommandLine.Changes
import ShellCompletion.Proofs.CommandLine.Outcome
import ShellCompletion.Proofs.CommandLine.Diagnostics
import ShellCompletion.Proofs.Dump.Failures
import ShellCompletion.Proofs.CommandLine.Fatal
import ShellCompletion.Proofs.Schema.Lookup
import ShellCompletion.Proofs.Schema.Repeats
import ShellCompletion.Proofs.Plan.Flags
import ShellCompletion.Proofs.Interface.Reported
import ShellCompletion.Proofs.Interface.Isolated
import ShellCompletion.Proofs.Interface.Records
import ShellCompletion.Proofs.Plan.Order
import ShellCompletion.Proofs.Script.FlagTables
import ShellCompletion.Proofs.Script.ValueBranches
import ShellCompletion.Proofs.Script.SlotTables
import ShellCompletion.Proofs.Schema.Suggestions
import ShellCompletion.Proofs.Schema.Elsewhere
import ShellCompletion.Proofs.Interface.Located
import ShellCompletion.Proofs.Script.Refusals
import ShellCompletion.Proofs.Schema.Shown
