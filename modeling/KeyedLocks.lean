import KeyedLocks.Arena
import KeyedLocks.Arena.Cells
import KeyedLocks.CommandLine.Arguments
import KeyedLocks.CommandLine.Help
import KeyedLocks.CommandLine.Request
import KeyedLocks.CommandLine.Response
import KeyedLocks.Contention
import KeyedLocks.Contention.Report
import KeyedLocks.Deadlock
import KeyedLocks.Drill
import KeyedLocks.Duration.Basic
import KeyedLocks.Duration.Parser
import KeyedLocks.Duration.Printer
import KeyedLocks.Event
import KeyedLocks.FileTree
import KeyedLocks.Json
import KeyedLocks.LockError
import KeyedLocks.Main
import KeyedLocks.Memory
import KeyedLocks.Mutex
import KeyedLocks.Number.Binary64
import KeyedLocks.Phase
import KeyedLocks.Policy.Basic
import KeyedLocks.Policy.Document
import KeyedLocks.Policy.File
import KeyedLocks.Policy.Printer
import KeyedLocks.Proofs.Acquisition
import KeyedLocks.Proofs.Actions
import KeyedLocks.Proofs.Answers
import KeyedLocks.Proofs.Attempts
import KeyedLocks.Proofs.Bench
import KeyedLocks.Proofs.Bounded
import KeyedLocks.Proofs.Budget
import KeyedLocks.Proofs.Check
import KeyedLocks.Proofs.Closing
import KeyedLocks.Proofs.Contention
import KeyedLocks.Proofs.Counter
import KeyedLocks.Proofs.Deadlock
import KeyedLocks.Proofs.Disposal
import KeyedLocks.Proofs.Duration
import KeyedLocks.Proofs.Edits
import KeyedLocks.Proofs.Entries
import KeyedLocks.Proofs.Events
import KeyedLocks.Proofs.Exclusion
import KeyedLocks.Proofs.Excuse
import KeyedLocks.Proofs.Faultless
import KeyedLocks.Proofs.Flags
import KeyedLocks.Proofs.Grants
import KeyedLocks.Proofs.HandBack
import KeyedLocks.Proofs.Hindrance
import KeyedLocks.Proofs.Holdings
import KeyedLocks.Proofs.Instances
import KeyedLocks.Proofs.Interrupt
import KeyedLocks.Proofs.Isolation
import KeyedLocks.Proofs.Ledger
import KeyedLocks.Proofs.Lifetime
import KeyedLocks.Proofs.LockOrder
import KeyedLocks.Proofs.Mates
import KeyedLocks.Proofs.Memory
import KeyedLocks.Proofs.Mutex
import KeyedLocks.Proofs.Path
import KeyedLocks.Proofs.Policies
import KeyedLocks.Proofs.PolicyDocument
import KeyedLocks.Proofs.PolicyText
import KeyedLocks.Proofs.Pursuit
import KeyedLocks.Proofs.Queue
import KeyedLocks.Proofs.QueueLimit
import KeyedLocks.Proofs.References
import KeyedLocks.Proofs.Refusal
import KeyedLocks.Proofs.Registration
import KeyedLocks.Proofs.Release
import KeyedLocks.Proofs.Renewal
import KeyedLocks.Proofs.Rest
import KeyedLocks.Proofs.Runs
import KeyedLocks.Proofs.Search
import KeyedLocks.Proofs.Session
import KeyedLocks.Proofs.Shift
import KeyedLocks.Proofs.Signals
import KeyedLocks.Proofs.Sleep
import KeyedLocks.Proofs.Solo
import KeyedLocks.Proofs.Stations
import KeyedLocks.Proofs.Stints
import KeyedLocks.Proofs.Stir
import KeyedLocks.Proofs.Strides
import KeyedLocks.Proofs.Toml
import KeyedLocks.Proofs.Trail
import KeyedLocks.Proofs.Twins
import KeyedLocks.Proofs.Undisturbed
import KeyedLocks.Proofs.Visibility
import KeyedLocks.Proofs.WaitFor
import KeyedLocks.Proofs.Waiters
import KeyedLocks.Registry
import KeyedLocks.Scenario.Bench
import KeyedLocks.Scenario.Report
import KeyedLocks.Scenario.Task
import KeyedLocks.Step
import KeyedLocks.System
import KeyedLocks.Text.Blank
import KeyedLocks.Text.Excerpt
import KeyedLocks.Text.Quoted
import KeyedLocks.Text.Shown
import KeyedLocks.Toml.Item
import KeyedLocks.Toml.Parser
import KeyedLocks.Toml.Scalar
import KeyedLocks.WaitGraph
