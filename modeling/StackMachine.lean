import StackMachine.Derive.Expansion
import StackMachine.Main
import StackMachine.Proofs.BoundedStack
import StackMachine.Proofs.Instruction
import StackMachine.Proofs.Machine.Actions
import StackMachine.Proofs.Machine.Dispatch
import StackMachine.Proofs.Machine.Failures
import StackMachine.Proofs.Machine.Fault
import StackMachine.Proofs.Machine.Invariant
import StackMachine.Proofs.Machine.PostMortem
import StackMachine.Proofs.Machine.Fetches
import StackMachine.Proofs.Machine.Lockstep
import StackMachine.Proofs.Machine.Budget
import StackMachine.Proofs.Assembly.Token
import StackMachine.Proofs.Text.Lines
import StackMachine.Proofs.Text.Numeral
import StackMachine.Proofs.Assembly.Statement
import StackMachine.Proofs.Assembly.Layout
import StackMachine.Proofs.Assembly.Passes
import StackMachine.Proofs.Program.Listing
import StackMachine.Proofs.Machine.Room
import StackMachine.Proofs.Machine.Unbounded
import StackMachine.Proofs.Machine.Boundaries
import StackMachine.Proofs.Assembly.Fields
import StackMachine.Proofs.Assembly.Grammar
import StackMachine.Proofs.Assembly.Meaning
import StackMachine.Proofs.Assembly.Linking
import StackMachine.Proofs.Program.Binary
import StackMachine.Proofs.Machine.History
import StackMachine.Proofs.Machine.Sessions
import StackMachine.Proofs.Machine.Trace
import StackMachine.Proofs.Machine.Variables
import StackMachine.Proofs.Files.FileSystem
import StackMachine.Proofs.Files.Load
import StackMachine.Proofs.Command.Runner
import StackMachine.Proofs.Command.Pipeline
import StackMachine.Proofs.Machine.Lifecycle
import StackMachine.Proofs.Machine.Logging
import StackMachine.Proofs.Files.Path
import StackMachine.Proofs.Command.Source
import StackMachine.Proofs.Command.Settings
import StackMachine.Proofs.Command.Answers
import StackMachine.Proofs.Text.Runs
import StackMachine.Proofs.Text.Spelling
import StackMachine.Proofs.Program.Text
import StackMachine.Proofs.Assembly.Defects
import StackMachine.Proofs.Assembly.Findings
import StackMachine.Proofs.Assembly.Places
import StackMachine.Proofs.Program.Recovery
import StackMachine.Proofs.Assembly.Correspondence
import StackMachine.Proofs.Assembly.Spacing
import StackMachine.Proofs.Assembly.Renaming
import StackMachine.Proofs.BoundedStack.Operations
import StackMachine.Proofs.Machine.Below
import StackMachine.Proofs.Machine.Pointer
import StackMachine.Proofs.Machine.StraightLine
import StackMachine.Proofs.Machine.Division
import StackMachine.Proofs.Assembly.Excerpt
import StackMachine.Proofs.Assembly.Diagnostic
import StackMachine.Proofs.Files.Parent
import StackMachine.Proofs.Command.Effects
import StackMachine.Proofs.Command.Order
import StackMachine.Proofs.Error.Phases
import StackMachine.Proofs.Error.Message
import StackMachine.Proofs.Derive.Scope
import StackMachine.Proofs.Derive.Placeholder
import StackMachine.Proofs.Derive.Arguments
