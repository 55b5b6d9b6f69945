import Playbook.Abi.Basic
import Playbook.Abi.Cache
import Playbook.Abi.Directory
import Playbook.Abi.Json
import Playbook.Calendar
import Playbook.Call.Basic
import Playbook.Call.Binder
import Playbook.Call.DryRun
import Playbook.CommandLine.Arguments
import Playbook.CommandLine.Flag
import Playbook.CommandLine.Program
import Playbook.Convert.Coercer
import Playbook.Convert.Integer
import Playbook.Convert.SolidityType
import Playbook.Decimal.Double
import Playbook.Decimal.Layout
import Playbook.Decimal.Literal
import Playbook.Decimal.Shortest
import Playbook.Document
import Playbook.Document.Include
import Playbook.Error
import Playbook.Fields
import Playbook.Files.Disk
import Playbook.Files.Name
import Playbook.Files.Tree
import Playbook.Instruction.Basic
import Playbook.Instruction.Entry
import Playbook.Instruction.Loop
import Playbook.Json.Basic
import Playbook.Json.Printer
import Playbook.Json.Spelling
import Playbook.Main
import Playbook.Number
import Playbook.Output.Spec
import Playbook.Output.Write
import Playbook.Path.Basic
import Playbook.Path.Lookup
import Playbook.Path.Slot
import Playbook.Reference
import Playbook.Run
import Playbook.Settings.Config
import Playbook.Settings.Options
import Playbook.State.Namespace
import Playbook.State.Store
import Playbook.Text.Blank
import Playbook.Text.Numeral
import Playbook.Text.Pieces
import Playbook.Text.Quoted
import Playbook.Value.Basic
import Playbook.Value.Export
import Playbook.Value.Merge
import Playbook.Value.Width
import Playbook.Yaml.Cursor
import Playbook.Yaml.Node
import Playbook.Yaml.Printer
import Playbook.Yaml.Record
import Playbook.Yaml.Scalar
import Playbook.Yaml.Style
import Playbook.Yaml.Tag
import Playbook.Yaml.Token
import Playbook.Yaml.Token.Lexer
import Playbook.Yaml.Token.Scalar
import Playbook.Yaml.Token.Tag
import Playbook.Yaml.Value
import Playbook.Proofs.Outcome
import Playbook.Proofs.Value.WellFormed
import Playbook.Proofs.Value.Plain
import Playbook.Proofs.Path.Hop
import Playbook.Proofs.Path.ReadBack
import Playbook.Proofs.Path.Frame
import Playbook.Proofs.Path.Shape
import Playbook.Proofs.Path.Loss
import Playbook.Proofs.Run.Flat
import Playbook.Proofs.Run.Invariant
import Playbook.Proofs.Run.WellFormed
import Playbook.Proofs.Run.Register
import Playbook.Proofs.Run.Atomic
import Playbook.Proofs.Run.Untagged
import Playbook.Proofs.Run.Trace
import Playbook.Proofs.Run.Failure
import Playbook.Proofs.State.Set
import Playbook.Proofs.State.Writes
import Playbook.Proofs.Path.Commute
import Playbook.Proofs.State.Commute
import Playbook.Proofs.State.Handles
import Playbook.Proofs.State.Repeat
import Playbook.Proofs.State.Replay
import Playbook.Proofs.Output.Writes
import Playbook.Proofs.State.Reachable
import Playbook.Proofs.State.Reload
import Playbook.Proofs.Path.Excerpt
import Playbook.Proofs.Path.Collect
import Playbook.Proofs.State.Select
import Playbook.Proofs.State.Complete
import Playbook.Proofs.Instruction.Expansion
import Playbook.Proofs.Run.Proper
import Playbook.Proofs.Output.Address
import Playbook.Proofs.Run.Count
import Playbook.Proofs.Run.Lockstep
import Playbook.Proofs.Value.Texts
import Playbook.Proofs.Run.Independence
import Playbook.Proofs.Call.Sort
import Playbook.Proofs.Run.Unresolved
import Playbook.Proofs.Call.Options
import Playbook.Proofs.Call.Pieces
import Playbook.Proofs.Value.Exposed
import Playbook.Proofs.Value.FieldPath
import Playbook.Proofs.Document.Loading
import Playbook.Proofs.Path.Growth
import Playbook.Proofs.Text.Numeral
import Playbook.Proofs.Convert.Integer
import Playbook.Proofs.Convert.RoundTrip
import Playbook.Proofs.Convert.Overrides
import Playbook.Proofs.Convert.Width
import Playbook.Proofs.Instruction.Reference
import Playbook.Proofs.Output.Texts
import Playbook.Proofs.Instruction.Substitution
import Playbook.Proofs.Instruction.Template
import Playbook.Proofs.Instruction.Order
import Playbook.Proofs.Value.Places
import Playbook.Proofs.Instruction.Filling
import Playbook.Proofs.Output.Sequence
import Playbook.Proofs.Output.Grammar
import Playbook.Proofs.Instruction.Leaves
import Playbook.Proofs.Instruction.Acceptance
import Playbook.Proofs.Path.Canonical
import Playbook.Proofs.Value.Import
import Playbook.Proofs.Abi.Cache
import Playbook.Proofs.Call.DryRun
import Playbook.Proofs.Convert.Date
import Playbook.Proofs.Convert.Declared
import Playbook.Proofs.Json.Compact
import Playbook.Proofs.Abi.Json
import Playbook.Proofs.Files.Directory
