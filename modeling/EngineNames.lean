import EngineNames.Address
import EngineNames.Binding
import EngineNames.Build
import EngineNames.Call
import EngineNames.Flags
import EngineNames.Flags.Cast
import EngineNames.Flags.Class
import EngineNames.Flags.FieldClass
import EngineNames.Flags.Function
import EngineNames.Flags.Object
import EngineNames.Flags.Property
import EngineNames.Handle
import EngineNames.Identifier
import EngineNames.Identifier.Characters
import EngineNames.Json.Numeral
import EngineNames.Json.Reader
import EngineNames.Json.Value
import EngineNames.Name
import EngineNames.NameBuffer
import EngineNames.NameTable
import EngineNames.Pattern
import EngineNames.Proofs.Address.Exact
import EngineNames.Proofs.Binding.Bound
import EngineNames.Proofs.Binding.Detected
import EngineNames.Proofs.Binding.Direct
import EngineNames.Proofs.Binding.Overridden
import EngineNames.Proofs.Binding.Priorities
import EngineNames.Proofs.Binding.Requests
import EngineNames.Proofs.Binding.Retries
import EngineNames.Proofs.Binding.Thunk
import EngineNames.Proofs.Flags.Names
import EngineNames.Proofs.Flags.Words
import EngineNames.Proofs.Handle.Fields
import EngineNames.Proofs.Handle.Image
import EngineNames.Proofs.Handle.Stored
import EngineNames.Proofs.Identifier.FixedPoints
import EngineNames.Proofs.Identifier.Images
import EngineNames.Proofs.Identifier.WellFormed
import EngineNames.Proofs.Json.Grammar
import EngineNames.Proofs.Json.Numbers
import EngineNames.Proofs.Json.Passing
import EngineNames.Proofs.Json.Quoted
import EngineNames.Proofs.Json.Readers
import EngineNames.Proofs.Json.Records
import EngineNames.Proofs.Json.Rendered
import EngineNames.Proofs.Json.Repeated
import EngineNames.Proofs.Json.Steps
import EngineNames.Proofs.Memory.Coherent
import EngineNames.Proofs.Memory.Contents
import EngineNames.Proofs.Memory.Holds
import EngineNames.Proofs.Memory.Locations
import EngineNames.Proofs.Memory.Mapping
import EngineNames.Proofs.Memory.ShortReads
import EngineNames.Proofs.Name.Display
import EngineNames.Proofs.NameBuffer.AsList
import EngineNames.Proofs.NameBuffer.Bounds
import EngineNames.Proofs.NameBuffer.Foreign
import EngineNames.Proofs.NameBuffer.Reactions
import EngineNames.Proofs.NameTable.Announced
import EngineNames.Proofs.NameTable.Exact
import EngineNames.Proofs.NameTable.Passes
import EngineNames.Proofs.NameTable.Pieces
import EngineNames.Proofs.NameTable.Pool
import EngineNames.Proofs.NameTable.Terminated
import EngineNames.Proofs.Pattern.Grammar
import EngineNames.Proofs.Pattern.Tokens
import EngineNames.Proofs.PropertyKind.Priority
import EngineNames.Proofs.Registry.Detection
import EngineNames.Proofs.Registry.Identifiers
import EngineNames.Proofs.Registry.Numbering
import EngineNames.Proofs.Registry.Owners
import EngineNames.Proofs.Registry.Runs
import EngineNames.Proofs.Registry.Search
import EngineNames.Proofs.Registry.Suffix
import EngineNames.Proofs.Resolver.Callbacks
import EngineNames.Proofs.Resolver.Calls
import EngineNames.Proofs.Resolver.Identity
import EngineNames.Proofs.Resolver.Queries
import EngineNames.Proofs.Resolver.Reentrancy
import EngineNames.Proofs.Resolver.Reuse
import EngineNames.Proofs.Resolver.Runs
import EngineNames.Proofs.Resolver.Scratch
import EngineNames.Proofs.Resolver.Sums
import EngineNames.Proofs.Resolver.Tracking
import EngineNames.Proofs.Resolver.Unspoilt
import EngineNames.Proofs.Settings.Partial
import EngineNames.Proofs.Settings.RoundTrip
import EngineNames.Proofs.Signature.Search
import EngineNames.Proofs.Signature.Targets
import EngineNames.Proofs.Strategy.Candidates
import EngineNames.Proofs.Strategy.Overrides
import EngineNames.Proofs.Strategy.Sound
import EngineNames.Proofs.Strategy.ThunkCalls
import EngineNames.Proofs.Text.Hexadecimal
import EngineNames.Proofs.Text.Pieces
import EngineNames.Proofs.Text.Repair
import EngineNames.PropertyKind
import EngineNames.Registry
import EngineNames.Resolver
import EngineNames.Settings.BindPlan
import EngineNames.Settings.Build
import EngineNames.Settings.File
import EngineNames.Settings.SignatureSet
import EngineNames.Signature
import EngineNames.Strategy
import EngineNames.TargetProcess
import EngineNames.Text.Hexadecimal
import EngineNames.Text.Utf16
import EngineNames.Trap
