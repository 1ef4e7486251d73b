import JsonBinding.Annotations
import JsonBinding.Bean
import JsonBinding.Calendar.Date
import JsonBinding.Calendar.Pattern
import JsonBinding.Calendar.Rendering
import JsonBinding.Calendar.Stamp
import JsonBinding.ClassName
import JsonBinding.Command
import JsonBinding.DateFormat
import JsonBinding.Decimal.Binary64
import JsonBinding.Decimal.Shortest
import JsonBinding.Fault
import JsonBinding.Files.Basic
import JsonBinding.Files.Disk
import JsonBinding.Generation
import JsonBinding.Host
import JsonBinding.Index.Basic
import JsonBinding.Index.Document
import JsonBinding.Index.Hierarchy
import JsonBinding.Inspection
import JsonBinding.Json.Basic
import JsonBinding.Json.Draft
import JsonBinding.Json.Event
import JsonBinding.Json.Printer
import JsonBinding.Json.Record
import JsonBinding.Json.Size
import JsonBinding.Json.Token
import JsonBinding.Json.Writer
import JsonBinding.LogLevel
import JsonBinding.Main
import JsonBinding.Platform
import JsonBinding.Program.Basic
import JsonBinding.Program.Build
import JsonBinding.Program.Document
import JsonBinding.Program.Run
import JsonBinding.Proofs.Bean
import JsonBinding.Proofs.Calendar.Pattern
import JsonBinding.Proofs.Calendar.Stamp
import JsonBinding.Proofs.DateFormat
import JsonBinding.Proofs.Generation.Documents
import JsonBinding.Proofs.Generation.Entries
import JsonBinding.Proofs.Generation.Order
import JsonBinding.Proofs.Generation.Partition
import JsonBinding.Proofs.Generation.Results
import JsonBinding.Proofs.Host
import JsonBinding.Proofs.Index.Annotations
import JsonBinding.Proofs.Index.Endpoints
import JsonBinding.Proofs.Index.Exactness
import JsonBinding.Proofs.Index.Fields
import JsonBinding.Proofs.Index.Hierarchy
import JsonBinding.Proofs.Index.Narrowing
import JsonBinding.Proofs.Index.Redeclaration
import JsonBinding.Proofs.Index.Reordering
import JsonBinding.Proofs.Index.Signatures
import JsonBinding.Proofs.Inspection.Discovery
import JsonBinding.Proofs.Json.Document
import JsonBinding.Proofs.Json.Nesting
import JsonBinding.Proofs.Json.Quoted
import JsonBinding.Proofs.Json.Refusal
import JsonBinding.Proofs.Program.Agreement
import JsonBinding.Proofs.Program.Blocks
import JsonBinding.Proofs.Program.Building
import JsonBinding.Proofs.Program.Code
import JsonBinding.Proofs.Program.Descent
import JsonBinding.Proofs.Program.Discipline
import JsonBinding.Proofs.Program.Ensures
import JsonBinding.Proofs.Program.Executions
import JsonBinding.Proofs.Program.Faithful
import JsonBinding.Proofs.Program.Functions
import JsonBinding.Proofs.Program.Kinds
import JsonBinding.Proofs.Program.Leaves
import JsonBinding.Proofs.Program.Members
import JsonBinding.Proofs.Program.Numbering
import JsonBinding.Proofs.Program.Resemblance
import JsonBinding.Proofs.Program.Scope
import JsonBinding.Proofs.Program.Steady
import JsonBinding.Proofs.Property.Blanking
import JsonBinding.Proofs.Property.NullPolicy
import JsonBinding.Proofs.Property.Order
import JsonBinding.Proofs.Property.Rekeying
import JsonBinding.Proofs.Property.Renaming
import JsonBinding.Proofs.Publication
import JsonBinding.Proofs.Quotes
import JsonBinding.Proofs.Reflection
import JsonBinding.Proofs.Reflection.Dates
import JsonBinding.Proofs.Reflection.Document
import JsonBinding.Proofs.Reflection.Hidden
import JsonBinding.Proofs.Reflection.Keys
import JsonBinding.Proofs.Reflection.Naming
import JsonBinding.Proofs.SerializerUnit.Closed
import JsonBinding.Proofs.SerializerUnit.DeferredDates
import JsonBinding.Proofs.SerializerUnit.Descent
import JsonBinding.Proofs.SerializerUnit.Discipline
import JsonBinding.Proofs.SerializerUnit.Faithful
import JsonBinding.Proofs.SerializerUnit.Keys
import JsonBinding.Proofs.SerializerUnit.Lowering
import JsonBinding.Proofs.SerializerUnit.Members
import JsonBinding.Proofs.SerializerUnit.Naming
import JsonBinding.Proofs.SerializerUnit.Outcome
import JsonBinding.Proofs.SerializerUnit.Signatures
import JsonBinding.Proofs.SerializerUnit.Termination
import JsonBinding.Proofs.SerializerUnit.Unread
import JsonBinding.Proofs.Slots
import JsonBinding.Proofs.Support.Agreement
import JsonBinding.Proofs.Support.Deferral
import JsonBinding.Proofs.Support.Exactness
import JsonBinding.Proofs.Support.Explanation
import JsonBinding.Proofs.Support.Justification
import JsonBinding.Proofs.Support.Level
import JsonBinding.Proofs.Support.Reachability
import JsonBinding.Proofs.Support.Termination
import JsonBinding.Proofs.Support.Trial
import JsonBinding.Proofs.Support.Walk
import JsonBinding.Proofs.TypeRef.Grammar
import JsonBinding.Proofs.TypeRef.Order
import JsonBinding.Proofs.TypeRef.Signature
import JsonBinding.Proofs.Writing
import JsonBinding.Property
import JsonBinding.Publication
import JsonBinding.Reflection
import JsonBinding.Schema
import JsonBinding.SerializerUnit.Basic
import JsonBinding.SerializerUnit.Build
import JsonBinding.SerializerUnit.Naming
import JsonBinding.SerializerUnit.Source
import JsonBinding.Settings
import JsonBinding.Support.Basic
import JsonBinding.Support.Resolution
import JsonBinding.Support.Variant
import JsonBinding.Text.Alphanumeric
import JsonBinding.Text.Blank
import JsonBinding.Text.CodePoints
import JsonBinding.Text.Diagnostic
import JsonBinding.Text.LetterCase
import JsonBinding.Text.Printable
import JsonBinding.TypeRef.Basic
import JsonBinding.TypeRef.Order
import JsonBinding.TypeRef.Signature
import JsonBinding.Writing
