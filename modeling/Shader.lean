import Shader.Command.Options
import Shader.Command.Run
import Shader.Decimal.Shortest
import Shader.Decimal.Style
import Shader.Diagnostic
import Shader.Directory
import Shader.IR.Block
import Shader.IR.Builder
import Shader.IR.Dump
import Shader.IR.Error
import Shader.IR.Ident
import Shader.IR.Op
import Shader.IR.Opcode
import Shader.IR.Routine
import Shader.Ident
import Shader.Json.Access
import Shader.Json.Decode
import Shader.Json.Document
import Shader.Json.Fault
import Shader.Json.Numeral
import Shader.Json.StringLiteral
import Shader.Json.Value
import Shader.Library.Basic
import Shader.Library.Core
import Shader.Library.Dependencies
import Shader.Library.Listing
import Shader.Library.Rules
import Shader.Library.Search
import Shader.Literal
import Shader.Location
import Shader.Lowering.Declare
import Shader.Lowering.Emit
import Shader.Lowering.Error
import Shader.Lowering.Expression
import Shader.Lowering.Scope
import Shader.Lowering.Statement
import Shader.Lowering.Tree
import Shader.Machine.Error
import Shader.Machine.Lanes
import Shader.Machine.Memory
import Shader.Machine.Run
import Shader.Machine.Single
import Shader.Machine.Value
import Shader.Machine.ValueJson
import Shader.Machine.Zero
import Shader.Main
import Shader.Object
import Shader.Project
import Shader.Real32
import Shader.References.Basic
import Shader.References.Walk
import Shader.Text.Printable
import Shader.Text.Quoted
import Shader.Tree.Basic
import Shader.Tree.Build
import Shader.Tree.Decode
import Shader.Tree.Encode
import Shader.TypeName
import Shader.TypeSpec
import Shader.Types.Builtin
import Shader.Types.Import
import Shader.Types.Kind
import Shader.Types.Layout
import Shader.Types.Mapped
import Shader.Types.Packing
import Shader.Types.Registry
import Shader.Workspace
import Shader.Proofs.Outcome
import Shader.Proofs.References.Graph
import Shader.Proofs.References.Recursion
import Shader.Proofs.Calls.Acyclic
import Shader.Proofs.IR.Growth
import Shader.Proofs.Machine.Embed
import Shader.Proofs.Scoping.Legal
import Shader.Proofs.Scoping.Runs
import Shader.Proofs.Scoping.Awaited
import Shader.Proofs.Scoping.Safety
import Shader.Proofs.Types.Measured
import Shader.Proofs.Containment.Objects
import Shader.Proofs.Construction.Fresh
import Shader.Proofs.Types.Remembered
import Shader.Proofs.Types.Indexed
import Shader.Proofs.Types.Uniform
import Shader.Proofs.Structure.Marks
import Shader.Proofs.Calls.Convention
import Shader.Proofs.Lowering.Identity
import Shader.Proofs.Construction.Structural
import Shader.Proofs.Machine.Confined
import Shader.Proofs.Machine.Limit
import Shader.Proofs.Machine.History
import Shader.Proofs.Structure.Passage
import Shader.Proofs.Tree.Written
import Shader.Proofs.Types.Read
import Shader.Proofs.Types.Signatures
import Shader.Proofs.Machine.Repaired
import Shader.Proofs.Machine.Division
import Shader.Proofs.Machine.Lens
import Shader.Proofs.IR.Numbering
import Shader.Proofs.References.Agenda
import Shader.Proofs.Types.Packed
import Shader.Proofs.Types.Imported
