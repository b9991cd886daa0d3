import Shader.IR.Routine
import Shader.Json.Value
import Shader.Types.Registry

/-!
# Dumps of functions and types

The JSON form of a function with its placed blocks, and of a type as it is registered.
-/

namespace Shader

/-- A block in JSON. What ends it and where that leads is null if no terminator does. -/
def Block.dump (b : Block) : Json :=
  .obj [("id", .str b.id.text), ("name", .str b.name), ("type", .str b.role.name),
    ("merge", .option (.str ·.text) b.merge), ("continue", .option (.str ·.text) b.continuation),
    ("locals", .arr (b.locals.map (.str ·.text))), ("ops", .arr (b.ops.map (.str ·.text))),
    ("empty", .bool b.isEmpty), ("op_count", .nat b.opCount),
    ("has_terminator", .bool b.hasTerminator), ("terminator", .option (.str ·.text) b.terminator?),
    ("targets", .option (fun op => .arr (op.targets.map (.str ·.text))) b.terminator?),
    ("well_formed", .bool b.isWellFormed)]

def Routine.dump (f : Routine) : Json :=
  .obj [("name", .str f.name),
    ("params", .arr (f.parameters.map fun p => .str s!"{p.id.text} {p.name} {p.ty.text}")),
    ("entry", .option (.str ·.text) f.entry?), ("block_count", .nat f.order.length),
    ("op_count", .nat f.opCount), ("well_formed", .bool f.isWellFormed),
    ("blocks", .arr (f.placed.map Block.dump))]

def TypeInfo.dump (i : TypeInfo) : Json :=
  .obj [("name", .str i.name), ("base", .str i.kind.name), ("scalar", .bool i.kind.isScalar),
    ("n", .nat i.count), ("of", .option (.str ·.text) i.component),
    ("to", .option (.str ·.text) i.pointee), ("pointer", .bool (i.kind = .pointer)),
    ("params", .arr (i.parts.map (.str ·.text))), ("members", .arr (i.memberNames.map .str)),
    ("functions", .arr (i.functions.map (.str ·.text)))]

end Shader
