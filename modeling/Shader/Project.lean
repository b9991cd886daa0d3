import Shader.Library.Dependencies
import Shader.Lowering.Tree
import Shader.Object
import Shader.Tree.Decode

/-!
# Projects

A project is a name and some sources, each the serialized form of a tree. Building it reads the
sources, compiles the merged tree into a new library and records what the fields of new objects
hold.
-/

namespace Shader

/-- What should not happen between a compiler and its surroundings. -/
inductive Inconsistency where
  | incompleteDependency (name : String)
  | construction (className : String) (error : ObjectError)
  | fieldDefault (className field : String) (error : ObjectError)
  | stated (reason : String)
  deriving DecidableEq, Repr

def Inconsistency.message : Inconsistency → String
  | .incompleteDependency name => s!"dependency '{name}' has not been translated"
  | .construction className e => s!"default construction of '{className}' failed: {e.message}"
  | .fieldDefault className field e =>
    s!"reading default of '{className}.{field}' failed: {e.message}"
  | .stated reason => reason

inductive CompileError where
  | source (file : String) (fault : Json.Fault)
  /-- A tree that was refused; the report says why. -/
  | refused (library : String)
  | internal (cause : Inconsistency)
  | unreadable (reason : String)

namespace CompileError

/-- The place of a fault in a source. Faults are placed by line only. -/
def sourceLocation (file : String) (fault : Json.Fault) : Location := ⟨file, fault.line, 0⟩

def message : CompileError → String
  | .source file fault =>
    s!"Source compilation error at {(sourceLocation file fault).text}: {fault.cause.message}"
  | .refused library => s!"Translation of library '{library}' failed"
  | .internal cause => s!"Internal consistency error: {cause.message}"
  | .unreadable reason => s!"IO error: {reason}"

def diagnostic : CompileError → Diagnostic
  | .source file fault =>
    .error "Fragment source failed to compile" fault.cause.message (sourceLocation file fault)
  | e => .error e.message e.message .unknown

end CompileError

structure Source where
  text : String
  location : String

structure Project where
  name : String
  sources : List Source := []
  report : Report := {}

structure Build where
  result : Except CompileError Library
  report : Report
  next : Nat

namespace Project

def add (p : Project) (s : Source) : Project := { p with sources := p.sources ++ [s] }

/-- Reads sources and merges their trees. -/
def readSources (t : Tree) : List Source → Except CompileError Tree
  | [] => .ok t
  | s :: ss =>
    match Tree.ofText s.text with
    | .ok u => readSources (t.merge u) ss
    | .error fault => .error (.source s.location fault)

def withDefault (l : Library) (record : ClassRecord) (o : Object) (f : FieldRecord) :
    Except CompileError FieldRecord :=
  match f.member with
  | none => .ok f
  | some _ =>
    match o.property l f.property with
    | .ok v => .ok { f with initial := some v }
    | .error e => .error (.internal (.fieldDefault record.name f.name e))

def withDefaults (l : Library) (record : ClassRecord) : Except CompileError ClassRecord :=
  match Object.default l Machine.defaultLimit record.id with
  | .error e => .error (.internal (.construction record.name e))
  | .ok o => do
    return { record with fields := ← record.fields.mapM (withDefault l record o) }

/-- The library with the values of fields in new objects recorded. -/
def recordDefaults (l : Library) : Except CompileError Library := do
  return { l with records := ← l.records.mapM (withDefaults l) }

/-- Builds the library of a project on top of others. A library takes the number `next`, if the
build gets as far as making one. -/
def build (p : Project) (dependencies : List Library) (next : Nat) : Build :=
  let report := p.report.clear
  match Library.flatten dependencies with
  | .error l => ⟨.error (.internal (.incompleteDependency l.name)), report, next⟩
  | .ok dependencies =>
    match readSources {} p.sources with
    | .error e => ⟨.error e, report.add e.diagnostic, next⟩
    | .ok tree =>
      let empty : Library := { id := ⟨next⟩, name := p.name, dependencies := dependencies }
      let (library, report) := lowerTree tree empty report
      if library.complete then ⟨recordDefaults library, report, next + 1⟩
      else ⟨.error (.refused p.name), report, next + 1⟩

end Project

end Shader
