import Shader.Lowering.Declare
import Shader.Lowering.Statement

/-!
# Lowering a tree

`lowerTree` compiles a tree into a library: it declares everything, refuses recursion, and emits the
body of every function. The first error ends it, unless all errors are asked for; then each class
gives its first one. The library is complete only if there was none.
-/

namespace Shader

namespace Emit

def start (f : FunctionRef) (location : Location) : ScopeM (Builder × Option TypeRef) := do
  let l := (← get).library
  match l.routine? f with
  | none => Scope.refuse (.ir (.unknownFunction f)) location
  | some routine =>
    Scope.onTypes location do
      let r ← get
      let result ← r.partAt routine.functionType 0
      let info ← r.info result
      return (⟨routine.shell, none⟩, if info.kind = .void then none else some result)

def parameters (location : Location) : List ParameterDecl →
    EmitM (List (ParameterDecl × ValueId × TypeRef))
  | [] => return []
  | p :: ps => do
    let ty ← lowerType p.ty location
    let v ← build location (Builder.parameter p.name ty)
    return (p, v, ty) :: (← parameters location ps)

/-- Declares the object and the parameters, opens the first block and copies the parameters into
variables. -/
def opening (object : Option TypeRef) (ps : List ParameterDecl) (location : Location) :
    EmitM Unit := do
  let this ← object.mapM fun owner => do
    let pointer ← pointerType owner location
    return (← build location (Builder.parameter "this" pointer), owner)
  let ps ← parameters location ps
  let entry ← build location (Builder.placedBlock "entry")
  build location (Builder.enter entry)
  modify fun e => { e with this := this }
  ps.forM fun (p, v, ty) => do
    let pointer ← declareLocal p.id p.name ty location
    store pointer (.value v) location

/-- Finishes a function: makes every block end in one terminator and installs the function. -/
def finish (f : FunctionRef) (location : Location) : EmitM Unit := do
  let e ← get
  let body := e.builder.routine.repair e.returnType
  unless body.isWellFormed do refuse (.malformed body.name) location
  match e.scope.library.install? f body with
  | some l => modify fun e => { e with scope := { e.scope with library := l } }
  | none => refuse (.ir (.unknownFunction f)) location

def routine (f : FunctionRef) (object : Option TypeRef) (ps : List ParameterDecl)
    (body : EmitM Unit) (location : Location) : ScopeM Unit := do
  let (builder, returnType) ← start f location
  let emission : EmitM Unit := do
    opening object ps location
    body
    finish f location
  fun s =>
    let (result, e) := emission { scope := s, builder := builder, returnType := returnType }
    (result, e.scope)

def functionDecl (object : Option TypeRef) (f : FunctionDecl) : ScopeM Unit := do
  let ref ← Scope.function f.id f.location
  routine ref object f.parameters (stmts none f.body) f.location

/-- Initializes one member variable of an object. An object in it without an initializer is
initialized in place. -/
def initializer (this : Storage) (v : VariableDecl) : EmitM Unit := do
  match (← get).scope.fieldIndex? v.id with
  | none => pure ()
  | some index =>
    match v.initial, v.ty with
    | some e, _ =>
      let x ← value e
      let (pointer, _) ← memberOf this index v.location
      store pointer x.1 v.location
    | none, .ofClass id =>
      match (← onScope (Scope.classShape id v.location)).preConstructor with
      | none => pure ()
      | some f =>
        let (pointer, _) ← memberOf this index v.location
        let _ ← call f none [.value pointer] v.location
    | none, _ => pure ()

def initializers (c : ClassDecl) : EmitM Unit := do
  match (← get).this with
  | none => refuse .preConstructorReceiver c.location
  | some this => c.members.forM (initializer this)

/-- The body of a constructor, which initializes the object first. -/
def constructorBody (preConstructor : Option FunctionRef) (k : ConstructorDecl) : EmitM Unit := do
  match preConstructor with
  | none => pure ()
  | some f =>
    match (← get).this with
    | none => refuse .constructorReceiver k.location
    | some (this, _) => let _ ← call f none [.value this] k.location
  stmts none k.body

def classDecl (c : ClassDecl) : ScopeM Unit := do
  let shape ← Scope.classShape c.id c.location
  match shape.preConstructor with
  | some f => routine f (some shape.ty) [] (initializers c) c.location
  | none => pure ()
  c.constructors.forM fun k => do
    let f ← Scope.function k.id k.location
    routine f (some shape.ty) k.parameters (constructorBody shape.preConstructor k) k.location
  c.functions.forM fun f => functionDecl (if f.isStatic then none else some shape.ty) f
  c.members.forM fun v => v.accessors.forM (functionDecl (some shape.ty))

end Emit

/-- Emits classes. After an error the next class is tried only if all errors are asked for. -/
def lowerClasses : List ClassDecl → Scope → Report → Scope × Report
  | [], s, report => (s, report)
  | c :: cs, s, report =>
    match Emit.classDecl c s with
    | (.ok _, s) => lowerClasses cs s report
    | (.error e, s) =>
      let report := report.add e.diagnostic
      if report.all then lowerClasses cs s report else (s, report)

/-- Compiles a tree into a library, reporting errors. The library is complete if no error has been
reported. -/
def lowerTree (t : Tree) (l : Library) (report : Report) : Library × Report :=
  match Scope.declareTree t { library := l } with
  | (.error e, s) => (s.library, report.add e.diagnostic)
  | (.ok _, s) =>
    match t.recursion? with
    | some r => (s.library, report.add r.toError.diagnostic)
    | none =>
      let (s, report) := lowerClasses t.classes s report
      if report.failed then (s.library, report)
      else ({ s.library with complete := true }, report)

end Shader
