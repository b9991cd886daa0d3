import Shader.Lowering.Scope

/-!
# Declaring a tree

Before any body is emitted, every class becomes a struct, its stored fields become members, and
every function, constructor, accessor and pre-constructor gets a signature, so calls may appear in
any order.
-/

namespace Shader

/-- Whether a class has a stored field to initialize: one with an initializer, or an object. -/
def ClassDecl.needsPreConstructor (c : ClassDecl) : Bool :=
  c.members.any fun v => v.isField && (v.initial.isSome || v.ty.isClass)

namespace Scope

def declareClass (c : ClassDecl) : ScopeM Unit :=
  modify fun s =>
    let (ty, types) := s.library.types.internStruct c.name
    let library := { s.library with types := types }.setClassType c.id ty
    { s with library := library, classes := (c.id, ⟨ty, none⟩) :: s.classes }

def declareVariable (c : ClassDecl) (owner : TypeRef) (v : VariableDecl) : ScopeM FieldRecord := do
  if v.isStatic then refuse (.staticVariable c.name v.name) v.location
  let ty ← lowerType v.ty v.location
  if v.isField then
    let index ← onTypes v.location (Registry.addMember owner ty v.name)
    modify fun s => { s with fields := (v.id, index) :: s.fields }
    return { name := v.name, property := v.id, ty := ty, member := some index }
  else
    let accessors := (v.getter.map FunctionDecl.id, v.setter.map FunctionDecl.id)
    modify fun s => { s with accessors := (v.id, accessors) :: s.accessors }
    return { name := v.name, property := v.id, ty := ty, member := none }

def declareMembers (c : ClassDecl) : ScopeM Unit := do
  let owner := (← classShape c.id c.location).ty
  let fields ← c.members.mapM (declareVariable c owner)
  modify fun s =>
    { s with library := s.library.addRecord { id := c.id, name := c.name, ty := owner,
                                              fields := fields } }

/-- Changes the first record of a class. -/
def changeRecord (id : ClassId) (change : ClassRecord → ClassRecord) : ScopeM Unit :=
  modify fun s =>
    let records := s.library.records
    match records.findIdx? (·.id = id) with
    | some i => { s with library := { s.library with records := records.modify i change } }
    | none => s

def createRoutine (owner : TypeRef) (name : String) (functionType : TypeRef) (location : Location) :
    ScopeM FunctionRef := fun s =>
  match s.library.createRoutine owner name functionType with
  | (.ok f, l) => (.ok f, { s with library := l })
  | (.error e, l) => (.error (.refused (.ir e) location), { s with library := l })

/-- Says what function an identity stands for and whether it takes an object. -/
def nameFunction (id : FunctionId) (f : FunctionRef) (takesObject : Bool) : ScopeM Unit :=
  modify fun s => { s with library := s.library.setFunction id f,
                           receivers := (id, takesObject) :: s.receivers }

def declareFunction (owner : TypeRef) (name : String) (id : FunctionId)
    (parameters : List ParameterDecl) (result : TypeSpec) (takesObject : Bool)
    (location : Location) : ScopeM FunctionRef := do
  let object ← if takesObject then do
      let p ← onTypes location (Registry.pointerType owner)
      pure [p]
    else pure []
  let types ← parameters.mapM fun p => lowerType p.ty location
  let result ← lowerType result location
  let functionType ← onTypes location (Registry.functionType result (object ++ types))
  let f ← createRoutine owner name functionType location
  nameFunction id f takesObject
  return f

def declarePreConstructor (c : ClassDecl) (owner : TypeRef) (object void : TypeRef) :
    ScopeM Unit := do
  let functionType ← onTypes c.location (Registry.functionType void [object])
  let f ← createRoutine owner "PreConstructor" functionType c.location
  match c.preConstructor with
  | some id => nameFunction id f true
  | none => pure ()
  modify fun s =>
    match s.classes.lookup c.id with
    | some shape =>
      { s with classes := (c.id, { shape with preConstructor := some f }) :: s.classes }
    | none => s
  changeRecord c.id fun r => { r with preConstructor := some f }

def declareAccessor (owner : TypeRef) (name : String) (f : FunctionDecl) : ScopeM Unit := do
  let _ ← declareFunction owner name f.id f.parameters f.result true f.location

def declareSignatures (c : ClassDecl) : ScopeM Unit := do
  let owner := (← classShape c.id c.location).ty
  let object ← onTypes c.location (Registry.pointerType owner)
  let void ← lowerType .void c.location
  if c.preConstructor.isSome ∨ c.needsPreConstructor then
    declarePreConstructor c owner object void
  c.constructors.forM fun k => do
    let f ← declareFunction owner "Constructor" k.id k.parameters .void true k.location
    if k.parameters.isEmpty then
      changeRecord c.id fun r => { r with defaultConstructor := some f }
  c.functions.forM fun f => do
    let _ ← declareFunction owner f.name f.id f.parameters f.result (!f.isStatic) f.location
  c.members.forM fun v => do
    v.getter.forM (declareAccessor owner ("Get" ++ v.name))
    v.setter.forM (declareAccessor owner ("Set" ++ v.name))

def declareTree (t : Tree) : ScopeM Unit := do
  t.classes.forM declareClass
  t.classes.forM declareMembers
  t.classes.forM declareSignatures

end Scope

end Shader
