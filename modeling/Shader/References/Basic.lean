import Shader.Tree.Basic

/-!
# References between declarations

What the body of a declaration refers to: the functions it calls, the accessors and fields it uses,
the constructors it runs and the member variables it initializes. `Item.references` lists them in
the order in which they stand in the source; the items of a tree with these references form its
reference graph.

An object of a class is initialized by the pre-constructor of the class. A class without one stands
for the list of its member variables.
-/

namespace Shader

inductive Symbol where
  /-- A function, a constructor, an accessor or a pre-constructor. -/
  | function (id : FunctionId)
  | property (id : PropertyId)
  deriving DecidableEq, Repr

def Symbol.text : Symbol → String
  | .function id => id.text
  | .property id => id.text

/-- A declaration with a body. -/
inductive Item where
  | function (f : FunctionDecl)
  | constructor (c : ConstructorDecl) (owner : ClassDecl)
  /-- The pre-constructor of a class, which runs its initializers. -/
  | preConstructor (id : FunctionId) (owner : ClassDecl)
  | memberVariable (v : VariableDecl)

namespace Item

def symbol : Item → Symbol
  | .function f => .function f.id
  | .constructor c _ => .function c.id
  | .preConstructor id _ => .function id
  | .memberVariable v => .property v.id

def location : Item → Location
  | .function f => f.location
  | .constructor c _ => c.location
  | .preConstructor _ owner => owner.location
  | .memberVariable v => v.location

end Item

/-- A use of an item, with the places that lead to it from inside the item that uses it. -/
structure Reference where
  via : List Location
  item : Item

def VariableDecl.accessors (v : VariableDecl) : List FunctionDecl :=
  v.getter.toList ++ v.setter.toList

/-- What the identities of a tree stand for. Of two declarations with one identity the later one
counts. -/
structure Declarations where
  classes : List ClassDecl
  functions : List FunctionDecl
  constructors : List (ConstructorDecl × ClassDecl)
  members : List VariableDecl

namespace Declarations

def ofTree (t : Tree) : Declarations where
  classes := t.classes.reverse
  functions := (t.classes.flatMap fun c =>
    c.functions ++ c.members.flatMap VariableDecl.accessors).reverse
  constructors := (t.classes.flatMap fun c => c.constructors.map fun k => (k, c)).reverse
  members := (t.classes.flatMap ClassDecl.members).reverse

def class? (d : Declarations) (id : ClassId) : Option ClassDecl := d.classes.find? (·.id = id)

def function? (d : Declarations) (id : FunctionId) : Option FunctionDecl :=
  d.functions.find? (·.id = id)

def constructor? (d : Declarations) (id : FunctionId) : Option (ConstructorDecl × ClassDecl) :=
  d.constructors.find? (·.1.id = id)

def memberVariable? (d : Declarations) (id : PropertyId) : Option VariableDecl :=
  d.members.find? (·.id = id)

end Declarations

namespace Reference

/-- What it takes to initialize an object of a class. -/
def ofClass (via : List Location) (c : ClassDecl) : List Reference :=
  match c.preConstructor with
  | some id => [⟨via, .preConstructor id c⟩]
  | none => c.members.map fun v => ⟨via ++ [c.location], .memberVariable v⟩

/-- A use of a function. Functions of other libraries are left out: those libraries are free of
recursion. -/
def ofFunction (d : Declarations) (via : List Location) (id : FunctionId) : List Reference :=
  match d.function? id with
  | some f => [⟨via, .function f⟩]
  | none => []

/-- The accessors a mode of access uses. -/
def ofAccessors (d : Declarations) (via : List Location) (get set : Option FunctionId) :
    IoMode → List Reference
  | .read => get.toList.flatMap (ofFunction d via)
  | .write => set.toList.flatMap (ofFunction d via)
  | .readWrite =>
    get.toList.flatMap (ofFunction d via) ++ set.toList.flatMap (ofFunction d via)

def ofAccessed (d : Declarations) (via : List Location) (io : IoMode) :
    Accessed → List Reference
  | .function id => ofFunction d via id
  | .accessors get set => ofAccessors d via get set io
  | .property id =>
    match d.memberVariable? id with
    | none => []
    | some v =>
      if v.isField then [⟨via, .memberVariable v⟩]
      else ofAccessors d via (v.getter.map FunctionDecl.id) (v.setter.map FunctionDecl.id) io
  | .intrinsic _ => []

def ofConstruction (d : Declarations) (via : List Location) (ty : TypeSpec)
    (constructor : Option FunctionId) : List Reference :=
  match constructor.bind d.constructor?, ty with
  | some (c, owner), _ => [⟨via, .constructor c owner⟩]
  | none, .ofClass id => (d.class? id).toList.flatMap (ofClass via)
  | none, _ => []

end Reference

section

variable (d : Declarations)

mutual

def Expr.references : Expr → List Reference
  | ⟨kind, ty, location⟩ => kind.references ty location

def ExprKind.references (ty : TypeSpec) (location : Location) : ExprKind → List Reference
  | .literal _ => []
  | .localVar _ => []
  | .thisObject => []
  | .binary _ left right => left.references ++ right.references
  | .unary _ operand => operand.references
  | .cast operand => operand.references
  | .member access => access.references location
  | .call access arguments => exprsReferences arguments ++ access.references location
  | .construct constructor arguments =>
    exprsReferences arguments ++ Reference.ofConstruction d [location] ty constructor

def Access.references (location : Location) : Access → List Reference
  | ⟨target, _, accessed, io⟩ =>
    exprReferences? target ++ Reference.ofAccessed d [location] io accessed

def exprReferences? : Option Expr → List Reference
  | none => []
  | some e => e.references

def exprsReferences : List Expr → List Reference
  | [] => []
  | e :: es => e.references ++ exprsReferences es

end

mutual

def Stmt.references : Stmt → List Reference
  | ⟨kind, _⟩ => kind.references

def StmtKind.references : StmtKind → List Reference
  | .expression e => e.references d
  | .localVar _ _ _ initial => exprReferences? d initial
  | .assign target _ value => value.references d ++ target.references d
  | .ret value => exprReferences? d value
  | .ifChain parts => partsReferences parts
  | .whileLoop condition body => condition.references d ++ stmtsReferences body
  | .forLoop start condition step body =>
    stmtReferences? start ++ exprReferences? d condition ++ stmtReferences? step ++
      stmtsReferences body
  | .breakLoop => []
  | .continueLoop => []

def IfPart.references : IfPart → List Reference
  | ⟨condition, body⟩ => exprReferences? d condition ++ stmtsReferences body

def stmtReferences? : Option Stmt → List Reference
  | none => []
  | some s => s.references

def stmtsReferences : List Stmt → List Reference
  | [] => []
  | s :: ss => s.references ++ stmtsReferences ss

def partsReferences : List IfPart → List Reference
  | [] => []
  | p :: ps => p.references ++ partsReferences ps

end

/-- What a member variable refers to: what its initializer does, or, if it stores an object and has
none, what initializes the object. -/
def VariableDecl.references (v : VariableDecl) : List Reference :=
  match v.initial, v.ty with
  | some e, _ => e.references d
  | none, .ofClass id =>
    if v.isField then (d.class? id).toList.flatMap (Reference.ofClass []) else []
  | none, _ => []

/-- What an item refers to. A constructor initializes the object before its body runs. -/
def Item.references : Item → List Reference
  | .function f => stmtsReferences d f.body
  | .constructor c owner => Reference.ofClass [] owner ++ stmtsReferences d c.body
  | .preConstructor _ owner => owner.members.map fun v => ⟨[], .memberVariable v⟩
  | .memberVariable v => v.references d

end

/-- What a class declares: what initializes its objects, its constructors, its functions and its
accessors. -/
def ClassDecl.declared (c : ClassDecl) : List Reference :=
  Reference.ofClass [] c ++
  c.constructors.map (fun k => ⟨[], .constructor k c⟩) ++
  c.functions.map (fun f => ⟨[], .function f⟩) ++
  (c.members.flatMap VariableDecl.accessors).map fun f => ⟨[], .function f⟩

end Shader
