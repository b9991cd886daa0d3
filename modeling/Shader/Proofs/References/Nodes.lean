import Shader.References.Walk

/-!
# The expressions of a body

A body refers to what its expressions refer to, each by itself.

* `Expr.nodes` and `Stmt.positions` list the expressions in an expression and in a statement, the
  latter with the mode that the position of each needs.
-/

namespace Shader

/-! ### The expressions in a body -/

mutual

/-- An expression and all expressions in it. -/
def Expr.nodes : Expr → List Expr
  | ⟨kind, ty, location⟩ => ⟨kind, ty, location⟩ :: kind.nodes

/-- All expressions in an expression of this kind. -/
def ExprKind.nodes : ExprKind → List Expr
  | .literal _ | .localVar _ | .thisObject => []
  | .binary _ left right => left.nodes ++ right.nodes
  | .unary _ operand => operand.nodes
  | .cast operand => operand.nodes
  | .member access => access.nodes
  | .call access arguments => access.nodes ++ exprsNodes arguments
  | .construct _ arguments => exprsNodes arguments

/-- All expressions in the use of a member. -/
def Access.nodes : Access → List Expr
  | ⟨target, _, _, _⟩ => exprNodes? target

/-- All expressions in an expression that may be missing. -/
def exprNodes? : Option Expr → List Expr
  | none => []
  | some e => e.nodes

/-- All expressions in expressions. -/
def exprsNodes : List Expr → List Expr
  | [] => []
  | e :: es => e.nodes ++ exprsNodes es

end

/-- An expression and all expressions in it, each with the mode that its position needs. What stands
inside an expression is read. -/
def Expr.positions (needed : IoMode) (e : Expr) : List (IoMode × Expr) :=
  (needed, e) :: e.kind.nodes.map fun n => (.read, n)

/-- All expressions in an expression that is read and may be missing. -/
def exprPositions? : Option Expr → List (IoMode × Expr)
  | none => []
  | some e => e.positions .read

/-- What an assignment needs of its target. -/
def IoMode.ofAssignment (op : Option BinaryOperator) : IoMode :=
  if op.isSome then .readWrite else .write

mutual

/-- All expressions in a statement, each with the mode that its position needs. -/
def Stmt.positions : Stmt → List (IoMode × Expr)
  | ⟨kind, _⟩ => kind.positions

/-- All expressions in a statement of this kind. -/
def StmtKind.positions : StmtKind → List (IoMode × Expr)
  | .expression e => e.positions .read
  | .localVar _ _ _ initial => exprPositions? initial
  | .assign target op value => target.positions (.ofAssignment op) ++ value.positions .read
  | .ret value => exprPositions? value
  | .ifChain parts => partsPositions parts
  | .whileLoop condition body => condition.positions .read ++ stmtsPositions body
  | .forLoop start condition step body =>
    stmtPositions? start ++ exprPositions? condition ++ stmtPositions? step ++ stmtsPositions body
  | .breakLoop | .continueLoop => []

/-- All expressions in a part of a chain of conditions. -/
def IfPart.positions : IfPart → List (IoMode × Expr)
  | ⟨condition, body⟩ => exprPositions? condition ++ stmtsPositions body

/-- All expressions in a statement that may be missing. -/
def stmtPositions? : Option Stmt → List (IoMode × Expr)
  | none => []
  | some s => s.positions

/-- All expressions in statements. -/
def stmtsPositions : List Stmt → List (IoMode × Expr)
  | [] => []
  | s :: ss => s.positions ++ stmtsPositions ss

/-- All expressions in the parts of a chain of conditions. -/
def partsPositions : List IfPart → List (IoMode × Expr)
  | [] => []
  | p :: ps => p.positions ++ partsPositions ps

end

/-! ### What an expression refers to by itself -/

variable {d : Declarations} {r : Reference}

/-- What an expression refers to, apart from the expressions in it. -/
def Expr.ownReferences (d : Declarations) : Expr → List Reference
  | ⟨.member access, _, location⟩ | ⟨.call access _, _, location⟩ =>
    Reference.ofAccessed d [location] access.io access.accessed
  | ⟨.construct constructor _, ty, location⟩ => Reference.ofConstruction d [location] ty constructor
  | _ => []

/-- The reference is made by one of these expressions. -/
def Reference.In (d : Declarations) (r : Reference) (es : List Expr) : Prop :=
  ∃ e ∈ es, r ∈ e.ownReferences d

@[simp] theorem Reference.in_nil : ¬ r.In d [] := by simp [In]

@[simp] theorem Reference.in_cons {e : Expr} {es : List Expr} :
    r.In d (e :: es) ↔ r ∈ e.ownReferences d ∨ r.In d es := by simp [In]

@[simp] theorem Reference.in_append {es es' : List Expr} :
    r.In d (es ++ es') ↔ r.In d es ∨ r.In d es' := by
  simp only [In, List.mem_append, or_and_right, exists_or]

mutual

theorem Expr.mem_references : ∀ e : Expr, r ∈ e.references d ↔ r.In d e.nodes
  | ⟨kind, ty, location⟩ => by
    rw [Expr.references, Expr.nodes, Reference.in_cons]
    exact kind.mem_references ty location

theorem ExprKind.mem_references (ty : TypeSpec) (location : Location) : ∀ k : ExprKind,
    r ∈ k.references d ty location ↔
      r ∈ Expr.ownReferences d ⟨k, ty, location⟩ ∨ r.In d k.nodes
  | .literal _ | .localVar _ | .thisObject => by
    simp [ExprKind.references, ExprKind.nodes, Expr.ownReferences]
  | .binary _ e e' => by
    simp [ExprKind.references, ExprKind.nodes, Expr.ownReferences, e.mem_references,
      e'.mem_references]
  | .unary _ e | .cast e => by
    simp [ExprKind.references, ExprKind.nodes, Expr.ownReferences, e.mem_references]
  | .member a => by
    rw [ExprKind.references, ExprKind.nodes, a.mem_references, Expr.ownReferences]
  | .call a es => by
    rw [ExprKind.references, ExprKind.nodes, List.mem_append, Reference.in_append,
      exprs_mem_references, a.mem_references, Expr.ownReferences, or_comm, or_assoc]
  | .construct k es => by
    rw [ExprKind.references, ExprKind.nodes, List.mem_append, exprs_mem_references,
      Expr.ownReferences, or_comm]

theorem Access.mem_references (location : Location) : ∀ a : Access,
    r ∈ a.references d location ↔
      r ∈ Reference.ofAccessed d [location] a.io a.accessed ∨ r.In d a.nodes
  | ⟨e, _, _, _⟩ => by
    rw [Access.references, Access.nodes, List.mem_append, expr?_mem_references, or_comm]

theorem expr?_mem_references : ∀ e : Option Expr, r ∈ exprReferences? d e ↔ r.In d (exprNodes? e)
  | none => by simp [exprReferences?, exprNodes?]
  | some e => e.mem_references

theorem exprs_mem_references : ∀ es : List Expr, r ∈ exprsReferences d es ↔ r.In d (exprsNodes es)
  | [] => by simp [exprsReferences, exprsNodes]
  | e :: es => by simp [exprsReferences, exprsNodes, e.mem_references, exprs_mem_references es]

end

/-- The expressions in these positions. -/
def exprsAt (ps : List (IoMode × Expr)) : List Expr := ps.map Prod.snd

@[simp] theorem exprsAt_nil : exprsAt [] = [] := rfl

@[simp] theorem exprsAt_append (ps ps' : List (IoMode × Expr)) :
    exprsAt (ps ++ ps') = exprsAt ps ++ exprsAt ps' := List.map_append

@[simp] theorem exprsAt_positions (needed : IoMode) (e : Expr) :
    exprsAt (e.positions needed) = e.nodes := by
  obtain ⟨kind, ty, location⟩ := e
  simp [exprsAt, Expr.positions, Expr.nodes, Function.comp_def]

@[simp] theorem exprsAt_exprPositions? (e : Option Expr) :
    exprsAt (exprPositions? e) = exprNodes? e := by
  cases e with
  | none => rfl
  | some e => exact exprsAt_positions .read e

mutual

theorem Stmt.mem_references : ∀ s : Stmt, r ∈ s.references d ↔ r.In d (exprsAt s.positions)
  | ⟨kind, _⟩ => kind.mem_references

theorem StmtKind.mem_references : ∀ k : StmtKind,
    r ∈ k.references d ↔ r.In d (exprsAt k.positions)
  | .expression e => by simp [StmtKind.references, StmtKind.positions, e.mem_references]
  | .localVar _ _ _ e | .ret e => by
    simp [StmtKind.references, StmtKind.positions, expr?_mem_references]
  | .assign e _ e' => by
    simp [StmtKind.references, StmtKind.positions, e.mem_references, e'.mem_references, or_comm]
  | .ifChain ps => by rw [StmtKind.references, StmtKind.positions, parts_mem_references]
  | .whileLoop e body => by
    simp [StmtKind.references, StmtKind.positions, e.mem_references, stmts_mem_references body]
  | .forLoop start e step body => by
    simp [StmtKind.references, StmtKind.positions, stmt?_mem_references start,
      expr?_mem_references, stmt?_mem_references step, stmts_mem_references body]
  | .breakLoop | .continueLoop => by simp [StmtKind.references, StmtKind.positions]

theorem IfPart.mem_references : ∀ p : IfPart, r ∈ p.references d ↔ r.In d (exprsAt p.positions)
  | ⟨e, body⟩ => by
    simp [IfPart.references, IfPart.positions, expr?_mem_references, stmts_mem_references body]

theorem stmt?_mem_references : ∀ s : Option Stmt,
    r ∈ stmtReferences? d s ↔ r.In d (exprsAt (stmtPositions? s))
  | none => by simp [stmtReferences?, stmtPositions?]
  | some s => s.mem_references

theorem stmts_mem_references : ∀ ss : List Stmt,
    r ∈ stmtsReferences d ss ↔ r.In d (exprsAt (stmtsPositions ss))
  | [] => by simp [stmtsReferences, stmtsPositions]
  | s :: ss => by simp [stmtsReferences, stmtsPositions, s.mem_references, stmts_mem_references ss]

theorem parts_mem_references : ∀ ps : List IfPart,
    r ∈ partsReferences d ps ↔ r.In d (exprsAt (partsPositions ps))
  | [] => by simp [partsReferences, partsPositions]
  | p :: ps => by simp [partsReferences, partsPositions, p.mem_references, parts_mem_references ps]

end

end Shader
