import Shader.Library.Basic
import Shader.Types.Layout

/-!
# Listings

A listing shows a library line by line: its types with their layouts, its constants, and its
functions with their placed blocks. Asking for a layout enters it into the type, so a listing is an
operation on the types.
-/

namespace Shader

namespace Listing

def numbered {α : Type} (items : List α) : List (Nat × α) := items.zipIdx.map fun (a, i) => (i, a)

def members (r : Registry) (i : TypeInfo) : Except IrError String := do
  if i.kind = .struct then
    let parts ← (i.parts.zip i.memberNames).mapM fun (part, name) => do
      return s!" {name}:" ++ (← r.nameOf part)
    return String.join parts
  else return ""

def layout (t : TypeRef) : TypeM String := do
  match (Registry.layout t).run (← get) with
  | (.ok l, r) => set r; return s!" size={l.size} align={l.alignment}"
  | (.error (.dangling d), _) => throw (.dangling d)
  | (.error _, r) => set r; return ""

def typeLine (t : TypeRef) : TypeM String := do
  let r ← get
  let i ← r.info t
  let head := s!"type {t.text} {i.name} {i.kind.name}"
  let members ← members r i
  return head ++ members ++ (← layout t)

def constantLine (r : Registry) (id : ConstantId) (c : Constant) : Except IrError String := do
  return s!"const {id.text} <" ++ (← r.nameOf c.ty) ++ s!"> {c.value.text}"

def opLine (r : Registry) (op : Op) : Except IrError String := do
  let ty ← match op.resultType with
    | some t => pure (" <" ++ (← r.nameOf t) ++ ">")
    | none => pure ""
  let name := match op.name with
    | some n => "  ; " ++ n
    | none => ""
  return "    " ++ op.lead ++ op.opcode.text ++ ty ++ op.operandTexts ++ name

def blockTags (b : Block) : String :=
  (match b.role with
    | .direct => ""
    | .selection => " selection"
    | .loop => " loop") ++
  (match b.merge with
    | some m => s!" merge={m.text}"
    | none => "") ++
  (match b.continuation with
    | some c => s!" continue={c.text}"
    | none => "")

def blockLines (r : Registry) (b : Block) : Except IrError (List String) := do
  let ops ← (b.locals ++ b.ops).mapM (opLine r)
  return (s!"  {b.id.text} ({b.name}):" ++ blockTags b) :: ops

def parameterText (r : Registry) (p : Parameter) : Except IrError String := do
  return s!"{p.id.text} {p.name}: " ++ (← r.nameOf p.ty)

def routineLines (r : Registry) (ref : FunctionRef) (f : Routine) :
    Except IrError (List String) := do
  let parameters ← f.parameters.mapM (parameterText r)
  let owner ← r.nameOf f.owner
  let ty ← r.nameOf f.functionType
  let head := s!"function {ref.text} {owner}.{f.name}(" ++ ", ".intercalate parameters ++ s!") {ty}"
  let blocks ← f.placed.mapM (blockLines r)
  return head :: blocks.flatten

end Listing

def Library.listing (l : Library) : TypeM String := do
  let types ← (List.range l.types.size).mapM fun i => Listing.typeLine ⟨i⟩
  let r ← get
  let constants ← (Listing.numbered l.constants).mapM fun (i, c) => Listing.constantLine r ⟨i⟩ c
  let routines ← (Listing.numbered l.routines).mapM fun (i, f) =>
    Listing.routineLines r ⟨l.id, i⟩ f
  let lines := s!"library {l.name} ({l.id.text})" :: types ++ constants ++ routines.flatten
  return String.join (lines.map (· ++ "\n"))

end Shader
