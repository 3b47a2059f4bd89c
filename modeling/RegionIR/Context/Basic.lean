import RegionIR.Context.Pool
import RegionIR.Action

/-!
# Contexts

A context makes types and attributes and keeps each under its key, so that
asking twice gives the same instance. Entries may also be planted under any
key; what was planted is then what the makers hand out for that key.
-/

namespace RegionIR

/-- The tables of types and attributes, and the number of instances made. -/
structure Context where
  /-- Tells the instances of this context from those of others. -/
  name : Nat := 0
  made : Nat := 0
  types : Pool TypeKind Ty := .empty
  attributes : Pool AttributeKey Attribute := .empty
  deriving DecidableEq, Inhabited

namespace Context

variable {ε : Type}

/-- A stamp that no instance carries yet. -/
def stamp : Action Context ε Stamp := do
  let c ← .get
  .modify fun c => { c with made := c.made + 1 }
  return ⟨c.name, c.made⟩

/-- Binds a new type. -/
def internType (kind : TypeKind) (t : Ty) : Action Context ε Unit := do
  let pool ← .read fun c => c.types.intern kind t
  .modify fun c => { c with types := pool }

/-- Binds a new attribute. -/
def internAttribute (key : AttributeKey) (a : Attribute) : Action Context ε Unit := do
  let pool ← .read fun c => c.attributes.intern key a
  .modify fun c => { c with attributes := pool }

/-- An integer type has a positive width. -/
def checkWidth : TypeKind → Except Fault Unit
  | .integer 0 _ => .error .zeroWidth
  | _ => .ok ()

/-- The type of a kind: the bound one, or a new one that is bound from now on. -/
def typeOf (kind : TypeKind) : Action Context ε Ty := do
  .ofExcept (checkWidth kind)
  let c ← .get
  match c.types.find? kind with
  | some t => return t
  | none =>
    let t : Ty := ⟨← stamp, kind⟩
    internType kind t
    return t

/-- Plants a type under any key. -/
def addType (kind : TypeKind) (t : Ty) : Action Context DuplicateKeyError Unit := do
  let c ← .get
  match c.types.add Ty.equal .type kind t with
  | .error e => .refuse e
  | .ok pool => .modify fun c => { c with types := pool }

/-- The attribute bound to a key, or a new one of the given content. -/
def attributeAt (key : AttributeKey) (t : Ty) (p : Payload) : Action Context ε Attribute := do
  let c ← .get
  match c.attributes.find? key with
  | some a => return a
  | none =>
    let a : Attribute := ⟨← stamp, t, p⟩
    internAttribute key a
    return a

/-- The attribute of a type and a payload that fits it. The type may come
from another context. -/
def attributeOf (t : Ty) (p : Payload) : Action Context MisfitError Attribute := do
  .refuseIf (← .ofExcept (t.kind.misfit p))
  attributeAt ⟨t.kind, p⟩ t p

/-- Refuses a type whose kind fails a test, whatever the payload. -/
def expectKind (t : Ty) (test : TypeKind → Bool) (p : Payload) :
    Action Context MisfitError Unit :=
  if test t.kind then pure () else .refuse (.shape t.kind p.shape)

/-- The attribute of an integer type. -/
def integerAttribute (t : Ty) (value : Word128) : Action Context MisfitError Attribute := do
  expectKind t TypeKind.isInteger (.int value)
  attributeOf t (.int value)

/-- The attribute of a floating-point type. -/
def floatAttribute (t : Ty) (value : Binary64) : Action Context MisfitError Attribute := do
  expectKind t TypeKind.isFloat (.float value)
  attributeOf t (.float value)

/-- The attribute of the index type. -/
def indexAttribute (value : Word128) : Action Context MisfitError Attribute := do
  let t ← typeOf .index
  attributeOf t (.int value)

/-- The attribute of a text. -/
def stringAttribute (value : String) : Action Context ε Attribute := do
  let t ← typeOf .nonNumeric
  attributeAt ⟨.nonNumeric, .str value⟩ t (.str value)

/-- Plants an attribute under any key. -/
def addAttribute (key : AttributeKey) (a : Attribute) :
    Action Context DuplicateKeyError Unit := do
  let c ← .get
  match c.attributes.add Attribute.equal .attr key a with
  | .error e => .refuse e
  | .ok pool => .modify fun c => { c with attributes := pool }

end Context

end RegionIR
