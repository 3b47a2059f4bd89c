import RegionIR.Context.Range

/-!
# Instances of types and attributes

A type or attribute that a context hands out is an instance, and the
question whether two of them are the same instance is part of the interface.
So each carries a stamp: the context that made it, and a serial number that
this context never used before.
-/

namespace RegionIR

/-- Which instance of which context. -/
structure Stamp where
  context : Nat
  serial : Nat
  deriving DecidableEq, Repr, Inhabited

/-- An instance of a type. -/
structure Ty where
  stamp : Stamp
  kind : TypeKind
  deriving DecidableEq, Inhabited

namespace Ty

def text (t : Ty) : String := t.kind.text

def sameInstance (a b : Ty) : Bool := a.stamp == b.stamp

/-- Types are equal if they are one instance or have one structure. -/
def equal (a b : Ty) : Bool := a.sameInstance b || a.kind == b.kind

end Ty

/-- An instance of an attribute: a payload together with its type. -/
structure Attribute where
  stamp : Stamp
  ty : Ty
  payload : Payload
  deriving DecidableEq, Inhabited

namespace Attribute

def text (a : Attribute) : String := a.payload.text ++ " : " ++ a.ty.text

def sameInstance (a b : Attribute) : Bool := a.stamp == b.stamp

/-- Attributes are equal if they are one instance, or if their types are
equal and their payloads are equal as numbers. -/
def equal (a b : Attribute) : Bool :=
  a.sameInstance b || (a.ty.equal b.ty && a.payload.numericEq b.payload)

/-- The key that the attribute's own content gives. -/
def key (a : Attribute) : AttributeKey := ⟨a.ty.kind, a.payload⟩

end Attribute

end RegionIR
