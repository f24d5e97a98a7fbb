import ApiSurface.Annotation

/-!
# Modifiers and standing of declarations

What classes and members have in common: declared access and modifiers, the marks found in their
documentation, and the exposure that the rules of a surface give them.
-/

namespace ApiSurface

/-- Declared access, from narrowest to widest. -/
inductive Access where
  /-- Accessible within its class. -/
  | priv
  /-- Accessible within its package. -/
  | pack
  /-- Accessible to subclasses. -/
  | prot
  /-- Accessible everywhere. -/
  | pub
  deriving DecidableEq, Repr, Inhabited

namespace Access

/-- The place of an access in the order from narrowest to widest. -/
def rank : Access → Nat
  | .priv => 0
  | .pack => 1
  | .prot => 2
  | .pub => 3

/-- The keyword of an access; access within the package has none. -/
def keyword? : Access → Option String
  | .priv => some "private"
  | .pack => none
  | .prot => some "protected"
  | .pub => some "public"

/-- The word used in messages. -/
def label (a : Access) : String :=
  a.keyword?.getD "package-private"

end Access

/-- Modifiers of classes and members. -/
structure Modifiers where
  access : Access := .pack
  isStatic : Bool := false
  isFinal : Bool := false
  isAbstract : Bool := false
  isDefault : Bool := false
  isSealed : Bool := false
  isTransient : Bool := false
  isVolatile : Bool := false
  isDeprecated : Bool := false
  deriving DecidableEq, Repr, Inhabited

/-- Whether an item is part of the surface, kept out of it, or only remembered. -/
inductive Lifecycle where
  | visible
  | hidden
  /-- A tombstone: once part of the surface. -/
  | removed
  deriving DecidableEq, Repr, Inhabited

/-- Marks found in the documentation of an item. -/
structure DocTags where
  hide : Bool := false
  removed : Bool := false
  deriving DecidableEq, Repr, Inhabited

/-- What the rules of a surface decide about an item. -/
structure Exposure where
  lifecycle : Lifecycle := .visible
  /-- A show rule applies to the item. -/
  shown : Bool := false
  deriving DecidableEq, Repr, Inhabited

end ApiSurface
