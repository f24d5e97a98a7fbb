import ApiSurface.Declaration.ClassDecl

/-!
# Pairing methods

Methods of an old class are paired with those of a new one, first by the parameter types as written
and then by erased signature, each side erased in its own class.  A new method paired by its types
is taken; one paired by erasure may pair again.  Of several candidates the closest ones count, and
all of them if they are equally close.
-/

namespace ApiSurface

/-- Old methods with their partners, old methods without one, new methods that are no partner. -/
structure Pairing where
  matched : List (Method × List Method)
  removed : List Method
  added : List Method

namespace Pairing

/-- The number of places in which two methods of one signature differ. -/
def distance (old new : Method) : Nat :=
  ((old.parameters.zip new.parameters).countP fun p => !p.1.type.sameType p.2.type) +
    (match old.returnType, new.returnType with
      | some s, some t => if s.sameType t then 0 else 1
      | _, _ => 0) +
    ((old.typeParameters.length - new.typeParameters.length) +
      (new.typeParameters.length - old.typeParameters.length))

/-- What pairing by written types leaves. -/
structure Exact where
  pairs : List (Method × Method)
  /-- Old methods without a partner. -/
  pending : List Method
  /-- New methods that are not taken. -/
  free : List Method

/-- Pair each old method with the first new one that has the same types as written and is not
taken. -/
def exact : (old new : List Method) → Exact
  | [], new => ⟨[], [], new⟩
  | m :: old, new =>
    let fits := fun n : Method => n.exactSignature == m.exactSignature
    match new.find? fits with
    | some n =>
      let rest := exact old (new.eraseP fits)
      { rest with pairs := (m, n) :: rest.pairs }
    | none =>
      let rest := exact old new
      { rest with pending := m :: rest.pending }

/-- The new methods with the erased signature of an old one. -/
def candidates (oldClass newClass : ClassDecl) (new : List Method) (m : Method) : List Method :=
  new.filter fun n => newClass.signatureOf n == oldClass.signatureOf m

def closest (oldClass newClass : ClassDecl) (new : List Method) (m : Method) : List Method :=
  let group := candidates oldClass newClass new m
  group.filter fun n => (group.map (distance m)).min? == some (distance m n)

/-- Pair the methods of two classes. -/
def between (oldClass : ClassDecl) (old : List Method) (newClass : ClassDecl)
    (new : List Method) : Pairing :=
  let byTypes := exact old new
  let partners := closest oldClass newClass byTypes.free
  { matched :=
      byTypes.pairs.map (fun p => (p.1, [p.2])) ++
        (byTypes.pending.filter fun m => !(partners m).isEmpty).map fun m => (m, partners m)
    removed := byTypes.pending.filter fun m => (partners m).isEmpty
    added := byTypes.free.filter fun n => !byTypes.pending.any fun m => (partners m).contains n }

end Pairing

end ApiSurface
