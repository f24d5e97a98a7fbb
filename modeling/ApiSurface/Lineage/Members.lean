import ApiSurface.Lineage

/-!
# Effective members

The members of a class together with those it inherits.  A supertype contributes a method unless it
is static, private or removed, and a field unless it is private or removed; of two members with one
signature the nearer one counts, own members before all.
-/

namespace ApiSurface

/-- Own and inherited members of a class. -/
structure EffectiveMembers where
  /-- Qualified name of the class. -/
  owner : String
  /-- Methods with their signature, own ones first. -/
  methods : List (String × Method)
  /-- Fields with their name, own ones first. -/
  fields : List (String × Field)
  unresolved : List Unresolved

namespace EffectiveMembers

/-- Append the candidates whose key does not occur yet, the first of each key. -/
def extend {α : Type} (members : List (String × α)) : List (String × α) → List (String × α)
  | [] => members
  | x :: candidates =>
    if members.any fun y => y.1 == x.1 then extend members candidates
    else extend (members ++ [x]) candidates

def findMethod? (e : EffectiveMembers) (signature : String) : Option Method :=
  (e.methods.find? fun x => x.1 == signature).map Prod.snd

/-- The first method with a signature that a supertype declares. -/
def findInheritedMethod? (e : EffectiveMembers) (signature : String) : Option Method :=
  (e.methods.find? fun x => x.1 == signature && x.2.owner != e.owner).map Prod.snd

/-- The first field with a name that a supertype declares. -/
def findInheritedField? (e : EffectiveMembers) (name : String) : Option Field :=
  (e.fields.find? fun x => x.1 == name && x.2.owner != e.owner).map Prod.snd

end EffectiveMembers

def Method.isInherited (m : Method) : Bool :=
  !m.modifiers.isStatic && m.exposure.lifecycle != .removed && m.modifiers.access != .priv

def Field.isInherited (f : Field) : Bool :=
  f.exposure.lifecycle != .removed && f.modifiers.access != .priv

namespace ClassDecl

def signedMethods (c : ClassDecl) : List (String × Method) :=
  c.methods.map fun m => (c.signatureOf m, m)

def namedFields (c : ClassDecl) : List (String × Field) :=
  c.fields.map fun f => (f.name, f)

end ClassDecl

namespace Codebase

/-- Own and inherited members of a class. -/
def effectiveMembers (cb : Codebase) (c : ClassDecl) : EffectiveMembers :=
  { owner := c.qualifiedName
    methods := EffectiveMembers.extend c.signedMethods <|
      (cb.supertypes c).flatMap fun s => s.signedMethods.filter fun x => x.2.isInherited
    fields := EffectiveMembers.extend c.namedFields <|
      (cb.supertypes c).flatMap fun s => s.namedFields.filter fun x => x.2.isInherited
    unresolved := cb.unresolved c }

/-- The method of a supertype that a method overrides. -/
def overridden? (cb : Codebase) (c : ClassDecl) (m : Method) : Option Method :=
  if m.isConstructor || m.modifiers.isStatic then none
  else
    (cb.supertypes c).findSome? fun s =>
      s.methods.find? fun n =>
        !n.modifiers.isStatic && n.modifiers.access != .priv &&
          s.signatureOf n == c.signatureOf m

end Codebase

end ApiSurface
