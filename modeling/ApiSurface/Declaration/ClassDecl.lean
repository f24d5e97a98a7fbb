import ApiSurface.Declaration.Member
import ApiSurface.Fault

/-!
# Classes

Classes, interfaces, enums and annotation types.  A nested class is named by its path, as in
`Outer.Inner`; from the name and the package follow the qualified name and the class around it.
Both are derived, never stored: classes are covered as `declare` names them, and none with a
qualified name or a class around it that was set to something else.
-/

namespace ApiSurface

/-- Kinds of classes. -/
inductive ClassKind where
  | ordinary
  | interface
  | enumeration
  | annotationType
  deriving DecidableEq, Repr, Inhabited

namespace ClassKind

/-- The keyword of a kind in signature text. -/
def keyword : ClassKind → String
  | .ordinary => "class"
  | .interface => "interface"
  | .enumeration => "enum"
  | .annotationType => "@interface"

/-- The word used in messages. -/
def label : ClassKind → String
  | .ordinary => "class"
  | .interface => "interface"
  | .enumeration => "enum"
  | .annotationType => "annotation"

/-- Interfaces and annotation types are abstract and have no superclass. -/
def isInterfaceLike : ClassKind → Bool
  | .ordinary => false
  | .interface => true
  | .enumeration => false
  | .annotationType => true

end ClassKind

/-- A name inside a package; the package without a name adds nothing. -/
def qualify (package name : String) : String :=
  if package = "" then name else package ++ "." ++ name

/-- A class with its members in the order of declaration. -/
structure ClassDecl where
  package : String
  /-- The name within the package; nested classes use `Outer.Inner`. -/
  name : String
  kind : ClassKind
  modifiers : Modifiers := {}
  typeParameters : List TypeParameter := []
  superclass : Option TypeRef := none
  interfaces : List TypeRef := []
  annotations : List Annotation := []
  constructors : List Method := []
  methods : List Method := []
  fields : List Field := []
  exposure : Exposure := {}
  tags : DocTags := {}
  deriving DecidableEq, Repr

namespace ClassDecl

/-- The name with its package, which is the only qualified name that a class can have here. -/
def qualifiedName (c : ClassDecl) : String :=
  qualify c.package c.name

/-- The qualified name of the class around a nested class.  It follows from the name, so that every
class whose name has a dot is nested. -/
def containingClass (c : ClassDecl) : Option String :=
  (Text.splitLast '.' c.name.toList).map fun p => qualify c.package (String.ofList p.1)

/-- The superclass that a class has without naming one. -/
def implicitSuperclass : TypeRef :=
  { name := TypeRef.object, nullability := .nonNull }

/-- A class with nothing but what its kind implies: an ordinary class extends the root class unless
it is the root class, interfaces and annotation types are abstract. -/
def declare (package name : String) (kind : ClassKind) : ClassDecl :=
  { package, name, kind
    modifiers := { isAbstract := kind.isInterfaceLike }
    superclass :=
      if kind = .ordinary ∧ qualify package name ≠ TypeRef.object then some implicitSuperclass
      else none }

/-- The class with its modifiers set; interfaces and annotation types stay abstract. -/
def withModifiers (c : ClassDecl) (modifiers : Modifiers) : ClassDecl :=
  { c with modifiers :=
      { modifiers with isAbstract := modifiers.isAbstract || c.kind.isInterfaceLike } }

/-- The erased signature of a method, read in the class. -/
def signatureOf (c : ClassDecl) (m : Method) : String :=
  m.signatureIn c.typeParameters

/-- The first method with an erased signature. -/
def findMethod? (c : ClassDecl) (signature : String) : Option Method :=
  c.methods.find? fun m => c.signatureOf m == signature

/-- The first constructor with an erased signature. -/
def findConstructor? (c : ClassDecl) (signature : String) : Option Method :=
  c.constructors.find? fun m => c.signatureOf m == signature

def findField? (c : ClassDecl) (name : String) : Option Field :=
  c.fields.find? fun f => f.name == name

/-- The class with one more method, unless its signature is taken. -/
def addMethod (c : ClassDecl) (m : Method) : Except Fault ClassDecl :=
  if (c.findMethod? (c.signatureOf m)).isSome then
    .error (.duplicate c.qualifiedName (c.signatureOf m))
  else .ok { c with methods := c.methods ++ [m] }

/-- The class with one more constructor, unless its signature is taken. -/
def addConstructor (c : ClassDecl) (m : Method) : Except Fault ClassDecl :=
  if (c.findConstructor? (c.signatureOf m)).isSome then
    .error (.duplicate c.qualifiedName (c.signatureOf m))
  else .ok { c with constructors := c.constructors ++ [m] }

/-- The class with one more field, unless its name is taken. -/
def addField (c : ClassDecl) (f : Field) : Except Fault ClassDecl :=
  if (c.findField? f.name).isSome then .error (.duplicate c.qualifiedName f.name)
  else .ok { c with fields := c.fields ++ [f] }

/-- Whether nothing can be derived from the class. -/
def isEffectivelyFinal (c : ClassDecl) : Bool :=
  c.modifiers.isFinal || c.kind == .enumeration || c.modifiers.isSealed

/-- Names of the declared supertypes: the superclass, then the interfaces. -/
def supertypeNames (c : ClassDecl) : List String :=
  (c.superclass.toList ++ c.interfaces).map TypeRef.name

def isVisible (c : ClassDecl) : Bool :=
  c.exposure.lifecycle == .visible

/-- Whether the class is a tombstone. -/
def isRemoved (c : ClassDecl) : Bool :=
  c.exposure.lifecycle == .removed

end ClassDecl

end ApiSurface
