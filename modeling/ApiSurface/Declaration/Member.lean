import ApiSurface.Declaration.Modifiers
import ApiSurface.TypeRef.Erasure

/-!
# Members of classes

Methods, constructors and fields.  A constructor is a method without a result.  Members of one
class are told apart by their erased signature, fields by their name.
-/

namespace ApiSurface

/-- A parameter of a method. -/
structure Parameter where
  type : TypeRef
  name : Option String := none
  /-- The default, as written. -/
  defaultValue : Option String := none
  /-- The last array dimension of the type is written as `...`. -/
  varargs : Bool := false
  annotations : List Annotation := []
  deriving DecidableEq, Repr

/-- A method or a constructor. -/
structure Method where
  name : String
  /-- Qualified name of the declaring class. -/
  owner : String
  modifiers : Modifiers
  /-- The type of the result; a constructor has none. -/
  returnType : Option TypeRef
  typeParameters : List TypeParameter := []
  parameters : List Parameter := []
  throws : List TypeRef := []
  annotations : List Annotation := []
  /-- The default of an annotation element, as written. -/
  defaultValue : Option String := none
  /-- Made by a compiler, hence never part of a surface. -/
  synthetic : Bool := false
  exposure : Exposure := {}
  tags : DocTags := {}
  deriving DecidableEq, Repr

namespace Method

def isConstructor (m : Method) : Bool :=
  m.returnType.isNone

/-- Name and erased parameter types, for a method of a class with the given type variables. -/
def signatureIn (scope : List TypeParameter) (m : Method) : String :=
  m.name ++ "(" ++
    Text.join "," (m.parameters.map fun p => p.type.erased (m.typeParameters ++ scope)) ++ ")"

/-- Name and erased parameter types, without looking at the class. -/
def signature (m : Method) : String :=
  m.signatureIn []

/-- Parameter types as written, without nullability. -/
def parameterText (m : Method) : String :=
  Text.join "," (m.parameters.map fun p => p.type.canonical)

/-- Name and parameter types as written, without nullability. -/
def exactSignature (m : Method) : String :=
  m.name ++ "(" ++ m.parameterText ++ ")"

def isVisible (m : Method) : Bool :=
  m.exposure.lifecycle == .visible && !m.synthetic

def isRemoved (m : Method) : Bool :=
  m.exposure.lifecycle == .removed

end Method

/-- A field or an enum constant. -/
structure Field where
  name : String
  /-- Qualified name of the declaring class. -/
  owner : String
  modifiers : Modifiers
  type : TypeRef
  annotations : List Annotation := []
  /-- The value, as written. -/
  value : Option String := none
  isEnumConstant : Bool := false
  /-- Made by a compiler, hence never part of a surface. -/
  synthetic : Bool := false
  exposure : Exposure := {}
  tags : DocTags := {}
  deriving DecidableEq, Repr

namespace Field

/-- Whether callers may have taken over the value of the field. -/
def isConstant (f : Field) : Bool :=
  f.modifiers.isStatic && f.modifiers.isFinal && f.value.isSome

def isVisible (f : Field) : Bool :=
  f.exposure.lifecycle == .visible && !f.synthetic

def isRemoved (f : Field) : Bool :=
  f.exposure.lifecycle == .removed

end Field

/-- Orders in which members are listed. -/
inductive MemberOrder where
  /-- Widest access first, then by name. -/
  | accessThenName
  | name
  deriving DecidableEq, Repr, Inhabited

namespace MemberOrder

/-- Compare by access, widest first, if the order asks for it. -/
def compareAccess (order : MemberOrder) (a b : Modifiers) : Ordering :=
  match order with
  | .accessThenName => compare b.access.rank a.access.rank
  | .name => .eq

/-- Compare methods by access, name and parameter types. -/
def compareMethods (order : MemberOrder) (a b : Method) : Ordering :=
  ((order.compareAccess a.modifiers b.modifiers).then (compare a.name b.name)).then
    (compare a.parameterText b.parameterText)

/-- Compare fields: enum constants first, then by access and name. -/
def compareFields (order : MemberOrder) (a b : Field) : Ordering :=
  ((compare b.isEnumConstant a.isEnumConstant).then
    (order.compareAccess a.modifiers b.modifiers)).then (compare a.name b.name)

/-- Methods in order; those that compare equal stay as they stood. -/
def sortMethods (order : MemberOrder) (methods : List Method) : List Method :=
  methods.mergeSort fun a b => (order.compareMethods a b).isLE

/-- Fields in order; those that compare equal stay as they stood. -/
def sortFields (order : MemberOrder) (fields : List Field) : List Field :=
  fields.mergeSort fun a b => (order.compareFields a b).isLE

end MemberOrder

end ApiSurface
