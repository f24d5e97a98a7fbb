import ApiSurface.Comparison.Finding
import ApiSurface.Comparison.Pairing
import ApiSurface.Lineage.Members
import ApiSurface.TypeRef.Renaming

/-!
# Comparing members

Changes of methods, constructors and fields that exist on both sides.  Types are compared once the
type variables of the old declaration are renamed to those of the new one, so that new names for
variables are no change.
-/

namespace ApiSurface

/-- Two codebases to compare, with a reference for migrations of nullability. -/
structure Comparison where
  old : Codebase
  new : Codebase
  /-- Nullability that this codebase still leaves open is under migration. -/
  reference : Option Codebase := none

namespace Change

def when (happened : Bool) (change : Change) : List Change :=
  if happened then [change] else []

/-- Access narrower than before. -/
def ofAccess (old new : Modifiers) : List Change :=
  when (new.access.rank < old.access.rank) (.access old.access new.access)

/-- A member of the class that was one of its objects before, or the other way round. -/
def ofStatic (old new : Modifiers) : List Change :=
  when (old.isStatic != new.isStatic) (.static old.isStatic new.isStatic)

def ofDeprecation (old new : Modifiers) : List Change :=
  when (old.isDeprecated != new.isDeprecated) (.deprecation old.isDeprecated new.isDeprecated)

end Change

namespace Comparison

open Change (when ofAccess ofStatic ofDeprecation)

def nullnessChanges (cmp : Comparison) (place : Nullness.Place) (target : Nullness.Target)
    (old new : Nullability) : List Change :=
  match Nullness.classify place old new with
  | some issue => [.nullability (target.migrate cmp.reference issue) place old new]
  | none => []

/-- A change of a type, or else of its nullability. -/
def typeChanges (cmp : Comparison) (r : Renaming) (place : Nullness.Place)
    (target : Nullness.Target) (old new : TypeRef) : List Change :=
  if r.sameType old new then cmp.nullnessChanges place target old.nullability new.nullability
  else [.type old.canonical new.canonical]

/-- A change of a name that callers may use. -/
def nameChanges (old new : Parameter) : List Change :=
  match old.name with
  | some name => when (new.name != some name) (.parameterName name new.name)
  | none => []

/-- A default value that is changed or dropped. -/
def defaultChanges (old new : Option String) : List Change :=
  match old with
  | some value => when (new != some value) (.defaultValue value new)
  | none => []

/-- The changes of a parameter besides its type. -/
def parameterChanges (old new : Parameter) : List Change :=
  nameChanges old new ++ when (old.varargs && !new.varargs) .varargsRemoved ++
    defaultChanges old.defaultValue new.defaultValue

/-- The types that a method throws, as written. -/
def thrownNames (m : Method) : NameSet :=
  Catalog.ofList (m.throws.map TypeRef.canonical)

def throwsChanges (old new : Method) : List Change :=
  ((thrownNames new).without (thrownNames old)).map .addedThrows ++
    ((thrownNames old).without (thrownNames new)).map .removedThrows

/-- The changes of the modifiers of a method.  A method becomes final only if it could be overridden
before. -/
def methodModifierChanges (oldClass : ClassDecl) (old new : Method) : List Change :=
  let (om, nm) := (old.modifiers, new.modifiers)
  ofAccess om nm ++ ofStatic om nm ++
    when (!old.isConstructor && !om.isFinal && nm.isFinal && !oldClass.isEffectivelyFinal)
      .becameFinal ++
    when (!om.isAbstract && nm.isAbstract) .becameAbstract ++ ofDeprecation om nm

/-- What a finding about a method is about. -/
def itemOf (m : Method) : Item :=
  if m.isConstructor then .constructor else .method

/-- The changes of the modifiers of a field, apart from deprecation. -/
def fieldModifierChanges (om nm : Modifiers) : List Change :=
  ofAccess om nm ++ ofStatic om nm ++ when (!om.isFinal && nm.isFinal) .becameFinal ++
    when (om.isFinal && !nm.isFinal) .becameOpen ++
    when (om.isTransient != nm.isTransient) (.transience om.isTransient nm.isTransient) ++
    when (om.isVolatile != nm.isVolatile) (.volatility om.isVolatile nm.isVolatile)

def valueChanges (old new : Field) : List Change :=
  when (old.isConstant && old.value != new.value) (.value old.value new.value)

/-! ## Members on one side only -/

/-- The finding about a method that is gone. -/
def removedMethod (c : ClassDecl) (m : Method) : Finding :=
  ⟨Location.ofMember c m.exactSignature, itemOf m,
    .removed m.modifiers.isDeprecated m.exactSignature⟩

/-- Whether a new method has to be implemented by classes that exist already. -/
def demandsImplementation (c : ClassDecl) (m : Method) : Bool :=
  c.modifiers.isAbstract && m.modifiers.isAbstract && !m.modifiers.isStatic &&
    !m.modifiers.isDefault && m.defaultValue.isNone

/-- The findings about a method that is new. -/
def addedMethod (c : ClassDecl) (m : Method) : List Finding :=
  (.added m.exactSignature ::
      when (demandsImplementation c m) (.addedAbstract m.exactSignature)).map
    (Finding.mk (Location.ofMember c m.exactSignature) (itemOf m))

/-- The finding about a field that is gone. -/
def removedField (c : ClassDecl) (f : Field) : Finding :=
  ⟨Location.ofMember c f.name, .field, .removed false f.type.canonical⟩

/-- The finding about a field that is new. -/
def addedField (c : ClassDecl) (f : Field) : Finding :=
  ⟨Location.ofMember c f.name, .field, .added f.type.canonical⟩

end Comparison

end ApiSurface
