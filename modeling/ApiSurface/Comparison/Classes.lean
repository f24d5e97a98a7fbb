import ApiSurface.Comparison.Members

/-!
# Comparing classes and packages

Changes of classes that exist on both sides, and the packages and classes that are compared.
-/

namespace ApiSurface
namespace Comparison

open Change (when ofAccess ofStatic ofDeprecation)

/-- The changes of the kind and the modifiers of a class. -/
def declarationChanges (old new : ClassDecl) : List Change :=
  let (om, nm) := (old.modifiers, new.modifiers)
  when (old.kind != new.kind) (.kind old.kind new.kind) ++ ofAccess om nm ++
    when (!om.isFinal && nm.isFinal && old.constructors.any Method.isVisible) .becameFinal ++
    ofStatic om nm ++
    when (old.kind == new.kind && !om.isAbstract && nm.isAbstract) .becameAbstract ++
    when (!om.isSealed && nm.isSealed) .becameSealed ++ ofDeprecation om nm

/-- The changes of the superclasses: the first one that is lost. -/
def superclassChanges (cmp : Comparison) (old new : ClassDecl) : List Change :=
  let after := cmp.new.superclassChain new
  match (cmp.old.superclassChain old).find? fun name => !after.contains name with
  | some lost =>
    [.superclass (old.superclass.map TypeRef.canonical) (new.superclass.map TypeRef.canonical) lost]
  | none => []

def interfaceChanges (cmp : Comparison) (old new : ClassDecl) : List Change :=
  let before := cmp.old.allInterfaces old
  let after := cmp.new.allInterfaces new
  (before.without after).map .removedInterface ++ (after.without before).map .addedInterface

/-- The finding about a class that is gone. -/
def removedClass (c : ClassDecl) : Finding :=
  ⟨Location.ofClass c, .classDecl c.kind, .removed c.modifiers.isDeprecated c.qualifiedName⟩

/-- The finding about a class that is new. -/
def addedClass (c : ClassDecl) : Finding :=
  ⟨Location.ofClass c, .classDecl c.kind, .added c.qualifiedName⟩

def classNames (cb : Codebase) (package : String) : NameSet :=
  match cb.package? package with
  | some p => p.classNames
  | none => ∅

/-- The packages on the surface that have a class on it. -/
def visiblePackages (cb : Codebase) : NameSet :=
  Catalog.ofList <|
    (cb.packages.items.filter fun p =>
      p.exposure.lifecycle == .visible && (cb.classesIn p).any ClassDecl.isVisible).map Package.name

end Comparison
end ApiSurface
