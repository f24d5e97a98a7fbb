import ApiSurface.Comparison.Classes
import ApiSurface.Comparison.Report

/-!
# Checking a comparison

A check visits packages, classes and members and raises what it finds as it goes.  What the mode or
the registry does not let through is dropped on the spot; the rest is entered into the report and
counted.  A supertype that cannot be resolved is noted where it is met first, whether or not it is
reported there.
-/

namespace ApiSurface
namespace Comparison

/-- What a check has come to. -/
structure Progress where
  report : Report := {}
  /-- References noted so far. -/
  unresolved : List Unresolved := []
  deriving DecidableEq, Repr

/-- A comparison with the mode and the registry that it is checked under. -/
structure Checker where
  cmp : Comparison
  registry : Registry
  mode : Mode

namespace Checker

/-- A part of the visit. -/
abbrev Visit :=
  StateM Progress Unit

variable (k : Checker)

/-- Enter a finding into the report, if mode and registry let it through. -/
def raise (f : Finding) : Visit := do
  if f.issue.isEnabled k.mode then
    if k.registry.severity f.issue ≠ .hidden then
      modify fun s => { s with report := s.report.add (Entry.ofFinding k.registry f) }

def raiseChanges (location : Location) (item : Item) (changes : List Change) : Visit :=
  changes.forM fun change => k.raise ⟨location, item, change⟩

/-- Raise the references of a class that have not been noted yet. -/
def noteUnresolved (c : ClassDecl) (references : List Unresolved) : Visit :=
  references.forM fun reference => do
    if reference ∉ (← get).unresolved then
      modify fun s => { s with unresolved := reference :: s.unresolved }
      k.raise ⟨Location.ofClass c, .classDecl c.kind, .unresolved reference⟩

/-! ## Members -/

/-- Compare results; a constructor has none. -/
def compareResults (r : Renaming) (location : Location) (item : Item) (target : Nullness.Target) :
    (old new : Option TypeRef) → Visit
  | some s, some t => k.raiseChanges location item (k.cmp.typeChanges r .result target s t)
  | _, _ => pure ()

def compareMethod (oldClass newClass : ClassDecl) (old new : Method) : Visit := do
  let location := Location.ofMember oldClass old.exactSignature
  let signature := newClass.signatureOf new
  let r := (Renaming.between oldClass.typeParameters newClass.typeParameters).within
    (Renaming.between old.typeParameters new.typeParameters)
  k.raiseChanges location (itemOf old) (methodModifierChanges oldClass old new)
  k.compareResults r location (itemOf old) (.result newClass.qualifiedName signature)
    old.returnType new.returnType
  (old.parameters.zip new.parameters).zipIdx.forM fun ((p, q), index) => do
    let item := Item.parameter index old.isConstructor
    let target := Nullness.Target.parameter newClass.qualifiedName signature new.isConstructor index
    k.raiseChanges location item (k.cmp.typeChanges r .parameter target p.type q.type)
    k.raiseChanges location item (parameterChanges p q)
  k.raiseChanges location (itemOf old) (throwsChanges old new)
  k.raiseChanges location (itemOf old) (defaultChanges old.defaultValue new.defaultValue)

def compareField (oldClass newClass : ClassDecl) (old new : Field) : Visit := do
  let location := Location.ofMember oldClass old.name
  let place := if old.modifiers.isFinal then Nullness.Place.finalField else .mutableField
  let target := Nullness.Target.field newClass.qualifiedName new.name
  let r := Renaming.between oldClass.typeParameters newClass.typeParameters
  k.raiseChanges location .field (fieldModifierChanges old.modifiers new.modifiers)
  k.raiseChanges location .field (k.cmp.typeChanges r place target old.type new.type)
  k.raiseChanges location .field (valueChanges old new)
  k.raiseChanges location .field (Change.ofDeprecation old.modifiers new.modifiers)

def removeMethod (c : ClassDecl) (m : Method) : Visit :=
  k.raise (removedMethod c m)

def addMethod (c : ClassDecl) (m : Method) : Visit :=
  (addedMethod c m).forM k.raise

/-- Compare every method with each of its partners. -/
def comparePairs (oldClass newClass : ClassDecl) (pairing : Pairing) : Visit :=
  pairing.matched.forM fun (m, partners) =>
    partners.forM fun n => k.compareMethod oldClass newClass m n

def compareConstructors (old new : ClassDecl) : Visit := do
  let pairing := Pairing.between old (old.constructors.filter Method.isVisible) new
    (new.constructors.filter Method.isVisible)
  k.comparePairs old new pairing
  pairing.removed.forM (k.removeMethod old)
  pairing.added.forM (k.addMethod new)

/-- Compare the methods of a class.  One that moves to a supertype is not gone, and one that comes
from a supertype is not new. -/
def compareMethods (before after : EffectiveMembers) (old new : ClassDecl) : Visit := do
  let pairing := Pairing.between old (old.methods.filter Method.isVisible) new
    (new.methods.filter Method.isVisible)
  k.comparePairs old new pairing
  pairing.removed.forM fun m => do
    if (after.findInheritedMethod? (old.signatureOf m)).isNone then k.removeMethod old m
  pairing.added.forM fun m => do
    if (before.findInheritedMethod? (new.signatureOf m)).isNone then k.addMethod new m

def compareFields (before after : EffectiveMembers) (old new : ClassDecl) : Visit := do
  let oldFields := old.fields.filter Field.isVisible
  let newFields := new.fields.filter Field.isVisible
  oldFields.forM fun f => do
    match newFields.find? fun g => g.name == f.name with
    | some g => k.compareField old new f g
    | none =>
      if (after.findInheritedField? f.name).isNone then k.raise (removedField old f)
  newFields.forM fun g => do
    if !oldFields.any (fun f => f.name == g.name) && (before.findInheritedField? g.name).isNone then
      k.raise (addedField new g)

/-! ## Classes and packages -/

def compareHierarchy (old new : ClassDecl) : Visit := do
  k.noteUnresolved new (k.cmp.new.unresolvedSuperclasses new)
  k.raiseChanges (Location.ofClass new) (.classDecl new.kind) (k.cmp.superclassChanges old new)
  k.noteUnresolved new (k.cmp.new.unresolved new)
  k.raiseChanges (Location.ofClass new) (.classDecl new.kind) (k.cmp.interfaceChanges old new)

def compareMembers (old new : ClassDecl) : Visit := do
  let before := k.cmp.old.effectiveMembers old
  let after := k.cmp.new.effectiveMembers new
  k.noteUnresolved new after.unresolved
  k.compareConstructors old new
  k.compareMethods before after old new
  k.compareFields before after old new

def compareClass (old new : ClassDecl) : Visit := do
  k.raiseChanges (Location.ofClass new) (.classDecl new.kind) (declarationChanges old new)
  k.compareHierarchy old new
  k.compareMembers old new

def checkClass (name : String) : Visit := do
  match (k.cmp.old.class? name).filter ClassDecl.isVisible,
    (k.cmp.new.class? name).filter ClassDecl.isVisible with
  | some old, some new => k.compareClass old new
  | some old, none => k.raise (removedClass old)
  | none, some new => k.raise (addedClass new)
  | none, none => pure ()

def checkPackage (name : String) : Visit := do
  match (visiblePackages k.cmp.old).contains name, (visiblePackages k.cmp.new).contains name with
  | true, false => k.raise ⟨{ package := name }, .package, .removed false name⟩
  | false, true => k.raise ⟨{ package := name }, .package, .added name⟩
  | _, _ =>
    ((classNames k.cmp.old name).union (classNames k.cmp.new name)).items.forM k.checkClass

def checkPackages : Visit :=
  ((visiblePackages k.cmp.old).union (visiblePackages k.cmp.new)).items.forM k.checkPackage

/-- What the whole visit comes to. -/
def run : Progress :=
  (k.checkPackages.run {}).2

end Checker

/-- The report of a comparison, ordered by place; entries of one place stay in the order of the
visit. -/
def report (cmp : Comparison) (registry : Registry) (mode : Mode) : Report :=
  let r := (Checker.run ⟨cmp, registry, mode⟩).report
  { r with entries := r.entries.mergeSort fun a b => (a.location.compare b.location).isLE }

end Comparison
end ApiSurface
