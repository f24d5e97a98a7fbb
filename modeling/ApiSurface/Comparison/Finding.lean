import ApiSurface.Comparison.Nullness
import ApiSurface.Lineage

/-!
# Findings

A finding is a change of an item at a place.  Its issue, the values before and after and the message
all follow from the change.
-/

namespace ApiSurface

/-- Where a finding was made. -/
structure Location where
  package : String
  /-- The qualified name of the class. -/
  owner : Option String := none
  /-- The signature of a method or the name of a field. -/
  member : Option String := none
  deriving DecidableEq, Repr

namespace Location

def ofClass (c : ClassDecl) : Location :=
  { package := c.package, owner := some c.qualifiedName }

def ofMember (c : ClassDecl) (member : String) : Location :=
  { package := c.package, owner := some c.qualifiedName, member := some member }

/-- The place as messages name it. -/
def label (l : Location) : String :=
  match l.owner, l.member with
  | some owner, some member => owner ++ "." ++ member
  | some owner, none => owner
  | none, _ => l.package

/-- Compare names where one may be missing; a missing one comes first. -/
def compareName : Option String → Option String → Ordering
  | none, none => .eq
  | none, some _ => .lt
  | some _, none => .gt
  | some a, some b => compare a b

/-- Compare places by package, class and member. -/
protected def compare (a b : Location) : Ordering :=
  ((compare a.package b.package).then (compareName a.owner b.owner)).then
    (compareName a.member b.member)

end Location

/-- What a finding is about. -/
inductive Item where
  | package
  | classDecl (kind : ClassKind)
  | constructor
  | method
  | field
  /-- A parameter of a method or constructor, counted from zero. -/
  | parameter (index : Nat) (ofConstructor : Bool)
  deriving DecidableEq, Repr

namespace Item

/-- The word for an item in the middle of a message. -/
def noun : Item → String
  | .package => "package"
  | .classDecl kind => kind.label
  | .constructor => "constructor"
  | .method => "method"
  | .field => "field"
  | .parameter .. => "parameter"

/-- The word for an item that holds others, at the start of a message. -/
def title : Item → String
  | .package => "Package"
  | .classDecl _ => "Class"
  | .constructor => "Constructor"
  | .method => "Method"
  | .field => "Field"
  | .parameter _ ofConstructor => if ofConstructor then "Constructor" else "Method"

/-- What starts a message about an item at a place; for a parameter this is its method. -/
def holder (item : Item) (l : Location) : String :=
  item.title ++ " " ++ l.label

/-- The item as messages name it. -/
def subject (item : Item) (l : Location) : String :=
  match item with
  | .parameter index _ => s!"Parameter {index + 1} of " ++ item.holder l
  | _ => item.holder l

end Item

/-- Changes of items. -/
inductive Change where
  /-- The item is new; the value is its name, its signature or its type. -/
  | added (value : String)
  /-- A new method breaks classes that have to implement it. -/
  | addedAbstract (signature : String)
  | removed (deprecated : Bool) (value : String)
  | kind (old new : ClassKind)
  /-- The access is narrower than before. -/
  | access (old new : Access)
  | becameFinal
  | becameOpen
  | static (old new : Bool)
  | becameAbstract
  | becameSealed
  | deprecation (old new : Bool)
  /-- A superclass is lost. -/
  | superclass (old new : Option String) (lost : String)
  | addedInterface (name : String)
  | removedInterface (name : String)
  | type (old new : String)
  /-- A change of nullability, classified. -/
  | nullability (issue : Issue) (place : Nullness.Place) (old new : Nullability)
  | parameterName (old : String) (new : Option String)
  | varargsRemoved
  | defaultValue (old : String) (new : Option String)
  | addedThrows (name : String)
  | removedThrows (name : String)
  | transience (old new : Bool)
  | volatility (old new : Bool)
  | value (old new : Option String)
  /-- A supertype is not declared anywhere. -/
  | unresolved (reference : Unresolved)
  deriving DecidableEq, Repr

namespace Change

def issue (item : Item) : Change → Issue
  | .added _ =>
    match item with
    | .package => .addedPackage
    | .classDecl _ => .addedClass
    | .field => .addedField
    | _ => .addedMethod
  | .addedAbstract _ => .addedAbstractMethod
  | .removed deprecated _ =>
    match item with
    | .package => .removedPackage
    | .classDecl _ => if deprecated then .removedDeprecatedClass else .removedClass
    | .field => .removedField
    | _ => if deprecated then .removedDeprecatedMethod else .removedMethod
  | .kind .. => .changedClass
  | .access .. => .changedScope
  | .becameFinal => .addedFinal
  | .becameOpen => .removedFinal
  | .static .. => .changedStatic
  | .becameAbstract => .changedAbstract
  | .becameSealed => .addedSealed
  | .deprecation .. => .changedDeprecated
  | .superclass .. => .changedSuperclass
  | .addedInterface _ => .addedInterface
  | .removedInterface _ => .removedInterface
  | .type .. => .changedType
  | .nullability issue .. => issue
  | .parameterName .. => .parameterNameChanged
  | .varargsRemoved => .varargRemoval
  | .defaultValue .. => .changedDefaultValue
  | .addedThrows _ => .changedThrows
  | .removedThrows _ => .changedThrows
  | .transience .. => .changedTransient
  | .volatility .. => .changedVolatile
  | .value .. => .changedValue
  | .unresolved _ => .unresolvedReference

def oldValue : Change → Option String
  | .removed _ name => some name
  | .kind old _ => some old.label
  | .access old _ => some old.label
  | .static old _ => some (toString old)
  | .becameAbstract => some "false"
  | .deprecation old _ => some (toString old)
  | .superclass old _ _ => old
  | .removedInterface name => some name
  | .type old _ => some old
  | .nullability _ _ old _ => some old.label
  | .parameterName old _ => some old
  | .varargsRemoved => some "..."
  | .defaultValue old _ => some old
  | .removedThrows name => some name
  | .transience old _ => some (toString old)
  | .volatility old _ => some (toString old)
  | .value old _ => old
  | _ => none

def newValue : Change → Option String
  | .added name => some name
  | .addedAbstract signature => some signature
  | .kind _ new => some new.label
  | .access _ new => some new.label
  | .static _ new => some (toString new)
  | .becameAbstract => some "true"
  | .deprecation _ new => some (toString new)
  | .superclass _ new _ => new
  | .addedInterface name => some name
  | .type _ new => some new
  | .nullability _ _ _ new => some new.label
  | .parameterName _ new => new
  | .varargsRemoved => some "[]"
  | .defaultValue _ new => new
  | .addedThrows name => some name
  | .transience _ new => some (toString new)
  | .volatility _ new => some (toString new)
  | .value _ new => new
  | .unresolved reference => some reference.reference
  | _ => none

end Change

/-- A change of an item at a place. -/
structure Finding where
  location : Location
  item : Item
  change : Change
  deriving DecidableEq, Repr

namespace Finding

def issue (f : Finding) : Issue :=
  f.change.issue f.item

def message (f : Finding) : String :=
  let place := f.location.label
  let subject := f.item.subject f.location
  let holder := f.item.holder f.location
  -- Messages about classes leave out the auxiliary.
  let has := match f.item with
    | .classDecl _ => ""
    | _ => "has "
  match f.change with
  | .added _ => s!"Added {f.item.noun} {place}"
  | .addedAbstract _ => s!"Added abstract method {place}; existing implementations will break"
  | .removed deprecated _ =>
    "Removed " ++ (if deprecated then "deprecated " else "") ++ s!"{f.item.noun} {place}"
  | .kind old new => s!"{subject} changed from {old.label} to {new.label}"
  | .access old new => s!"{subject} changed visibility from {old.label} to {new.label}"
  | .becameFinal => s!"{subject} {has}added 'final' qualifier"
  | .becameOpen => s!"{subject} {has}removed 'final' qualifier"
  | .static old new => s!"{subject} changed 'static' qualifier from {old} to {new}"
  | .becameAbstract => s!"{subject} {has}changed 'abstract' qualifier"
  | .becameSealed => s!"{subject} {has}added 'sealed' qualifier"
  | .deprecation old new => s!"{subject} has changed deprecation state {old} --> {new}"
  | .superclass old new lost =>
    s!"{subject} superclass changed from " ++ old.getD "" ++ " to " ++ new.getD "" ++
      s!"; {lost} is no longer a superclass"
  | .addedInterface name => s!"Added interface {name} to class {place}"
  | .removedInterface name => s!"{subject} no longer implements {name}"
  | .type old new =>
    match f.item with
    | .parameter .. => s!"{subject} changed type from {old} to {new}"
    | .field => s!"{subject} has changed type from {old} to {new}"
    | _ => s!"{subject} has changed return type from {old} to {new}"
  | .nullability _ standing old new =>
    s!"{standing.label} of {subject} changed nullability from {old.label} to {new.label}"
  | .parameterName old new =>
    s!"Attempted to change parameter name from {old} to " ++ new.getD "<none>" ++ s!" in {holder}"
  | .varargsRemoved => s!"{subject} changed from varargs to array"
  | .defaultValue old new =>
    match f.item, new with
    | .parameter .., none => s!"Attempted to remove default value from {subject}"
    | .parameter .., some new => s!"{subject} changed default value from {old} to {new}"
    | _, new => s!"{subject} has changed default value from {old} to " ++ new.getD "nothing"
  | .addedThrows name => s!"{subject} added thrown exception {name}"
  | .removedThrows name => s!"{subject} no longer throws exception {name}"
  | .transience old new => s!"{subject} has changed 'transient' modifier from {old} to {new}"
  | .volatility old new => s!"{subject} has changed 'volatile' modifier from {old} to {new}"
  | .value old new =>
    s!"{subject} has changed value from " ++ old.getD "nothing" ++ " to " ++ new.getD "nothing"
  | .unresolved reference =>
    s!"Could not resolve supertype {reference.reference} of {reference.owner}"

end Finding

end ApiSurface
