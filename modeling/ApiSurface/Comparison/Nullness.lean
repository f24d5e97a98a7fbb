import ApiSurface.Codebase
import ApiSurface.Comparison.Issue

/-!
# Changes of nullability

Which direction of a change is safe depends on where the type stands: what callers pass in may be
widened, what they get may be narrowed, and what they both read and write may not change.
-/

namespace ApiSurface
namespace Nullness

/-- Where a type stands. -/
inductive Place where
  | parameter
  | result
  /-- A field that callers only read. -/
  | finalField
  /-- A field that callers read and write. -/
  | mutableField
  deriving DecidableEq, Repr

namespace Place

/-- The word used in messages. -/
def label : Place → String
  | .parameter => "parameter"
  | .result => "return type"
  | .finalField => "field"
  | .mutableField => "field"

/-- The nullability to which a declared one may change. -/
def safe? : Place → Option Nullability
  | .parameter => some .nullable
  | .result => some .nonNull
  | .finalField => some .nonNull
  | .mutableField => none

end Place

/-- The issue that a change raises, if there is a change. -/
def classify (place : Place) (old new : Nullability) : Option Issue :=
  if old = new then none
  else if old = .unknown then some .newlyAnnotatedNullability
  else if new = .unknown then some .invalidNullConversion
  else if place.safe? = some new then some .compatibleNullChange
  else some .invalidNullConversion

/-- The place of a type, so that it can be found in another codebase; methods are named by their
erased signature. -/
inductive Target where
  | result (owner signature : String)
  | parameter (owner signature : String) (ofConstructor : Bool) (index : Nat)
  | field (owner name : String)
  deriving DecidableEq, Repr

namespace Target

/-- The nullability at the same place of another codebase, if it exists there. -/
def lookup? (target : Target) (cb : Codebase) : Option Nullability := do
  match target with
  | .result owner signature =>
    let m ← (← cb.class? owner).findMethod? signature
    let type ← m.returnType
    return type.nullability
  | .parameter owner signature ofConstructor index =>
    let c ← cb.class? owner
    let m ← if ofConstructor then c.findConstructor? signature else c.findMethod? signature
    let p ← m.parameters[index]?
    return p.type.nullability
  | .field owner name =>
    let f ← (← cb.class? owner).findField? name
    return f.type.nullability

/-- The issue once a reference is taken into account: nullability newly declared is a migration if
the reference has the same place and still leaves it open. -/
def migrate (target : Target) (reference : Option Codebase) (issue : Issue) : Issue :=
  if issue = .newlyAnnotatedNullability ∧ reference.bind target.lookup? = some .unknown then
    .nullabilityUnderMigration
  else issue

end Target

end Nullness
end ApiSurface
