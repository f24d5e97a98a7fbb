import ApiSurface.TypeRef

/-!
# Erasure

The erasure of a type forgets its arguments and replaces a type variable by the erasure of its
first bound, a wildcard by the erasure of its upper bound, and either by the root class where there
is no such bound.  Bounds are followed for a limited number of steps, so variables that bound each
other in a circle erase to the root class as well.
-/

namespace ApiSurface
namespace TypeRef

/-- The number of bounds that an erasure follows. -/
def erasureSteps : Nat :=
  8

/-- The erased name of a type without its dimensions, following at most `steps` bounds. -/
def erasedName (scope : List TypeParameter) : (steps : Nat) → TypeRef → String
  | steps, t =>
    if t.isWildcard then
      match t.bound, steps with
      | some (.upper bound), steps + 1 => erasedName scope steps bound
      | _, _ => object
    else
      match scope.find? fun p => p.name == t.name with
      | none => t.name
      | some p =>
        match p.bounds, steps with
        | bound :: _, steps + 1 => erasedName scope steps bound
        | _, _ => object

/-- The erasure of a type whose type variables are declared in a scope. -/
def erased (scope : List TypeParameter) (t : TypeRef) : String :=
  erasedName scope erasureSteps t ++ Text.repeated "[]" t.dimensions

end TypeRef
end ApiSurface
