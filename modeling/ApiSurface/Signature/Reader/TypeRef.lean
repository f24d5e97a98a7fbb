import ApiSurface.Signature.Reader.Annotation
import ApiSurface.TypeRef

/-!
# Reading types

Annotations in front of a type that declare nullability are folded into the type; the others belong
to the item whose type it is, or to the type itself where no item owns it.
-/

namespace ApiSurface
namespace Signature

/-- A type as read, with the annotations in front of it. -/
structure ReadType where
  annotations : List Annotation
  type : TypeRef
  /-- The last dimension was written as `...`. -/
  varargs : Bool

namespace ReadType

/-- The type in a place where no item owns the annotations, so that it keeps them. -/
def owned (t : ReadType) : TypeRef :=
  { t.type with annotations := t.annotations }

end ReadType

/-- Array dimensions; one of them may be written as `...`. -/
def readDimensions : (varargs : Bool) → List Token → Nat × Bool × List Token
  | varargs, t :: u :: ts =>
    if t.isMark "[" && u.isMark "]" then
      let (dimensions, varargs, rest) := readDimensions varargs ts
      (dimensions + 1, varargs, rest)
    else if !varargs && t.isMark "..." then
      let (dimensions, varargs, rest) := readDimensions true (u :: ts)
      (dimensions + 1, varargs, rest)
    else (0, varargs, t :: u :: ts)
  | varargs, [t] => if !varargs && t.isMark "..." then (1, true, []) else (0, varargs, [t])
  | varargs, [] => (0, varargs, [])

def readSuffix (ts : List Token) : Option Nullability × List Token :=
  if atMark "?" ts then (some .nullable, ts.tail)
  else if atMark "!" ts then (some .unknown, ts.tail)
  else (none, ts)

namespace Source

/-- The full name of a type that may have been written without its package. -/
def typeName (src : Source) (name : String) : String :=
  match src.settings.common with
  | none => name
  | some common =>
    if name.toList.contains '.' || TypeRef.primitives.contains name || src.scope.contains name then
      name
    else common.qualify .type name

/-- The nullability of a type that carries no mark and no annotation. -/
def plainNullability (src : Source) : Nullability :=
  if src.settings.kotlinNulls then .nonNull else .unknown

def readBound (type : Reader ReadType) : Reader (Option (WildcardBound TypeRef)) := fun ts =>
  if atWord "extends" ts then do
    let (t, ts) ← type ts.tail
    return (some (.upper t.owned), ts)
  else if atWord "super" ts then do
    let (t, ts) ← type ts.tail
    return (some (.lower t.owned), ts)
  else .ok (none, ts)

def readArguments (src : Source) (type : Reader ReadType) : Reader (List TypeRef) := fun ts =>
  if !atMark "<" ts then .ok ([], ts)
  else do
    let (types, ts) ← src.readSeparated type "," ts.length ts.tail
    let ts ← src.expectMark ">" ts
    return (types.map ReadType.owned, ts)

/-- A type that nests at most `depth` deep. -/
def readTypeWithin (src : Source) : (depth : Nat) → Reader ReadType
  | 0, ts => .error (src.fault ts "type")
  | depth + 1, ts => do
    let (annotations, ts) ← src.readAnnotations ts.length ts
    if atMark "?" ts then
      let (bound, ts) ← readBound (src.readTypeWithin depth) ts.tail
      return (⟨withoutNullness annotations, TypeRef.wildcard bound, false⟩, ts)
    let (name, ts) ← src.expectName "type" ts
    let (arguments, ts) ← src.readArguments (src.readTypeWithin depth) ts
    let (dimensions, varargs, ts) := readDimensions false ts
    let (suffix, ts) := readSuffix ts
    let nullability := (suffix.or (nullnessOf annotations)).getD src.plainNullability
    let type := { TypeRef.named (src.typeName name) with arguments }
    return (⟨withoutNullness annotations,
      (type.array dimensions).withNullability nullability, varargs⟩, ts)

/-- A type with the annotations in front of it. -/
def readType (src : Source) : Reader ReadType := fun ts =>
  src.readTypeWithin ts.length ts

/-- A type in a place where no item owns its annotations. -/
def readOwnedType (src : Source) : Reader TypeRef := fun ts => do
  let (t, ts) ← src.readType ts
  return (t.owned, ts)

/-- A type that never admits null: a supertype or a thrown type. -/
def readNonNullType (src : Source) : Reader TypeRef := fun ts => do
  let (t, ts) ← src.readOwnedType ts
  return (t.withNullability .nonNull, ts)

/-- Supertypes, with commas or only blanks between them. -/
def readSupertypes (src : Source) : (rounds : Nat) → Reader (List TypeRef)
  | 0, ts => .error (src.fault ts "type")
  | rounds + 1, ts => do
    let (t, ts) ← src.readNonNullType ts
    if atMark "," ts then
      let (types, ts) ← src.readSupertypes rounds ts.tail
      return (t :: types, ts)
    else if atName ts && !atWord "implements" ts then
      let (types, ts) ← src.readSupertypes rounds ts
      return (t :: types, ts)
    else return ([t], ts)

end Source

end Signature
end ApiSurface
