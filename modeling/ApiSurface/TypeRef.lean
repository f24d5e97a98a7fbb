import ApiSurface.Annotation

/-!
# Type references

A type is written as a name with arguments and array dimensions; the name `?` stands for a
wildcard, which may carry a bound.  Every type carries its nullability, and annotations that belong
to the type itself.  Two types are the same type if they are written alike once nullability and
annotations are left out.
-/

namespace ApiSurface

/-- A bound of a wildcard. -/
inductive WildcardBound (α : Type) where
  /-- The wildcard ranges over subtypes of the bound. -/
  | upper (bound : α)
  /-- The wildcard ranges over supertypes of the bound. -/
  | lower (bound : α)
  deriving DecidableEq, Repr

/-- A reference to a type. -/
structure TypeRef where
  /-- A qualified class name, a primitive, a type variable, or `?`. -/
  name : String
  arguments : List TypeRef := []
  dimensions : Nat := 0
  /-- The bound of a wildcard. -/
  bound : Option (WildcardBound TypeRef) := none
  nullability : Nullability := .unknown
  /-- Annotations of the type itself, other than those on nullability. -/
  annotations : List Annotation := []
  deriving Repr

namespace TypeRef

mutual

def decEq : (a b : TypeRef) → Decidable (a = b)
  | ⟨n, as, d, u, k, xs⟩, ⟨m, bs, e, v, l, ys⟩ =>
    match decEqList as bs, decEqBound u v with
    | isTrue h, isTrue h' =>
      decidable_of_iff (n = m ∧ d = e ∧ k = l ∧ xs = ys) (by simp [h, h'])
    | isFalse h, _ => isFalse (by simp [h])
    | _, isFalse h => isFalse (by simp [h])

/-- Equality of lists of types is decidable. -/
def decEqList : (as bs : List TypeRef) → Decidable (as = bs)
  | [], [] => isTrue rfl
  | [], _ :: _ => isFalse (by simp)
  | _ :: _, [] => isFalse (by simp)
  | a :: as, b :: bs =>
    match decEq a b, decEqList as bs with
    | isTrue h, isTrue h' => isTrue (by rw [h, h'])
    | isFalse h, _ => isFalse (by simp [h])
    | _, isFalse h => isFalse (by simp [h])

def decEqBound : (u v : Option (WildcardBound TypeRef)) → Decidable (u = v)
  | none, none => isTrue rfl
  | none, some _ => isFalse (by simp)
  | some _, none => isFalse (by simp)
  | some (.upper a), some (.upper b) =>
    match decEq a b with
    | isTrue h => isTrue (by rw [h])
    | isFalse h => isFalse (by simp [h])
  | some (.lower a), some (.lower b) =>
    match decEq a b with
    | isTrue h => isTrue (by rw [h])
    | isFalse h => isFalse (by simp [h])
  | some (.upper _), some (.lower _) => isFalse (by simp)
  | some (.lower _), some (.upper _) => isFalse (by simp)

end

instance : DecidableEq TypeRef :=
  decEq

/-- The primitive types, and `void` as the type of no result. -/
def primitives : List String :=
  ["boolean", "byte", "char", "short", "int", "long", "float", "double", "void"]

/-- The root of all classes. -/
def object : String :=
  "java.lang.Object"

/-- The type with a name and nothing else; a primitive is nonnull, all else unknown. -/
def named (name : String) : TypeRef :=
  { name, nullability := if primitives.contains name then .nonNull else .unknown }

def wildcard (bound : Option (WildcardBound TypeRef)) : TypeRef :=
  { name := "?", bound }

/-- Whether the type is a primitive, and not an array of them. -/
def isPrimitive (t : TypeRef) : Bool :=
  t.dimensions == 0 && primitives.contains t.name

def isWildcard (t : TypeRef) : Bool :=
  t.name == "?"

/-- The type with more array dimensions.  An array of primitives is a reference again, so nothing
is known about null. -/
def array (t : TypeRef) (dimensions : Nat) : TypeRef :=
  { t with
    nullability := if 0 < dimensions && t.isPrimitive then .unknown else t.nullability
    dimensions := t.dimensions + dimensions }

/-- The type with its nullability set; primitives and wildcards keep theirs. -/
def withNullability (t : TypeRef) (nullability : Nullability) : TypeRef :=
  if t.isPrimitive || t.isWildcard then t else { t with nullability }

mutual

/-- The type as written, without nullability and annotations. -/
def canonical : TypeRef → String
  | ⟨name, arguments, dimensions, bound, _, _⟩ =>
    if name = "?" then "?" ++ canonicalBound bound
    else
      (match canonicalList arguments with
        | [] => name
        | first :: others => name ++ "<" ++ Text.join ", " (first :: others) ++ ">")
        ++ Text.repeated "[]" dimensions

def canonicalList : List TypeRef → List String
  | [] => []
  | t :: ts => canonical t :: canonicalList ts

/-- A bound as written behind the mark of a wildcard. -/
def canonicalBound : Option (WildcardBound TypeRef) → String
  | none => ""
  | some (.upper t) => " extends " ++ canonical t
  | some (.lower t) => " super " ++ canonical t

end

/-- Whether two types are written alike but for nullability and annotations. -/
def sameType (a b : TypeRef) : Bool :=
  a.canonical == b.canonical

mutual

/-- The names in a type: its own, those in its arguments, those in its bound. -/
def names : TypeRef → List String
  | ⟨name, arguments, _, bound, _, _⟩ => name :: namesList arguments ++ namesBound bound

def namesList : List TypeRef → List String
  | [] => []
  | t :: ts => names t ++ namesList ts

def namesBound : Option (WildcardBound TypeRef) → List String
  | none => []
  | some (.upper t) => names t
  | some (.lower t) => names t

end

mutual

def mapNames (f : String → String) : TypeRef → TypeRef
  | ⟨name, arguments, dimensions, bound, nullability, annotations⟩ =>
    ⟨f name, mapNamesList f arguments, dimensions, mapNamesBound f bound, nullability, annotations⟩

/-- The types of a list with every name in them replaced. -/
def mapNamesList (f : String → String) : List TypeRef → List TypeRef
  | [] => []
  | t :: ts => mapNames f t :: mapNamesList f ts

/-- A bound with every name in it replaced. -/
def mapNamesBound (f : String → String) :
    Option (WildcardBound TypeRef) → Option (WildcardBound TypeRef)
  | none => none
  | some (.upper t) => some (.upper (mapNames f t))
  | some (.lower t) => some (.lower (mapNames f t))

end

theorem canonicalList_eq_map (ts : List TypeRef) : canonicalList ts = ts.map canonical := by
  induction ts with
  | nil => rfl
  | cons t ts ih => simp [canonicalList, ih]

end TypeRef

/-- A declared type variable with its bounds. -/
structure TypeParameter where
  name : String
  bounds : List TypeRef := []
  deriving DecidableEq, Repr

namespace TypeParameter

/-- The variable as declared, without nullability and annotations. -/
def canonical (p : TypeParameter) : String :=
  match p.bounds with
  | [] => p.name
  | bounds => p.name ++ " extends " ++ Text.join " & " (bounds.map TypeRef.canonical)

end TypeParameter

end ApiSurface
