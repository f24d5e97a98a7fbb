import ApiSurface.Nullability
import ApiSurface.Text.Basic

/-!
# Annotations

An annotation is a name with attributes in order.  Some names are not kept as annotations by the
readers of signature text: those that declare nullability and those that deprecate an item.
-/

namespace ApiSurface

namespace Annotation

/-- Literals an attribute may hold. -/
inductive Literal where
  /-- A string, by its contents. -/
  | string (contents : String)
  /-- A number, as written. -/
  | number (source : String)
  /-- A character literal, by the characters between its quotes. -/
  | character (source : String)
  | boolean (value : Bool)
  /-- A class literal, by the name of the class. -/
  | classLiteral (name : String)
  /-- A constant or an enum value, by its name. -/
  | reference (name : String)
  deriving DecidableEq, Repr

/-- Values of attributes. -/
inductive Value where
  | literal (literal : Literal)
  | array (values : List Value)
  /-- A nested annotation with its attributes. -/
  | nested (name : String) (attributes : List (String × Value))
  deriving Repr

namespace Value

mutual

def decEq : (a b : Value) → Decidable (a = b)
  | .literal k, .literal l => decidable_of_iff (k = l) (by simp)
  | .array vs, .array ws =>
    match decEqList vs ws with
    | isTrue h => isTrue (by rw [h])
    | isFalse h => isFalse (by simpa using h)
  | .nested m as, .nested n bs =>
    match decEqAttributes as bs with
    | isTrue h => decidable_of_iff (m = n) (by simp [h])
    | isFalse h => isFalse (by simp [h])
  | .literal _, .array _ => isFalse (by simp)
  | .literal _, .nested _ _ => isFalse (by simp)
  | .array _, .literal _ => isFalse (by simp)
  | .array _, .nested _ _ => isFalse (by simp)
  | .nested _ _, .literal _ => isFalse (by simp)
  | .nested _ _, .array _ => isFalse (by simp)

def decEqList : (vs ws : List Value) → Decidable (vs = ws)
  | [], [] => isTrue rfl
  | [], _ :: _ => isFalse (by simp)
  | _ :: _, [] => isFalse (by simp)
  | v :: vs, w :: ws =>
    match decEq v w, decEqList vs ws with
    | isTrue h, isTrue k => isTrue (by rw [h, k])
    | isFalse h, _ => isFalse (by simp [h])
    | _, isFalse h => isFalse (by simp [h])

def decEqAttributes : (as bs : List (String × Value)) → Decidable (as = bs)
  | [], [] => isTrue rfl
  | [], _ :: _ => isFalse (by simp)
  | _ :: _, [] => isFalse (by simp)
  | (m, v) :: as, (n, w) :: bs =>
    match decEq v w, decEqAttributes as bs with
    | isTrue h, isTrue k => decidable_of_iff (m = n) (by simp [h, k])
    | isFalse h, _ => isFalse (by simp [h])
    | _, isFalse h => isFalse (by simp [h])

end

instance : DecidableEq Value :=
  decEq

end Value

end Annotation

/-- An annotation: a qualified name with named values in order. -/
structure Annotation where
  name : String
  attributes : List (String × Annotation.Value) := []
  deriving DecidableEq, Repr

namespace Annotation

def nullableNames : List String :=
  ["androidx.annotation.Nullable", "android.annotation.Nullable",
   "org.jetbrains.annotations.Nullable", "javax.annotation.Nullable", "Nullable"]

/-- Names that declare a type nonnull. -/
def nonNullNames : List String :=
  ["androidx.annotation.NonNull", "android.annotation.NonNull",
   "org.jetbrains.annotations.NotNull", "javax.annotation.Nonnull", "NonNull", "NotNull"]

def deprecatedNames : List String :=
  ["java.lang.Deprecated", "Deprecated"]

/-- The name written for a nullable type. -/
def nullableName : String :=
  "androidx.annotation.Nullable"

/-- The name written for a nonnull type. -/
def nonNullName : String :=
  "androidx.annotation.NonNull"

def deprecatedName : String :=
  "java.lang.Deprecated"

/-- The part of the name behind its last dot. -/
def simpleName (a : Annotation) : String :=
  match Text.splitLast '.' a.name.toList with
  | some (_, simple) => String.ofList simple
  | none => a.name

def attribute? (a : Annotation) (name : String) : Option Value :=
  (a.attributes.find? fun x => x.1 == name).map Prod.snd

/-- The nullability an annotation declares, if it declares any. -/
def nullness? (a : Annotation) : Option Nullability :=
  if nullableNames.contains a.name then some .nullable
  else if nonNullNames.contains a.name then some .nonNull
  else none

def isDeprecated (a : Annotation) : Bool :=
  deprecatedNames.contains a.name

def hasAny (annotations : List Annotation) (names : List String) : Bool :=
  annotations.any fun a => names.contains a.name

end Annotation

end ApiSurface
