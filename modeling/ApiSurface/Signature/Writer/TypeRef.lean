import ApiSurface.Signature.Writer.Annotation
import ApiSurface.TypeRef

/-!
# Writing types

Nullability is written as a mark behind the type, or as an annotation in front of it where the
version has no marks but annotations.  Supertypes, thrown types and types of enum constants never
admit null and carry neither at the top.
-/

namespace ApiSurface
namespace Signature

def suffixText : Nullability → String
  | .nullable => "?"
  | .unknown => "!"
  | .nonNull => ""

def nullnessAnnotation : Nullability → List Annotation
  | .nullable => [{ name := Annotation.nullableName }]
  | .nonNull => [{ name := Annotation.nonNullName }]
  | .unknown => []

/-- Array dimensions as written; `...` stands for the last one of a parameter that varies. -/
def dimensionsText (dimensions : Nat) (varargs : Bool) : String :=
  if varargs then Text.repeated "[]" (dimensions - 1) ++ "..." else Text.repeated "[]" dimensions

namespace WriteSettings

/-- The name of a type, without its package if that is left off. -/
def typeName (s : WriteSettings) (name : String) : String :=
  match s.omitted with
  | some common => common.shorten .type name
  | none => name

/-- What stands in front of a type: its annotations, then the one that declares its nullability. -/
def leadText (s : WriteSettings) (marked : Bool) (t : TypeRef) : String :=
  s.annotationsText
    (t.annotations ++
      if marked && !s.kotlinNulls && !t.isPrimitive && !t.isWildcard then
        nullnessAnnotation t.nullability
      else [])

def trailText (s : WriteSettings) (marked : Bool) (t : TypeRef) : String :=
  if marked && s.kotlinNulls && !t.isPrimitive then suffixText t.nullability else ""

mutual

/-- A type as written; `marked` tells whether its nullability is written. -/
def typeTextWith (s : WriteSettings) (varargs marked : Bool) : TypeRef → String
  | ⟨name, arguments, dimensions, bound, nullability, annotations⟩ =>
    let t : TypeRef := ⟨name, arguments, dimensions, bound, nullability, annotations⟩
    if name = "?" then s.leadText marked t ++ "?" ++ boundText s bound
    else
      s.leadText marked t ++ s.typeName name ++
        (match typeTexts s arguments with
          | [] => ""
          | first :: others => "<" ++ Text.join ", " (first :: others) ++ ">") ++
        dimensionsText dimensions varargs ++ s.trailText marked t

def typeTexts (s : WriteSettings) : List TypeRef → List String
  | [] => []
  | t :: ts => typeTextWith s false true t :: typeTexts s ts

def boundText (s : WriteSettings) : Option (WildcardBound TypeRef) → String
  | none => ""
  | some (.upper t) => " extends " ++ typeTextWith s false true t
  | some (.lower t) => " super " ++ typeTextWith s false true t

end

def typeText (s : WriteSettings) (t : TypeRef) : String :=
  s.typeTextWith false true t

/-- A type that never admits null, as written. -/
def nonNullTypeText (s : WriteSettings) (t : TypeRef) : String :=
  s.typeTextWith false false t

/-- A type variable with its bounds as written. -/
def typeParameterText (s : WriteSettings) (p : TypeParameter) : String :=
  match p.bounds with
  | [] => p.name
  | bounds => p.name ++ " extends " ++ Text.join " & " (bounds.map s.typeText)

/-- Type variables in angle brackets, if there are any. -/
def typeParametersText (s : WriteSettings) : List TypeParameter → String
  | [] => ""
  | parameters => "<" ++ Text.join ", " (parameters.map s.typeParameterText) ++ ">"

end WriteSettings

end Signature
end ApiSurface
