import ApiSurface.Annotation
import ApiSurface.Signature.Options
import ApiSurface.Token.Quoted

/-!
# Writing annotations

A single attribute named `value` is written without its name.
-/

namespace ApiSurface
namespace Signature

open Annotation (Literal Value)

def literalText : Literal → String
  | .string contents => Quoted.encode contents
  | .number source => source
  | .character source => "'" ++ source ++ "'"
  | .boolean value => if value then "true" else "false"
  | .classLiteral name => name ++ ".class"
  | .reference name => name

def argumentsText : List (String × String) → String
  | [] => ""
  | [("value", text)] => "(" ++ text ++ ")"
  | attributes => "(" ++ Text.join ", " (attributes.map fun a => a.1 ++ "=" ++ a.2) ++ ")"

namespace WriteSettings

/-- The name of an annotation, without its package if that is left off. -/
def annotationName (s : WriteSettings) (name : String) : String :=
  match s.omitted with
  | some common => common.shorten .annotationType name
  | none => name

mutual

def valueText (s : WriteSettings) : Value → String
  | .literal literal => literalText literal
  | .array values => Token.openBrace ++ Text.join ", " (valueTexts s values) ++ Token.closeBrace
  | .nested name attributes =>
    "@" ++ s.annotationName name ++ argumentsText (attributeTexts s attributes)

def valueTexts (s : WriteSettings) : List Value → List String
  | [] => []
  | v :: vs => valueText s v :: valueTexts s vs

def attributeTexts (s : WriteSettings) : List (String × Value) → List (String × String)
  | [] => []
  | (name, v) :: rest => (name, valueText s v) :: attributeTexts s rest

end

def annotationText (s : WriteSettings) (a : Annotation) : String :=
  "@" ++ s.annotationName a.name ++ argumentsText (s.attributeTexts a.attributes)

/-- Annotations, each with a blank behind it, if the version has any. -/
def annotationsText (s : WriteSettings) (annotations : List Annotation) : String :=
  if s.capabilities.annotations then
    String.join (annotations.map fun a => s.annotationText a ++ " ")
  else ""

/-- The annotations of an item; a deprecated item has one more, unless the layout has a keyword for
it. -/
def itemAnnotationsText (s : WriteSettings) (annotations : List Annotation) (deprecated : Bool) :
    String :=
  let mark : List Annotation :=
    if deprecated && !s.compatible then [{ name := Annotation.deprecatedName }] else []
  s.annotationsText (mark ++ annotations)

end WriteSettings

end Signature
end ApiSurface
