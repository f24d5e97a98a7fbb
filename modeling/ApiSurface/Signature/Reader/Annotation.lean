import ApiSurface.Annotation
import ApiSurface.Signature.Reader.Basic

/-!
# Reading annotations

An annotation may have arguments in parentheses: a single value, which is the attribute `value`, or
named attributes.  Values nest; each nesting takes a token, so the tokens that are left bound the
depth.
-/

namespace ApiSurface
namespace Signature

open Annotation (Literal Value)

def literalOfName (name : String) : Literal :=
  if name = "true" then .boolean true
  else if name = "false" then .boolean false
  else
    match Text.splitLast '.' name.toList with
    | some (before, ['c', 'l', 'a', 's', 's']) => .classLiteral (String.ofList before)
    | _ => .reference name

/-- The nullability that annotations declare; the last one decides. -/
def nullnessOf (annotations : List Annotation) : Option Nullability :=
  (annotations.filterMap Annotation.nullness?).getLast?

/-- The annotations that say nothing about null. -/
def withoutNullness (annotations : List Annotation) : List Annotation :=
  annotations.filter fun a => a.nullness?.isNone

namespace Source

/-- The full name of an annotation that may have been written without its package. -/
def annotationName (src : Source) (name : String) : String :=
  match src.settings.common with
  | none => name
  | some common => if name.toList.contains '.' then name else common.qualify .annotationType name

def readAttribute (src : Source) (value : Reader Value) : Reader (String × Value) := fun ts => do
  let (name, ts) ← src.expectName "attribute name" ts
  let ts ← src.expectMark "=" ts
  let (v, ts) ← value ts
  return ((name, v), ts)

def readAttributes (src : Source) (value : Reader Value) : Reader (List (String × Value)) :=
  fun ts =>
    if !atMark "(" ts then .ok ([], ts)
    else if atMark ")" ts.tail then .ok ([], ts.tail.tail)
    else if atName ts.tail && atMark "=" ts.tail.tail then
      src.readList (src.readAttribute value) ")" ts.length ts.tail
    else do
      let (v, ts) ← value ts.tail
      let ts ← src.expectMark ")" ts
      return ([("value", v)], ts)

def readAnnotationWith (src : Source) (value : Reader Value) : Reader Annotation := fun ts => do
  let ts ← src.expectMark "@" ts
  let (name, ts) ← src.expectName "annotation name" ts
  let (attributes, ts) ← src.readAttributes value ts
  return ({ name := src.annotationName name, attributes }, ts)

/-- A value that nests at most `depth` deep. -/
def readValue (src : Source) : (depth : Nat) → Reader Value
  | 0, ts => .error (src.fault ts "annotation value")
  | _ + 1, [] => .error (src.fault [] "annotation value")
  | depth + 1, t :: ts =>
    match t.kind with
    | .string => .ok (.literal (.string t.text), ts)
    | .character => .ok (.literal (.character t.text), ts)
    | .number => .ok (.literal (.number t.text), ts)
    | .identifier => .ok (.literal (literalOfName t.text), ts)
    | .endOfFile => .error (src.fault (t :: ts) "annotation value")
    | .punctuation =>
      if t.text = Token.openBrace then
        if atMark Token.closeBrace ts then .ok (.array [], ts.tail)
        else do
          let (values, ts) ← src.readList (src.readValue depth) Token.closeBrace (ts.length + 1) ts
          return (.array values, ts)
      else if t.text = "@" then do
        let (a, ts) ← src.readAnnotationWith (src.readValue depth) (t :: ts)
        return (.nested a.name a.attributes, ts)
      else .error (src.fault (t :: ts) "annotation value")

def readAnnotation (src : Source) : Reader Annotation := fun ts =>
  src.readAnnotationWith (src.readValue ts.length) ts

def readAnnotations (src : Source) : (rounds : Nat) → Reader (List Annotation)
  | 0, ts => .ok ([], ts)
  | rounds + 1, ts =>
    if !atMark "@" ts then .ok ([], ts)
    else do
      let (a, ts) ← src.readAnnotation ts
      let (as, ts) ← src.readAnnotations rounds ts
      return (a :: as, ts)

end Source

end Signature
end ApiSurface
