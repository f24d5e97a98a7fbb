import ApiSurface.Declaration.ClassDecl
import ApiSurface.Signature.Reader.TypeParameter

/-!
# Reading declarations

Members start with a word for what they are, then annotations and modifiers in any order.
-/

namespace ApiSurface

/-- The modifiers after one more keyword, if the word is one.  Keywords about the implementation
are read over, since they say nothing about the surface. -/
def Modifiers.withKeyword? (m : Modifiers) (word : String) : Option Modifiers :=
  match word with
  | "public" => some { m with access := .pub }
  | "protected" => some { m with access := .prot }
  | "private" => some { m with access := .priv }
  | "deprecated" => some { m with isDeprecated := true }
  | "default" => some { m with isDefault := true }
  | "static" => some { m with isStatic := true }
  | "final" => some { m with isFinal := true }
  | "abstract" => some { m with isAbstract := true }
  | "sealed" => some { m with isSealed := true }
  | "transient" => some { m with isTransient := true }
  | "volatile" => some { m with isVolatile := true }
  | "synchronized" => some m
  | "native" => some m
  | "strictfp" => some m
  | _ => none

namespace Signature

/-- Annotations and modifiers in front of a declaration. -/
structure Preamble where
  annotations : List Annotation := []
  modifiers : Modifiers := {}

namespace Preamble

/-- The preamble with one more annotation; one that deprecates sets the modifier instead. -/
def annotate (p : Preamble) (a : Annotation) : Preamble :=
  if a.isDeprecated then { p with modifiers := { p.modifiers with isDeprecated := true } }
  else { p with annotations := p.annotations ++ [a] }

end Preamble

namespace Source

/-- Annotations and modifiers behind those of a preamble. -/
def extendPreamble (src : Source) : (rounds : Nat) → Preamble → Reader Preamble
  | 0, p, ts => .ok (p, ts)
  | _ + 1, p, [] => .ok (p, [])
  | rounds + 1, p, t :: ts =>
    if t.isMark "@" && !atWord "interface" ts then do
      let (a, ts) ← src.readAnnotation (t :: ts)
      src.extendPreamble rounds (p.annotate a) ts
    else if t.kind = .identifier then
      match p.modifiers.withKeyword? t.text with
      | some modifiers => src.extendPreamble rounds { p with modifiers } ts
      | none => .ok (p, t :: ts)
    else .ok (p, t :: ts)

/-- Annotations and modifiers in any order. -/
def readPreamble (src : Source) : Reader Preamble := fun ts =>
  src.extendPreamble ts.length {} ts

/-- The type of a member, with all annotations of the member.  Nullability declared in the preamble
counts where the type itself says nothing. -/
def readMemberType (src : Source) (p : Preamble) : Reader (TypeRef × List Annotation) :=
  fun ts => do
    let (t, ts) ← src.readType ts
    let type :=
      match nullnessOf p.annotations with
      | some nullability =>
        if t.type.nullability.isKnown then t.type else t.type.withNullability nullability
      | none => t.type
    return ((type, withoutNullness p.annotations ++ t.annotations), ts)

/-- A value behind a mark that introduces it, if the mark is there. -/
def readMarkedValue (src : Source) (present : Bool) (stops : List String) :
    Reader (Option String) := fun ts =>
  if !present then .ok (none, ts)
  else do
    let (value, ts) ← src.readValueText stops ts.tail
    return (some value, ts)

/-- A parameter: its type, a name if there is one, and a default if there is one. -/
def readParameter (src : Source) : Reader Parameter := fun ts => do
  let (t, ts) ← src.readType ts
  let (name, ts) :=
    if atName ts then (ts.head?.map Token.text, ts.tail) else (none, ts)
  let (defaultValue, ts) ← src.readMarkedValue (atMark "=" ts) [",", ")"] ts
  return (
    { type := t.type, name, defaultValue, varargs := t.varargs, annotations := t.annotations }, ts)

def readParameters (src : Source) : Reader (List Parameter) := fun ts => do
  let ts ← src.expectMark "(" ts
  if atMark ")" ts then return ([], ts.tail)
  src.readList src.readParameter ")" (ts.length + 1) ts

def readThrows (src : Source) : Reader (List TypeRef) := fun ts =>
  if atWord "throws" ts then src.readSeparated src.readNonNullType "," ts.length ts.tail
  else .ok ([], ts)

def readConstructor (src : Source) (c : ClassDecl) : Reader Method := fun ts => do
  let (p, ts) ← src.readPreamble ts
  let src := src.within (variablesAhead ts)
  let (typeParameters, ts) ← src.readTypeParameters ts
  let (_, ts) ← src.expectName "constructor name" ts
  let (parameters, ts) ← src.readParameters ts
  let (throws, ts) ← src.readThrows ts
  let ts ← src.expectMark ";" ts
  return (
    { name := c.name, owner := c.qualifiedName, modifiers := p.modifiers, returnType := none
      typeParameters, parameters, throws, annotations := withoutNullness p.annotations }, ts)

def readMethod (src : Source) (c : ClassDecl) : Reader Method := fun ts => do
  let (p, ts) ← src.readPreamble ts
  let src := src.within (variablesAhead ts)
  let (typeParameters, ts) ← src.readTypeParameters ts
  let ((returnType, annotations), ts) ← src.readMemberType p ts
  let (name, ts) ← src.expectName "method name" ts
  let (parameters, ts) ← src.readParameters ts
  let (throws, ts) ← src.readThrows ts
  let (defaultValue, ts) ← src.readMarkedValue (atWord "default" ts) [";"] ts
  let ts ← src.expectMark ";" ts
  return (
    { name, owner := c.qualifiedName, modifiers := p.modifiers, returnType := some returnType
      typeParameters, parameters, throws, annotations, defaultValue }, ts)

/-- A field of a class; an enum constant never holds null. -/
def readField (src : Source) (c : ClassDecl) (isEnumConstant : Bool) : Reader Field :=
  fun ts => do
    let (p, ts) ← src.readPreamble ts
    let ((type, annotations), ts) ← src.readMemberType p ts
    let (name, ts) ← src.expectName "field name" ts
    let (value, ts) ← src.readMarkedValue (atMark "=" ts) [";"] ts
    let ts ← src.expectMark ";" ts
    return (
      { name, owner := c.qualifiedName, modifiers := p.modifiers
        type := if isEnumConstant then type.withNullability .nonNull else type
        annotations, value, isEnumConstant }, ts)

def readMember (src : Source) (c : ClassDecl) : Reader ClassDecl := fun ts =>
  if atWord "ctor" ts then do
    let (m, ts) ← src.readConstructor c ts.tail
    return (← c.addConstructor m, ts)
  else if atWord "method" ts then do
    let (m, ts) ← src.readMethod c ts.tail
    return (← c.addMethod m, ts)
  else if atWord "field" ts then do
    let (f, ts) ← src.readField c false ts.tail
    return (← c.addField f, ts)
  else if atWord "enum_constant" ts then do
    let (f, ts) ← src.readField c true ts.tail
    return (← c.addField f, ts)
  else .error (src.fault ts "ctor, method, field, or enum_constant")

def readMembers (src : Source) : (rounds : Nat) → ClassDecl → Reader ClassDecl
  | 0, _, ts => .error (src.fault ts "ctor, method, field, or enum_constant")
  | rounds + 1, c, ts =>
    if atMark Token.closeBrace ts then .ok (c, ts.tail)
    else do
      let (c, ts) ← src.readMember c ts
      src.readMembers rounds c ts

end Source

end Signature
end ApiSurface
