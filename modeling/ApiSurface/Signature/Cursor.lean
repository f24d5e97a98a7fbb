import ApiSurface.Signature.Reader.Codebase

/-!
# Reading with a cursor

Signature text read by position: a cursor stands at the place of a token, looks at tokens by their
places and cuts values out of the text by byte offsets.  A place or an offset that is not there
stops the cursor out of bounds, and so does a step past the mark of the end.  Loops go on until
they see what ends them.  How many tokens are left does not bound them; one that reaches a limit
given from outside is stopped unfinished.
-/

namespace ApiSurface
namespace Signature

open Annotation (Literal Value)

/-- A text and its tokens, the mark of the end being the last. -/
structure Tape where
  text : String
  tokens : List Token
  /-- How many rounds a loop may make and how deep values and types may nest. -/
  limit : Nat

namespace Tape

def last (tape : Tape) : Nat :=
  tape.tokens.length - 1

/-- The text between two byte offsets that stand in order, inside the text and between two
characters. -/
def slice? (tape : Tape) (start stop : Nat) : Option String :=
  if h : start ≤ stop ∧ stop ≤ tape.text.utf8ByteSize ∧
      String.Pos.Raw.IsValid tape.text ⟨start⟩ ∧ String.Pos.Raw.IsValid tape.text ⟨stop⟩ then
    some (tape.text.extract (tape.text.pos ⟨start⟩ h.2.2.1) (tape.text.pos ⟨stop⟩ h.2.2.2))
  else none

end Tape

/-- Why a cursor stops before it is done. -/
inductive Halt where
  | fault (f : Fault)
  /-- A place was asked for that is not there. -/
  | outOfBounds
  /-- The limit has been reached. -/
  | unfinished

/-- A computation that moves the place of a cursor. -/
abbrev Cursor (α : Type) : Type :=
  StateT Nat (Except Halt) α

namespace Cursor

variable {α : Type}

/-- Stop with the fault of something that is not about places. -/
def ofExcept : Except Fault α → Cursor α
  | .ok x => pure x
  | .error f => throw (.fault f)

section Steps

variable (tape : Tape)

def tokenAt (place : Nat) : Cursor Token :=
  match tape.tokens[place]? with
  | some t => pure t
  | none => throw .outOfBounds

/-- The token that stands so many places ahead, or the last one. -/
def peekAt (offset : Nat) : Cursor Token := do
  let place ← get
  tokenAt tape (min (place + offset) tape.last)

/-- Step over so many tokens, not past the last one. -/
def move (steps : Nat) : Cursor Unit := do
  let place ← get
  if place + steps ≤ tape.last then set (place + steps) else throw .outOfBounds

/-- All tokens from the cursor on. -/
def ahead : Cursor (List Token) := do
  let place ← get
  if place ≤ tape.tokens.length then return tape.tokens.drop place else throw .outOfBounds

/-- The text from the first character of a token to the last one of the token before the cursor. -/
def textFrom (first : Nat) : Cursor String := do
  let place ← get
  if place = 0 then throw .outOfBounds
  else
    let t ← tokenAt tape first
    let u ← tokenAt tape (place - 1)
    match tape.slice? t.start.offset u.stop with
    | some text => return text
    | none => throw .outOfBounds

def eat (fits : Token → Bool) : Cursor Bool := do
  let t ← peekAt tape 0
  if fits t then
    move tape 1
    return true
  else return false

def eatMark (mark : String) : Cursor Bool :=
  eat tape fun t => t.isMark mark

def eatWord (word : String) : Cursor Bool :=
  eat tape fun t => t.isWord word

variable (src : Source)

/-- Stop at the next token, where something else is expected. -/
def fail (expected : String) : Cursor α := do
  let t ← peekAt tape 0
  throw (.fault
    (.malformed src.settings.file t.start.line t.start.column expected t.describe))

def expectMark (mark : String) : Cursor Unit := do
  if ← eatMark tape mark then return () else fail tape src s!"'{mark}'"

def expectName (what : String) : Cursor String := do
  let t ← peekAt tape 0
  if t.kind = .identifier then
    move tape 1
    return t.text
  else fail tape src what

/-! ## Loops over lists and values -/

/-- Items with commas between them, up to a closing mark. -/
def list (item : Cursor α) (close : String) : (rounds : Nat) → Cursor (List α)
  | 0 => throw .unfinished
  | rounds + 1 => do
    let x ← item
    if ← eatMark tape close then return [x]
    else
      expectMark tape src ","
      let xs ← list item close rounds
      return x :: xs

def separated (item : Cursor α) (mark : String) : (rounds : Nat) → Cursor (List α)
  | 0 => throw .unfinished
  | rounds + 1 => do
    let x ← item
    if ← eatMark tape mark then
      let xs ← separated item mark rounds
      return x :: xs
    else return [x]

/-- Step over the tokens of a value, up to a stop outside brackets. -/
def skipValue (stops : List String) : (rounds depth : Nat) → Cursor Unit
  | 0, _ => throw .unfinished
  | rounds + 1, depth => do
    let t ← peekAt tape 0
    if t.kind = .endOfFile then fail tape src "value"
    else if t.kind ≠ .punctuation then
      move tape 1
      skipValue stops rounds depth
    else if depth = 0 ∧ t.text ∈ stops then return ()
    else if t.text ∈ ["(", Token.openBrace, "["] then
      move tape 1
      skipValue stops rounds (depth + 1)
    else if t.text ∈ [")", Token.closeBrace, "]"] then
      if depth = 0 then fail tape src "value"
      else
        move tape 1
        skipValue stops rounds (depth - 1)
    else
      move tape 1
      skipValue stops rounds depth

def valueText (stops : List String) : Cursor String := do
  let first ← get
  skipValue tape src stops tape.limit 0
  let place ← get
  if place = first then fail tape src "value" else textFrom tape first

/-! ## Annotations -/

def namedValue (value : Cursor Value) : Cursor (String × Value) := do
  let name ← expectName tape src "attribute name"
  expectMark tape src "="
  let v ← value
  return (name, v)

def annotationArguments (value : Cursor Value) : Cursor (List (String × Value)) := do
  if ← eatMark tape "(" then
    if ← eatMark tape ")" then return []
    else
      let t ← peekAt tape 0
      let u ← peekAt tape 1
      if t.kind == .identifier && u.isMark "=" then
        list tape src (namedValue tape src value) ")" tape.limit
      else
        let v ← value
        expectMark tape src ")"
        return [("value", v)]
  else return []

def annotationWith (value : Cursor Value) : Cursor Annotation := do
  expectMark tape src "@"
  let name ← expectName tape src "annotation name"
  let attributes ← annotationArguments tape src value
  return { name := src.annotationName name, attributes }

def value : (depth : Nat) → Cursor Value
  | 0 => throw .unfinished
  | depth + 1 => do
    let t ← peekAt tape 0
    match t.kind with
    | .string =>
      move tape 1
      return .literal (.string t.text)
    | .character =>
      move tape 1
      return .literal (.character t.text)
    | .number =>
      move tape 1
      return .literal (.number t.text)
    | .identifier =>
      move tape 1
      return .literal (literalOfName t.text)
    | .endOfFile => fail tape src "annotation value"
    | .punctuation =>
      if t.text = Token.openBrace then
        move tape 1
        if ← eatMark tape Token.closeBrace then return .array []
        else
          let vs ← list tape src (value depth) Token.closeBrace tape.limit
          return .array vs
      else if t.text = "@" then
        let a ← annotationWith tape src (value depth)
        return .nested a.name a.attributes
      else fail tape src "annotation value"

def annotationAt : Cursor Annotation :=
  annotationWith tape src (value tape src tape.limit)

def annotations : (rounds : Nat) → Cursor (List Annotation)
  | 0 => throw .unfinished
  | rounds + 1 => do
    let t ← peekAt tape 0
    if t.isMark "@" then
      let a ← annotationAt tape src
      let as ← annotations rounds
      return a :: as
    else return []

def extendPreamble : (rounds : Nat) → Preamble → Cursor Preamble
  | 0, _ => throw .unfinished
  | rounds + 1, p => do
    let t ← peekAt tape 0
    let u ← peekAt tape 1
    if t.isMark "@" && !u.isWord "interface" then
      let a ← annotationAt tape src
      extendPreamble rounds (p.annotate a)
    else if t.kind = .identifier then
      match p.modifiers.withKeyword? t.text with
      | some modifiers =>
        move tape 1
        extendPreamble rounds { p with modifiers }
      | none => return p
    else return p

def preamble : Cursor Preamble :=
  extendPreamble tape src tape.limit {}

/-! ## Types -/

def dimensions : (rounds : Nat) → (varargs : Bool) → Cursor (Nat × Bool)
  | 0, _ => throw .unfinished
  | rounds + 1, varargs => do
    let t ← peekAt tape 0
    let u ← peekAt tape 1
    if t.isMark "[" && u.isMark "]" then
      move tape 2
      let d ← dimensions rounds varargs
      return (d.1 + 1, d.2)
    else if !varargs && t.isMark "..." then
      move tape 1
      let d ← dimensions rounds true
      return (d.1 + 1, d.2)
    else return (0, varargs)

def suffix : Cursor (Option Nullability) := do
  if ← eatMark tape "?" then return some .nullable
  else if ← eatMark tape "!" then return some .unknown
  else return none

def wildcardBound (type : Cursor ReadType) : Cursor (Option (WildcardBound TypeRef)) := do
  if ← eatWord tape "extends" then
    let t ← type
    return some (.upper t.owned)
  else if ← eatWord tape "super" then
    let t ← type
    return some (.lower t.owned)
  else return none

def typeArguments (type : Cursor ReadType) : Cursor (List TypeRef) := do
  if ← eatMark tape "<" then
    let ts ← separated tape type "," tape.limit
    expectMark tape src ">"
    return ts.map ReadType.owned
  else return []

def typeWithin : (depth : Nat) → Cursor ReadType
  | 0 => throw .unfinished
  | depth + 1 => do
    let annotations ← annotations tape src tape.limit
    if ← eatMark tape "?" then
      let bound ← wildcardBound tape (typeWithin depth)
      return ⟨withoutNullness annotations, TypeRef.wildcard bound, false⟩
    else
      let name ← expectName tape src "type"
      let arguments ← typeArguments tape src (typeWithin depth)
      let d ← dimensions tape tape.limit false
      let suffix ← suffix tape
      let nullability := (suffix.or (nullnessOf annotations)).getD src.plainNullability
      let type := { TypeRef.named (src.typeName name) with arguments }
      return ⟨withoutNullness annotations, (type.array d.1).withNullability nullability, d.2⟩

def type : Cursor ReadType :=
  typeWithin tape src tape.limit

def ownedType : Cursor TypeRef := do
  let t ← type tape src
  return t.owned

def nonNullType : Cursor TypeRef := do
  let t ← ownedType tape src
  return t.withNullability .nonNull

/-- Supertypes, with commas or only blanks between them. -/
def supertypes : (rounds : Nat) → Cursor (List TypeRef)
  | 0 => throw .unfinished
  | rounds + 1 => do
    let t ← nonNullType tape src
    if ← eatMark tape "," then
      let ts ← supertypes rounds
      return t :: ts
    else
      let u ← peekAt tape 0
      if u.kind == .identifier && !u.isWord "implements" then
        let ts ← supertypes rounds
        return t :: ts
      else return [t]

def supertypesAfter (word : String) : Cursor (List TypeRef) := do
  if ← eatWord tape word then supertypes tape src tape.limit else return []

/-! ## Type variables -/

def variablesAhead : Cursor (List String) := do
  let t ← peekAt tape 0
  if t.isMark "<" then
    let ts ← ahead tape
    return declaredVariables 0 false ts
  else return []

def bounds : Cursor (List TypeRef) := do
  if ← eatWord tape "extends" then separated tape (ownedType tape src) "&" tape.limit else return []

def typeParameter : Cursor TypeParameter := do
  let name ← expectName tape src "type parameter"
  let bounds ← bounds tape src
  return { name, bounds }

def typeParameters : Cursor (List TypeParameter) := do
  if ← eatMark tape "<" then
    let ps ← separated tape (typeParameter tape src) "," tape.limit
    expectMark tape src ">"
    return ps
  else return []

/-! ## Members -/

def memberType (p : Preamble) : Cursor (TypeRef × List Annotation) := do
  let t ← type tape src
  let type :=
    match nullnessOf p.annotations with
    | some nullability =>
      if t.type.nullability.isKnown then t.type else t.type.withNullability nullability
    | none => t.type
  return (type, withoutNullness p.annotations ++ t.annotations)

def parameterName : Cursor (Option String) := do
  let t ← peekAt tape 0
  if t.kind == .identifier then
    move tape 1
    return some t.text
  else return none

def valueAfter (eat : Cursor Bool) (stops : List String) : Cursor (Option String) := do
  if ← eat then
    let text ← valueText tape src stops
    return some text
  else return none

def parameter : Cursor Parameter := do
  let t ← type tape src
  let name ← parameterName tape
  let defaultValue ← valueAfter tape src (eatMark tape "=") [",", ")"]
  return { type := t.type, name, defaultValue, varargs := t.varargs, annotations := t.annotations }

def parameters : Cursor (List Parameter) := do
  expectMark tape src "("
  if ← eatMark tape ")" then return []
  else list tape src (parameter tape src) ")" tape.limit

def throws : Cursor (List TypeRef) := do
  if ← eatWord tape "throws" then separated tape (nonNullType tape src) "," tape.limit
  else return []

def constructor (c : ClassDecl) : Cursor Method := do
  let p ← preamble tape src
  let declared ← variablesAhead tape
  let src := src.within declared
  let typeParameters ← typeParameters tape src
  let _ ← expectName tape src "constructor name"
  let parameters ← parameters tape src
  let throws ← throws tape src
  expectMark tape src ";"
  return { name := c.name, owner := c.qualifiedName, modifiers := p.modifiers, returnType := none
           typeParameters, parameters, throws, annotations := withoutNullness p.annotations }

def method (c : ClassDecl) : Cursor Method := do
  let p ← preamble tape src
  let declared ← variablesAhead tape
  let src := src.within declared
  let typeParameters ← typeParameters tape src
  let result ← memberType tape src p
  let name ← expectName tape src "method name"
  let parameters ← parameters tape src
  let throws ← throws tape src
  let defaultValue ← valueAfter tape src (eatWord tape "default") [";"]
  expectMark tape src ";"
  return { name, owner := c.qualifiedName, modifiers := p.modifiers, returnType := some result.1
           typeParameters, parameters, throws, annotations := result.2, defaultValue }

def field (c : ClassDecl) (isEnumConstant : Bool) : Cursor Field := do
  let p ← preamble tape src
  let t ← memberType tape src p
  let name ← expectName tape src "field name"
  let value ← valueAfter tape src (eatMark tape "=") [";"]
  expectMark tape src ";"
  return { name, owner := c.qualifiedName, modifiers := p.modifiers
           type := if isEnumConstant then t.1.withNullability .nonNull else t.1
           annotations := t.2, value, isEnumConstant }

def member (c : ClassDecl) : Cursor ClassDecl := do
  if ← eatWord tape "ctor" then
    let m ← constructor tape src c
    ofExcept (c.addConstructor m)
  else if ← eatWord tape "method" then
    let m ← method tape src c
    ofExcept (c.addMethod m)
  else if ← eatWord tape "field" then
    let f ← field tape src c false
    ofExcept (c.addField f)
  else if ← eatWord tape "enum_constant" then
    let f ← field tape src c true
    ofExcept (c.addField f)
  else fail tape src "ctor, method, field, or enum_constant"

def members : (rounds : Nat) → ClassDecl → Cursor ClassDecl
  | 0, _ => throw .unfinished
  | rounds + 1, c => do
    if ← eatMark tape Token.closeBrace then return c
    else
      let d ← member tape src c
      members rounds d

/-! ## Classes and packages -/

/-- The kind of a class by the word in front of its name. -/
def kind : Cursor ClassKind := do
  if ← eatWord tape "class" then return .ordinary
  else if ← eatWord tape "interface" then return .interface
  else if ← eatWord tape "enum" then return .enumeration
  else
    let t ← peekAt tape 0
    let u ← peekAt tape 1
    if t.isMark "@" && u.isWord "interface" then
      move tape 2
      return .annotationType
    else fail tape src "class, interface, enum, or @interface"

def classDecl (cb : Codebase) (package : String) : Cursor ClassDecl := do
  let p ← preamble tape src
  let kind ← kind tape src
  let name ← expectName tape src "class name"
  let c := (ClassDecl.declare package name kind).withModifiers p.modifiers
  let c := { c with annotations := withoutNullness p.annotations }
  let outer := (cb.enclosing c).flatMap fun o => o.typeParameters.map TypeParameter.name
  let declared ← variablesAhead tape
  let src := { src with scope := outer ++ declared }
  let typeParameters ← typeParameters tape src
  let extended ← supertypesAfter tape src "extends"
  let implemented ← supertypesAfter tape src "implements"
  let c := Source.extend { c with typeParameters } extended
  let c := { c with interfaces := c.interfaces ++ implemented }
  expectMark tape src Token.openBrace
  members tape src tape.limit c

def classes (package : String) : (rounds : Nat) → Codebase → Cursor Codebase
  | 0, _ => throw .unfinished
  | rounds + 1, cb => do
    if ← eatMark tape Token.closeBrace then return cb
    else
      let c ← classDecl tape src cb package
      let cb ← ofExcept (cb.addClass c)
      classes package rounds cb

def packages : (rounds : Nat) → Codebase → Cursor Codebase
  | 0, _ => throw .unfinished
  | rounds + 1, cb => do
    let t ← peekAt tape 0
    if t.kind = .endOfFile then return cb
    else if ← eatWord tape "package" then
      let package ← expectName tape src "package name"
      let cb := cb.addPackage package
      expectMark tape src Token.openBrace
      let cb ← classes tape src package tape.limit cb
      packages rounds cb
    else fail tape src "'package'"

end Steps

/-- Read signature text with a cursor that starts at the first token. -/
def read (limit : Nat) (options : ReadOptions) (text : String) : Except Halt Codebase :=
  let run : Cursor Codebase := do
    let declared ← ofExcept (Header.declared text)
    let settings ← ofExcept (options.resolve declared)
    let scan ← ofExcept (ApiSurface.scan settings.file text)
    packages { text, tokens := scan.all, limit } { settings, finish := scan.finish } limit ∅
  run.run' 0

end Cursor

end Signature
end ApiSurface
