import ApiSurface.Codebase.Enclosing
import ApiSurface.Signature.Reader.Declaration

/-!
# Reading a codebase

A text is a sequence of packages, each with its classes in braces.  A package may occur several
times; a class may not.
-/

namespace ApiSurface
namespace Signature
namespace Source

/-- The kind of a class by the word in front of its name. -/
def readKind (src : Source) : Reader ClassKind := fun ts =>
  if atWord "class" ts then .ok (.ordinary, ts.tail)
  else if atWord "interface" ts then .ok (.interface, ts.tail)
  else if atWord "enum" ts then .ok (.enumeration, ts.tail)
  else if atMark "@" ts && atWord "interface" ts.tail then .ok (.annotationType, ts.tail.tail)
  else .error (src.fault ts "class, interface, enum, or @interface")

def readSupertypesAfter (src : Source) (word : String) : Reader (List TypeRef) := fun ts =>
  if atWord word ts then src.readSupertypes ts.length ts.tail else .ok ([], ts)

/-- The class with the types behind `extends`: all are interfaces of an interface, and the first is
the superclass of any other class. -/
def extend (c : ClassDecl) (types : List TypeRef) : ClassDecl :=
  if c.kind.isInterfaceLike then { c with interfaces := c.interfaces ++ types }
  else
    match types with
    | [] => c
    | first :: others => { c with superclass := some first, interfaces := c.interfaces ++ others }

/-- A class of a package, in a codebase with the classes before it. -/
def readClass (src : Source) (cb : Codebase) (package : String) : Reader ClassDecl :=
  fun ts => do
    let (p, ts) ← src.readPreamble ts
    let (kind, ts) ← src.readKind ts
    let (name, ts) ← src.expectName "class name" ts
    let c := (ClassDecl.declare package name kind).withModifiers p.modifiers
    let c := { c with annotations := withoutNullness p.annotations }
    let outer := (cb.enclosing c).flatMap fun o => o.typeParameters.map TypeParameter.name
    let src := { src with scope := outer ++ variablesAhead ts }
    let (typeParameters, ts) ← src.readTypeParameters ts
    let (extended, ts) ← src.readSupertypesAfter "extends" ts
    let (implemented, ts) ← src.readSupertypesAfter "implements" ts
    let c := extend { c with typeParameters } extended
    let c := { c with interfaces := c.interfaces ++ implemented }
    let ts ← src.expectMark Token.openBrace ts
    src.readMembers (ts.length + 1) c ts

/-- The codebase with the classes of a package up to the closing brace. -/
def readClasses (src : Source) (package : String) :
    (rounds : Nat) → Codebase → Reader Codebase
  | 0, _, ts => .error (src.fault ts "class, interface, enum, or @interface")
  | rounds + 1, cb, ts =>
    if atMark Token.closeBrace ts then .ok (cb, ts.tail)
    else do
      let (c, ts) ← src.readClass cb package ts
      let cb ← cb.addClass c
      src.readClasses package rounds cb ts

/-- The codebase with the packages up to the end of the text. -/
def readPackages (src : Source) :
    (rounds : Nat) → Codebase → List Token → Except Fault Codebase
  | _, cb, [] => .ok cb
  | 0, _, t :: ts => .error (src.fault (t :: ts) "'package'")
  | rounds + 1, cb, t :: ts =>
    if t.isWord "package" then do
      let (package, ts) ← src.expectName "package name" ts
      let cb := cb.addPackage package
      let ts ← src.expectMark Token.openBrace ts
      let (cb, ts) ← src.readClasses package (ts.length + 1) cb ts
      src.readPackages rounds cb ts
    else .error (src.fault (t :: ts) "'package'")

end Source

def read (options : ReadOptions) (text : String) : Except Fault Codebase := do
  let declared ← Header.declared text
  let settings ← options.resolve declared
  let scan ← ApiSurface.scan settings.file text
  Source.readPackages { settings, finish := scan.finish } scan.tokens.length ∅ scan.tokens

end Signature
end ApiSurface
