import ApiSurface.Declaration.ClassDecl

/-!
# Views of a codebase

A text shows one view: the items on the surface, or the tombstones together with the classes that
hold some.
-/

namespace ApiSurface
namespace Signature

/-- Which items are written. -/
inductive View where
  /-- The items on the surface. -/
  | live
  /-- The tombstones, and the classes that hold some. -/
  | removed
  deriving DecidableEq, Repr

namespace View

def lifecycle : View → Lifecycle
  | .live => .visible
  | .removed => .removed

def showsMethod (view : View) (m : Method) : Bool :=
  !m.synthetic && m.exposure.lifecycle == view.lifecycle

def showsField (view : View) (f : Field) : Bool :=
  !f.synthetic && f.exposure.lifecycle == view.lifecycle

def showsMember (view : View) (c : ClassDecl) : Bool :=
  c.constructors.any view.showsMethod || c.methods.any view.showsMethod ||
    c.fields.any view.showsField

def showsClass (view : View) (c : ClassDecl) : Bool :=
  match view with
  | .live => c.isVisible
  | .removed => c.isRemoved || (c.isVisible && showsMember .removed c)

end View

end Signature
end ApiSurface
