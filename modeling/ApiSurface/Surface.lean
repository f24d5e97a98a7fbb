import ApiSurface.Codebase.Enclosing

/-!
# The surface of a codebase

The rules of a surface say which declared access is wide enough, which marks hide an item and which
show it again.  An item inherits what its package and the classes around it pass down.  Settling a
codebase decides every item from its declaration alone; decisions made before are not looked at.
-/

namespace ApiSurface

/-- The narrowest access that is still part of the surface. -/
inductive Level where
  | pub
  | prot
  | pack
  | priv
  /-- Everything, items marked as hidden included. -/
  | hidden
  deriving DecidableEq, Repr

namespace Level

/-- Whether an access is wide enough. -/
def admits : Level → Access → Bool
  | .pub, a => a == .pub
  | .prot, a => Access.prot.rank ≤ a.rank
  | .pack, a => Access.pack.rank ≤ a.rank
  | .priv, _ => true
  | .hidden, _ => true

end Level

/-- The rules of a surface. -/
structure SurfaceRules where
  level : Level := .prot
  /-- Names of annotations that show an item and what is inside it. -/
  showAnnotations : List String := []
  /-- Names of annotations that show an item alone. -/
  showSingleAnnotations : List String := []
  hideAnnotations : List String := []
  /-- Packages to hide, with the packages below them. -/
  hidePackages : List String := []
  /-- Items that no show rule applies to stay, even if there are show rules. -/
  showUnannotated : Bool := false
  deriving DecidableEq, Repr

namespace SurfaceRules

def hasShowRules (rules : SurfaceRules) : Bool :=
  !rules.showAnnotations.isEmpty || !rules.showSingleAnnotations.isEmpty

/-- Whether a package is, or lies below, one of the packages to hide. -/
def hidesPackage (rules : SurfaceRules) (package : String) : Bool :=
  rules.hidePackages.any fun hidden =>
    match Text.after? hidden.toList package.toList with
    | some rest => rest.isEmpty || rest.head? == some '.'
    | none => false

end SurfaceRules

namespace Surface

/-- What a container passes down to the items inside it. -/
structure Context where
  hidden : Bool := false
  removed : Bool := false
  /-- A show rule of the container covers what is inside. -/
  showing : Bool := false
  deriving DecidableEq, Repr

/-- What the rules look at in an item. -/
structure Subject where
  access : Access
  annotations : List Annotation
  tags : DocTags
  synthetic : Bool

/-- What is decided about an item. -/
structure Decision where
  exposure : Exposure
  /-- A show rule covers what is inside the item. -/
  showing : Bool
  /-- The item is kept out only because no show rule applies to it. -/
  filtered : Bool
  deriving DecidableEq, Repr

/-- What a decided item passes down. -/
def Decision.context (d : Decision) : Context :=
  { hidden := d.exposure.lifecycle == .hidden && !d.exposure.shown
    removed := d.exposure.lifecycle == .removed
    showing := d.showing }

/-- Decide about an item inside a container. -/
def judge (rules : SurfaceRules) (parent : Context) (item : Subject) : Decision :=
  let ownShow := Annotation.hasAny item.annotations rules.showAnnotations
  let ownSingle := Annotation.hasAny item.annotations rules.showSingleAnnotations
  let shown := ownShow || ownSingle || parent.showing
  let showing := ownShow || parent.showing
  let marked :=
    item.tags.hide || Annotation.hasAny item.annotations rules.hideAnnotations || parent.hidden
  let unshown := rules.hasShowRules && !rules.showUnannotated && !shown
  let decide (lifecycle : Lifecycle) (filtered : Bool) : Decision :=
    { exposure := { lifecycle, shown }, showing, filtered }
  if item.synthetic then decide .hidden false
  else if item.tags.removed || parent.removed then decide .removed false
  else if rules.level = .hidden then decide .visible false
  else if marked && !shown then decide .hidden false
  else if !rules.level.admits item.access then decide .hidden false
  else if unshown then decide .hidden true
  else decide .visible false

/-- Whether the rules hide a package and what is inside it. -/
def hides (rules : SurfaceRules) (p : Package) : Bool :=
  rules.level != .hidden && (p.tags.hide || rules.hidesPackage p.name)

def settlePackage (rules : SurfaceRules) (p : Package) : Package :=
  let lifecycle : Lifecycle :=
    if p.tags.removed then .removed else if hides rules p then .hidden else .visible
  { p with exposure := { p.exposure with lifecycle } }

/-- What the package of a name passes down. -/
def packageContext (rules : SurfaceRules) (cb : Codebase) (name : String) : Context :=
  match cb.package? name with
  | some p => { hidden := hides rules p, removed := p.tags.removed }
  | none => {}

/-- Decide about a class, given what the classes around it pass down. -/
def judgeClass (rules : SurfaceRules) (cb : Codebase) (outer : Context) (c : ClassDecl) :
    Decision :=
  let package := packageContext rules cb c.package
  let parent : Context :=
    { hidden := package.hidden || outer.hidden
      removed := package.removed || outer.removed
      showing := outer.showing }
  judge rules parent
    { access := c.modifiers.access, annotations := c.annotations, tags := c.tags
      synthetic := false }

/-- What a chain of classes, innermost first, passes down. -/
def chainContext (rules : SurfaceRules) (cb : Codebase) : List ClassDecl → Context
  | [] => {}
  | c :: outers => (judgeClass rules cb (chainContext rules cb outers) c).context

/-- The decision about a class of a codebase. -/
def decision (rules : SurfaceRules) (cb : Codebase) (c : ClassDecl) : Decision :=
  judgeClass rules cb (chainContext rules cb (cb.enclosing c)) c

/-- Decide about a method inside a class. -/
def settleMethod (rules : SurfaceRules) (parent : Context) (m : Method) : Method :=
  let d := judge rules parent
    { access := m.modifiers.access, annotations := m.annotations, tags := m.tags
      synthetic := m.synthetic }
  { m with exposure := d.exposure }

/-- Decide about a field inside a class. -/
def settleField (rules : SurfaceRules) (parent : Context) (f : Field) : Field :=
  let d := judge rules parent
    { access := f.modifiers.access, annotations := f.annotations, tags := f.tags
      synthetic := f.synthetic }
  { f with exposure := d.exposure }

/-- Decide about a class and its members.  A class kept out only for want of a show rule appears
all the same if one of its members does. -/
def settleClass (rules : SurfaceRules) (cb : Codebase) (c : ClassDecl) : ClassDecl :=
  let d := decision rules cb c
  let constructors := c.constructors.map (settleMethod rules d.context)
  let methods := c.methods.map (settleMethod rules d.context)
  let fields := c.fields.map (settleField rules d.context)
  let someVisible :=
    (constructors ++ methods).any (fun m => m.exposure.lifecycle == .visible) ||
      fields.any fun f => f.exposure.lifecycle == .visible
  let lifecycle := if d.filtered && someVisible then .visible else d.exposure.lifecycle
  { c with constructors, methods, fields, exposure := { d.exposure with lifecycle } }

end Surface

/-- Decide about every package, class and member of a codebase. -/
def Codebase.settle (cb : Codebase) (rules : SurfaceRules) : Codebase :=
  { packages := cb.packages.map (Surface.settlePackage rules) fun _ => rfl
    classes := cb.classes.map (Surface.settleClass rules cb) fun _ => rfl }

end ApiSurface
