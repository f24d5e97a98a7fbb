import ApiSurface.Codebase

/-!
# Updates in place

Adding to a class and adding to a codebase, step by step.  A fault ends an update where it
stands, so what was done before the fault stays done.
-/

namespace ApiSurface

/-- Updates of a value in place.  A fault ends an update and keeps the steps before the fault. -/
abbrev Update (σ : Type) : Type → Type :=
  EStateM Fault σ

namespace Update

variable {σ : Type}

/-- What an update leaves behind, and the fault that ended it. -/
def outcome (u : Update σ Unit) (s : σ) : σ × Option Fault :=
  match u.run s with
  | .ok _ s' => (s', none)
  | .error fault s' => (s', some fault)

/-- An update that looks for a conflict before its first step. -/
def guarded (conflict? : σ → Option Fault) (steps : Update σ Unit) : Update σ Unit := do
  match conflict? (← get) with
  | some fault => throw fault
  | none => steps

/-! ## Members -/

def addConstructor (m : Method) : Update ClassDecl Unit :=
  guarded
    (fun c => (c.findConstructor? (c.signatureOf m)).map fun _ =>
      .duplicate c.qualifiedName (c.signatureOf m))
    (modify fun c => { c with constructors := c.constructors ++ [m] })

def addMethod (m : Method) : Update ClassDecl Unit :=
  guarded
    (fun c => (c.findMethod? (c.signatureOf m)).map fun _ =>
      .duplicate c.qualifiedName (c.signatureOf m))
    (modify fun c => { c with methods := c.methods ++ [m] })

def addField (x : Field) : Update ClassDecl Unit :=
  guarded (fun c => (c.findField? x.name).map fun _ => .duplicate c.qualifiedName x.name)
    (modify fun c => { c with fields := c.fields ++ [x] })

/-! ## Classes -/

/-- Add a class: create its package if need be, list it there, store it. -/
def addClass (c : ClassDecl) : Update Codebase Unit :=
  guarded (fun cb => (cb.class? c.qualifiedName).map fun _ => .duplicate c.package c.qualifiedName)
    do
      modify fun cb => cb.addPackage c.package
      modify fun cb => { cb with packages := cb.packages.modify c.package fun p =>
        { p with classNames := p.classNames.insert c.qualifiedName } }
      modify fun cb => { cb with classes := cb.classes.insert c }

/-- Fold another codebase into this one, package by package and then class by class. -/
def merge (other : Codebase) : Update Codebase Unit := do
  forM other.packages.items fun p => modify fun cb => cb.mergePackage p
  forM other.classes.items addClass

end Update

end ApiSurface
