import ApiSurface.Catalog
import ApiSurface.Declaration.ClassDecl

/-!
# Codebases

A codebase holds packages and classes, each in the order of their names.  A package lists the names
of its classes; adding a class adds its name to its package, which is created if need be.
-/

namespace ApiSurface

/-- A package with the qualified names of its classes. -/
structure Package where
  name : String
  classNames : NameSet := ∅
  exposure : Exposure := {}
  tags : DocTags := {}
  documentation : Option String := none
  deriving DecidableEq

/-- Packages and classes, each under its own name. -/
structure Codebase where
  packages : Catalog Package.name := ∅
  classes : Catalog ClassDecl.qualifiedName := ∅
  deriving DecidableEq, Inhabited

namespace Codebase

def empty : Codebase :=
  {}

instance : EmptyCollection Codebase :=
  ⟨empty⟩

def class? (cb : Codebase) (name : String) : Option ClassDecl :=
  cb.classes.find? name

def package? (cb : Codebase) (name : String) : Option Package :=
  cb.packages.find? name

def packageOrNew (cb : Codebase) (name : String) : Package :=
  (cb.package? name).getD { name }

/-- The codebase in which a package exists. -/
def addPackage (cb : Codebase) (name : String) : Codebase :=
  { cb with packages := cb.packages.insert (cb.packageOrNew name) }

/-- The codebase with one more class, unless its qualified name is taken. -/
def addClass (cb : Codebase) (c : ClassDecl) : Except Fault Codebase :=
  if (cb.class? c.qualifiedName).isSome then .error (.duplicate c.package c.qualifiedName)
  else
    let package := cb.packageOrNew c.package
    .ok
      { packages := cb.packages.insert
          { package with classNames := package.classNames.insert c.qualifiedName }
        classes := cb.classes.insert c }

def classesIn (cb : Codebase) (p : Package) : List ClassDecl :=
  p.classNames.items.filterMap cb.class?

/-- All classes, by package and then by name. -/
def allClasses (cb : Codebase) : List ClassDecl :=
  cb.packages.items.flatMap cb.classesIn

def classCount (cb : Codebase) : Nat :=
  cb.classes.size

def nestedClasses (cb : Codebase) (outer : ClassDecl) : List ClassDecl :=
  match cb.package? outer.package with
  | some p => (cb.classesIn p).filter fun c => c.containingClass == some outer.qualifiedName
  | none => []

/-- Add a package of another codebase; documentation fills a gap and replaces nothing. -/
def mergePackage (cb : Codebase) (p : Package) : Codebase :=
  let target := cb.packageOrNew p.name
  let merged := { target with documentation := target.documentation.or p.documentation }
  { cb with packages := cb.packages.insert merged }

/-- Outcome of adding several classes: the codebase as far as it came, and the fault that stopped
it. -/
def addClasses (cb : Codebase) : List ClassDecl → Codebase × Option Fault
  | [] => (cb, none)
  | c :: cs =>
    match cb.addClass c with
    | .ok cb => cb.addClasses cs
    | .error fault => (cb, some fault)

/-- Fold another codebase into this one: its packages first, then its classes by name.  A class
whose name is taken stops the merge; what was added before it stays. -/
def merge (cb other : Codebase) : Codebase × Option Fault :=
  (other.packages.items.foldl mergePackage cb).addClasses other.classes.items

end Codebase

end ApiSurface
