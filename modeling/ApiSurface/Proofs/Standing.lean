import ApiSurface.Proofs.Decisions

/-!
# The standing of items

An item is a class, a constructor, a method or a field.  It is found at its site, together with its
package and the declared classes around it.  Settling a codebase leaves every item at its site; a
member is judged by what the chain of classes around it passes down, a class by what its package
and the chain around it pass down.
-/

namespace ApiSurface

open Surface (Subject Context)

/-! ## Items and their sites -/

/-- What the rules look at in a class. -/
def ClassDecl.subject (c : ClassDecl) : Subject :=
  { access := c.modifiers.access, annotations := c.annotations, tags := c.tags, synthetic := false }

/-- What the rules look at in a method. -/
def Method.subject (m : Method) : Subject :=
  { access := m.modifiers.access, annotations := m.annotations, tags := m.tags
    synthetic := m.synthetic }

/-- What the rules look at in a field. -/
def Field.subject (f : Field) : Subject :=
  { access := f.modifiers.access, annotations := f.annotations, tags := f.tags
    synthetic := f.synthetic }

namespace Surface

/-- Kinds of members. -/
inductive MemberKind where
  | constructor
  | method
  | field
  deriving DecidableEq, Repr

/-- Where an item stands: a class under its qualified name, a member of a class at its place among
the members of its kind. -/
inductive Site where
  | ofClass (name : String)
  | ofMember (owner : String) (kind : MemberKind) (index : Nat)
  deriving DecidableEq, Repr

/-- An item and what it is inside of. -/
structure Placed where
  subject : Subject
  exposure : Exposure
  /-- The package of the item. -/
  package : Option Package
  /-- The declared classes around the item, innermost first. -/
  around : List ClassDecl

end Surface

open Surface (MemberKind Site Placed)

/-- The member at a place in a class: what the rules look at and what was decided. -/
def ClassDecl.member? (c : ClassDecl) : MemberKind → Nat → Option (Subject × Exposure)
  | .constructor, index => c.constructors[index]?.map fun m => (m.subject, m.exposure)
  | .method, index => c.methods[index]?.map fun m => (m.subject, m.exposure)
  | .field, index => c.fields[index]?.map fun f => (f.subject, f.exposure)

namespace Codebase

def placedClass (cb : Codebase) (c : ClassDecl) : Placed :=
  { subject := c.subject, exposure := c.exposure, package := cb.package? c.package
    around := cb.enclosing c }

def placedMember (cb : Codebase) (c : ClassDecl) (m : Subject × Exposure) : Placed :=
  { subject := m.1, exposure := m.2, package := cb.package? c.package
    around := c :: cb.enclosing c }

def placed? (cb : Codebase) : Site → Option Placed
  | .ofClass name => (cb.class? name).map cb.placedClass
  | .ofMember owner kind index =>
    (cb.class? owner).bind fun c => (c.member? kind index).map (cb.placedMember c)

def lifecycle? (cb : Codebase) (site : Site) : Option Lifecycle :=
  (cb.placed? site).map fun x => x.exposure.lifecycle

variable {cb : Codebase} {x : Placed}

theorem placed?_ofClass {name : String} :
    cb.placed? (.ofClass name) = some x ↔ ∃ c, cb.class? name = some c ∧ cb.placedClass c = x :=
  Option.map_eq_some_iff

theorem placed?_ofMember {owner : String} {kind : MemberKind} {index : Nat} :
    cb.placed? (.ofMember owner kind index) = some x ↔
      ∃ c, cb.class? owner = some c ∧
        ∃ m, c.member? kind index = some m ∧ cb.placedMember c m = x := by
  simp only [placed?, Option.bind_eq_some_iff, Option.map_eq_some_iff]

end Codebase

namespace Surface

variable {rules : SurfaceRules} {cb : Codebase}

/-! ## What settling decides at a site -/

/-- What a class receives from its package and from the classes around it. -/
def Context.within (package outer : Context) : Context :=
  { hidden := package.hidden || outer.hidden
    removed := package.removed || outer.removed
    showing := outer.showing }

/-- What is passed down to a class of a codebase. -/
def classContext (rules : SurfaceRules) (cb : Codebase) (c : ClassDecl) (outers : List ClassDecl) :
    Context :=
  (packageContext rules cb c.package).within (chainContext rules cb outers)

theorem chainContext_cons (c : ClassDecl) (outers : List ClassDecl) :
    chainContext rules cb (c :: outers) =
      (judge rules (classContext rules cb c outers) c.subject).context :=
  rfl

theorem decision_eq_judge (c : ClassDecl) :
    decision rules cb c = judge rules (classContext rules cb c (cb.enclosing c)) c.subject :=
  rfl

theorem member?_settleClass (c : ClassDecl) (kind : MemberKind) (index : Nat) :
    (settleClass rules cb c).member? kind index =
      (c.member? kind index).map fun m =>
        (m.1, (judge rules (chainContext rules cb (c :: cb.enclosing c)) m.1).exposure) := by
  cases kind with
  | constructor =>
    simp only [ClassDecl.member?, settleClass, List.getElem?_map, Option.map_map]
    rfl
  | method =>
    simp only [ClassDecl.member?, settleClass, List.getElem?_map, Option.map_map]
    rfl
  | field =>
    simp only [ClassDecl.member?, settleClass, List.getElem?_map, Option.map_map]
    rfl

/-- Some member of a class is as asked for. -/
theorem exists_member?_iff {c : ClassDecl} {P : Subject × Exposure → Prop} :
    (∃ kind index m, c.member? kind index = some m ∧ P m) ↔
      (∃ m ∈ c.constructors, P (m.subject, m.exposure)) ∨
        (∃ m ∈ c.methods, P (m.subject, m.exposure)) ∨
        ∃ f ∈ c.fields, P (f.subject, f.exposure) := by
  constructor
  · rintro ⟨kind, index, m, hm, hP⟩
    cases kind with
    | constructor =>
      obtain ⟨x, hx, rfl⟩ := Option.map_eq_some_iff.mp hm
      exact .inl ⟨x, List.mem_of_getElem? hx, hP⟩
    | method =>
      obtain ⟨x, hx, rfl⟩ := Option.map_eq_some_iff.mp hm
      exact .inr (.inl ⟨x, List.mem_of_getElem? hx, hP⟩)
    | field =>
      obtain ⟨x, hx, rfl⟩ := Option.map_eq_some_iff.mp hm
      exact .inr (.inr ⟨x, List.mem_of_getElem? hx, hP⟩)
  · rintro (⟨x, hx, hP⟩ | ⟨x, hx, hP⟩ | ⟨x, hx, hP⟩)
    · obtain ⟨index, hindex⟩ := List.mem_iff_getElem?.mp hx
      exact ⟨.constructor, index, _, Option.map_eq_some_iff.mpr ⟨x, hindex, rfl⟩, hP⟩
    · obtain ⟨index, hindex⟩ := List.mem_iff_getElem?.mp hx
      exact ⟨.method, index, _, Option.map_eq_some_iff.mpr ⟨x, hindex, rfl⟩, hP⟩
    · obtain ⟨index, hindex⟩ := List.mem_iff_getElem?.mp hx
      exact ⟨.field, index, _, Option.map_eq_some_iff.mpr ⟨x, hindex, rfl⟩, hP⟩

theorem hasVisibleMember_iff {c : ClassDecl} :
    HasVisibleMember c ↔
      ∃ kind index m, c.member? kind index = some m ∧ m.2.lifecycle = .visible := by
  rw [exists_member?_iff, HasVisibleMember]
  simp only [List.mem_append, or_and_right, exists_or, or_assoc]

theorem lifecycle?_settle_ofClass {name : String} {l : Lifecycle} :
    (cb.settle rules).lifecycle? (.ofClass name) = some l ↔
      ∃ c, cb.class? name = some c ∧ (settleClass rules cb c).exposure.lifecycle = l := by
  simp only [Codebase.lifecycle?, Codebase.placed?, class?_settle, Option.map_map,
    Option.map_eq_some_iff]
  rfl

theorem lifecycle?_settle_ofMember
    {owner : String} {kind : MemberKind} {index : Nat} {l : Lifecycle} :
    (cb.settle rules).lifecycle? (.ofMember owner kind index) = some l ↔
      ∃ c, cb.class? owner = some c ∧ ∃ m, c.member? kind index = some m ∧
        (judge rules (chainContext rules cb (c :: cb.enclosing c)) m.1).exposure.lifecycle = l := by
  rw [Codebase.lifecycle?, Codebase.placed?, class?_settle]
  cases cb.class? owner with
  | none => simp
  | some c =>
    simp only [Option.map_some, Option.bind_some, member?_settleClass, Option.map_map,
      Option.map_eq_some_iff, Option.some.injEq, exists_eq_left']
    rfl

end Surface
end ApiSurface
