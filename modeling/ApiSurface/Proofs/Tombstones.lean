import ApiSurface.Proofs.Standing
import ApiSurface.Signature.View
import Mathlib.Data.List.Basic

/-!
# Tombstones

Which items are tombstones follows from the tags alone, whatever the rules of the surface are.  The
tag stands on the item, on its package, or on a class around it or the package of that class; the
class around a class can belong to another package, since a package may be named like a class.  The
view of the removed items is built from the tombstones; the rules only say which of the other
classes are there to hold some.
-/

namespace ApiSurface

open Signature (View)

namespace Surface

variable {rules : SurfaceRules} {cb : Codebase}

/-! ## Tags -/

/-- The tag that removes an item stands on it, on its package, or on a class around it or the
package of that class. -/
def Placed.RemovalTagged (cb : Codebase) (x : Placed) : Prop :=
  x.subject.tags.removed = true ∨ (∃ p ∈ x.package, p.tags.removed = true) ∨
    ∃ c ∈ x.around, c.tags.removed = true ∨ ∃ p ∈ cb.package? c.package, p.tags.removed = true

/-- The item at a site is removed by a tag and not made by a compiler. -/
def IsTombstone (cb : Codebase) (site : Site) : Prop :=
  ∃ x ∈ cb.placed? site, x.subject.synthetic = false ∧ x.RemovalTagged cb

instance (cb : Codebase) (x : Placed) : Decidable (x.RemovalTagged cb) :=
  inferInstanceAs (Decidable (_ ∨ (∃ p ∈ x.package, _) ∨ ∃ c ∈ x.around, _ ∨ ∃ p ∈ _, _))

instance (cb : Codebase) (site : Site) : Decidable (IsTombstone cb site) :=
  inferInstanceAs (Decidable (∃ x ∈ cb.placed? site, _))

theorem packageContext_removed_iff {name : String} :
    (packageContext rules cb name).removed = true ↔
      ∃ p ∈ cb.package? name, p.tags.removed = true := by
  rw [packageContext]
  cases cb.package? name with
  | none => simp
  | some p => simp

theorem classContext_removed_iff {c : ClassDecl} {outers : List ClassDecl} :
    (classContext rules cb c outers).removed = true ↔
      (∃ p ∈ cb.package? c.package, p.tags.removed = true) ∨
        (chainContext rules cb outers).removed = true := by
  rw [← packageContext_removed_iff, ← Bool.or_eq_true]
  rfl

theorem chainContext_removed_iff {chain : List ClassDecl} :
    (chainContext rules cb chain).removed = true ↔
      ∃ c ∈ chain, c.tags.removed = true ∨ ∃ p ∈ cb.package? c.package, p.tags.removed = true := by
  induction chain with
  | nil => simp [chainContext]
  | cons c outers ih =>
    rw [chainContext_cons, Decision.context, beq_iff_eq, judge_removed_iff,
      classContext_removed_iff, ih, List.exists_mem_cons_iff, or_assoc]
    exact and_iff_right rfl

/-! ## Removed items -/

theorem settleClass_removed_iff {c : ClassDecl} :
    (settleClass rules cb c).exposure.lifecycle = .removed ↔
      (decision rules cb c).exposure.lifecycle = .removed := by
  constructor
  · intro h
    simp only [settleClass] at h
    split at h
    · cases h
    · exact h
  · intro h
    have hfiltered : (decision rules cb c).filtered = false := by
      rw [Bool.eq_false_iff]
      intro hfiltered
      rw [decision_eq_judge] at h hfiltered
      exact (judge_filtered_iff.mp hfiltered).2.1 (judge_removed_iff.mp h).2
    simp only [settleClass, hfiltered, Bool.false_and, Bool.false_eq_true, if_false, h]

theorem lifecycle?_settle_removed_iff (cb : Codebase) (rules : SurfaceRules) (site : Site) :
    (cb.settle rules).lifecycle? site = some .removed ↔ IsTombstone cb site := by
  cases site with
  | ofClass name =>
    simp only [lifecycle?_settle_ofClass, IsTombstone, Option.mem_def, Codebase.placed?_ofClass,
      settleClass_removed_iff, decision_eq_judge, judge_removed_iff, classContext_removed_iff,
      chainContext_removed_iff]
    constructor
    · rintro ⟨c, hc, hremoved⟩
      exact ⟨_, ⟨c, hc, rfl⟩, hremoved⟩
    · rintro ⟨x, ⟨c, hc, rfl⟩, hremoved⟩
      exact ⟨c, hc, hremoved⟩
  | ofMember owner kind index =>
    simp only [lifecycle?_settle_ofMember, IsTombstone, Option.mem_def, Codebase.placed?_ofMember,
      judge_removed_iff, chainContext_removed_iff]
    constructor
    · rintro ⟨c, hc, m, hm, hsynthetic, htagged⟩
      exact ⟨_, ⟨c, hc, m, hm, rfl⟩, hsynthetic, htagged.imp_right .inr⟩
    · rintro ⟨x, ⟨c, hc, m, hm, rfl⟩, hsynthetic, hself | hpackage | haround⟩
      · exact ⟨c, hc, m, hm, hsynthetic, .inl hself⟩
      -- the package of a member is the package of its class, which is the first one around it
      · exact ⟨c, hc, m, hm, hsynthetic, .inr ⟨c, List.mem_cons_self, .inr hpackage⟩⟩
      · exact ⟨c, hc, m, hm, hsynthetic, .inr haround⟩

theorem lifecycle?_settle_synthetic
    {site : Site} {x : Placed} (hx : cb.placed? site = some x) (h : x.subject.synthetic = true) :
    (cb.settle rules).lifecycle? site = some .hidden := by
  cases site with
  | ofClass name =>
    obtain ⟨c, -, rfl⟩ := Codebase.placed?_ofClass.mp hx
    cases h
  | ofMember owner kind index =>
    obtain ⟨c, hc, m, hm, rfl⟩ := Codebase.placed?_ofMember.mp hx
    exact lifecycle?_settle_ofMember.mpr ⟨c, hc, m, hm, judge_synthetic h⟩

/-! ## The view of removed items -/

/-- Whether a view shows the member at a place in a class. -/
def showsAt (view : View) (c : ClassDecl) : MemberKind → Nat → Bool
  | .constructor, index => c.constructors[index]?.any view.showsMethod
  | .method, index => c.methods[index]?.any view.showsMethod
  | .field, index => c.fields[index]?.any view.showsField

/-- A view shows the item at a site; a member is shown inside its class. -/
def Shows (view : View) (cb : Codebase) : Site → Prop
  | .ofClass name => ∃ c, cb.class? name = some c ∧ view.showsClass c = true
  | .ofMember owner kind index =>
    ∃ c, cb.class? owner = some c ∧ view.showsClass c = true ∧ showsAt view c kind index = true

theorem showsAt_iff {view : View} {c : ClassDecl} {kind : MemberKind} {index : Nat} :
    showsAt view c kind index = true ↔
      ∃ m, c.member? kind index = some m ∧
        m.1.synthetic = false ∧ m.2.lifecycle = view.lifecycle := by
  cases kind with
  | constructor =>
    simp [showsAt, ClassDecl.member?, View.showsMethod, Method.subject, Option.any_eq_true]
  | method =>
    simp [showsAt, ClassDecl.member?, View.showsMethod, Method.subject, Option.any_eq_true]
  | field =>
    simp [showsAt, ClassDecl.member?, View.showsField, Field.subject, Option.any_eq_true]

theorem showsMember_iff {view : View} {c : ClassDecl} :
    view.showsMember c = true ↔ ∃ kind index, showsAt view c kind index = true := by
  simp only [showsAt_iff, exists_member?_iff, View.showsMember, Bool.or_eq_true, List.any_eq_true,
    View.showsMethod, View.showsField, Bool.and_eq_true, Bool.not_eq_true', beq_iff_eq, or_assoc]
  rfl

theorem showsClass_removed_iff {c : ClassDecl} :
    View.removed.showsClass c = true ↔
      c.exposure.lifecycle = .removed ∨
        c.exposure.lifecycle = .visible ∧ ∃ kind index, showsAt .removed c kind index = true := by
  rw [View.showsClass, Bool.or_eq_true, Bool.and_eq_true, showsMember_iff, ClassDecl.isRemoved,
    ClassDecl.isVisible, beq_iff_eq, beq_iff_eq]

/-- Of a settled class, the view of removed items shows exactly the members that are tombstones. -/
theorem showsAt_settleClass_iff
    {name : String} {c : ClassDecl} (hc : cb.class? name = some c)
    {kind : MemberKind} {index : Nat} :
    showsAt .removed (settleClass rules cb c) kind index = true ↔
      IsTombstone cb (.ofMember name kind index) := by
  rw [showsAt_iff, member?_settleClass, ← lifecycle?_settle_removed_iff cb rules,
    lifecycle?_settle_ofMember]
  constructor
  · rintro ⟨x, hx, -, hremoved⟩
    obtain ⟨m, hm, rfl⟩ := Option.map_eq_some_iff.mp hx
    exact ⟨c, hc, m, hm, hremoved⟩
  · rintro ⟨d, hd, m, hm, hremoved⟩
    cases hc.symm.trans hd
    exact ⟨_, Option.map_eq_some_iff.mpr ⟨m, hm, rfl⟩, (judge_removed_iff.mp hremoved).1, hremoved⟩

/-- The view of removed items shows a settled class if it is a tombstone, or if it is on the surface
and holds one. -/
theorem showsClass_settleClass_iff {name : String} {c : ClassDecl} (hc : cb.class? name = some c) :
    View.removed.showsClass (settleClass rules cb c) = true ↔
      (settleClass rules cb c).exposure.lifecycle = .removed ∨
        (settleClass rules cb c).exposure.lifecycle = .visible ∧
          ∃ kind index, IsTombstone cb (.ofMember name kind index) := by
  simp only [showsClass_removed_iff, showsAt_settleClass_iff hc]

theorem shows_ofClass_iff {name : String} :
    Shows .removed (cb.settle rules) (.ofClass name) ↔
      IsTombstone cb (.ofClass name) ∨
        (cb.settle rules).lifecycle? (.ofClass name) = some .visible ∧
          ∃ kind index, IsTombstone cb (.ofMember name kind index) := by
  rw [← lifecycle?_settle_removed_iff cb rules, lifecycle?_settle_ofClass,
    lifecycle?_settle_ofClass, Shows, class?_settle]
  constructor
  · rintro ⟨d, hd, hshown⟩
    obtain ⟨c, hc, rfl⟩ := Option.map_eq_some_iff.mp hd
    refine ((showsClass_settleClass_iff hc).mp hshown).imp ?_ ?_
    · exact fun hremoved => ⟨c, hc, hremoved⟩
    · exact And.imp_left fun hvisible => ⟨c, hc, hvisible⟩
  · rintro (⟨c, hc, hremoved⟩ | ⟨⟨c, hc, hvisible⟩, hholds⟩)
    · refine ⟨_, Option.map_eq_some_iff.mpr ⟨c, hc, rfl⟩, ?_⟩
      exact (showsClass_settleClass_iff hc).mpr (.inl hremoved)
    · refine ⟨_, Option.map_eq_some_iff.mpr ⟨c, hc, rfl⟩, ?_⟩
      exact (showsClass_settleClass_iff hc).mpr (.inr ⟨hvisible, hholds⟩)

theorem shows_ofMember_iff {owner : String} {kind : MemberKind} {index : Nat} :
    Shows .removed (cb.settle rules) (.ofMember owner kind index) ↔
      IsTombstone cb (.ofMember owner kind index) ∧
        (cb.settle rules).lifecycle? (.ofClass owner) ≠ some .hidden := by
  rw [Shows, class?_settle]
  constructor
  · rintro ⟨d, hd, hshown, hmember⟩
    obtain ⟨c, hc, rfl⟩ := Option.map_eq_some_iff.mp hd
    refine ⟨(showsAt_settleClass_iff hc).mp hmember, ?_⟩
    rw [lifecycle?_settle_ofClass.mpr ⟨c, hc, rfl⟩]
    rcases (showsClass_settleClass_iff hc).mp hshown with hself | ⟨hself, -⟩
    · rw [hself]
      exact nofun
    · rw [hself]
      exact nofun
  · rintro ⟨htombstone, hclass⟩
    obtain ⟨c, hc, -⟩ := lifecycle?_settle_ofMember.mp
      ((lifecycle?_settle_removed_iff cb rules _).mpr htombstone)
    rw [lifecycle?_settle_ofClass.mpr ⟨c, hc, rfl⟩] at hclass
    have hmember : showsAt .removed (settleClass rules cb c) kind index = true :=
      (showsAt_settleClass_iff hc).mpr htombstone
    refine ⟨_, Option.map_eq_some_iff.mpr ⟨c, hc, rfl⟩, ?_, hmember⟩
    rw [showsClass_settleClass_iff hc]
    cases hself : (settleClass rules cb c).exposure.lifecycle with
    | visible => exact .inr ⟨rfl, kind, index, htombstone⟩
    | hidden => exact absurd (congrArg some hself) hclass
    | removed => exact .inl rfl

/-- Which items are tombstones does not depend on the rules, and synthetic members never are.  The
view of removed items shows the classes that are tombstones, the classes on the surface that hold
one, and in the classes that it shows the members that are tombstones. -/
theorem settle_tombstones (cb : Codebase) (rules : SurfaceRules) :
    (∀ site, (cb.settle rules).lifecycle? site = some .removed ↔ IsTombstone cb site) ∧
      (∀ site x, cb.placed? site = some x → x.subject.synthetic = true →
        (cb.settle rules).lifecycle? site = some .hidden) ∧
      (∀ name, Shows .removed (cb.settle rules) (.ofClass name) ↔
        IsTombstone cb (.ofClass name) ∨
          (cb.settle rules).lifecycle? (.ofClass name) = some .visible ∧
            ∃ kind index, IsTombstone cb (.ofMember name kind index)) ∧
      ∀ owner kind index, Shows .removed (cb.settle rules) (.ofMember owner kind index) ↔
        IsTombstone cb (.ofMember owner kind index) ∧
          (cb.settle rules).lifecycle? (.ofClass owner) ≠ some .hidden :=
  ⟨lifecycle?_settle_removed_iff cb rules, fun _ _ => lifecycle?_settle_synthetic,
    fun _ => shows_ofClass_iff, fun _ _ _ => shows_ofMember_iff⟩

/-- A class with two methods tagged as removed, one of them made by a compiler. -/
def vault : Codebase :=
  let method (name : String) (synthetic : Bool) : Method :=
    { name, owner := "a.Safe", modifiers := { access := .pub }
      returnType := some { name := "void" }, synthetic, tags := { removed := true } }
  { packages := ⟨[{ name := "a", classNames := ⟨["a.Safe"], by decide⟩ }], by decide⟩
    classes :=
      ⟨[{ package := "a", name := "Safe", kind := .ordinary, modifiers := { access := .pub }
          methods := [method "lock" false, method "access$0" true] }], by decide⟩ }

theorem vault_settle_tombstones :
    IsTombstone vault (.ofMember "a.Safe" .method 0) ∧
      (vault.settle {}).lifecycle? (.ofMember "a.Safe" .method 0) = some .removed ∧
      (vault.settle {}).lifecycle? (.ofMember "a.Safe" .method 1) = some .hidden ∧
      Shows .removed (vault.settle {}) (.ofMember "a.Safe" .method 0) := by
  obtain ⟨hremoved, hsynthetic, -, hshows⟩ := settle_tombstones vault {}
  have htombstone : IsTombstone vault (.ofMember "a.Safe" .method 0) := by decide +kernel
  have hclass : (vault.settle {}).lifecycle? (.ofClass "a.Safe") ≠ some .hidden := by decide +kernel
  have hmade : ∃ x ∈ vault.placed? (.ofMember "a.Safe" .method 1), x.subject.synthetic = true := by
    decide +kernel
  obtain ⟨x, hx, hmade⟩ := hmade
  exact ⟨htombstone, (hremoved _).mpr htombstone, hsynthetic _ x hx hmade,
    (hshows ..).mpr ⟨htombstone, hclass⟩⟩

/-- A class whose package is tagged as removed, and a class inside it that belongs to another
package. -/
def annex : Codebase :=
  { packages :=
      ⟨[{ name := "a", classNames := ⟨["a.b.C"], by decide⟩, tags := { removed := true } },
        { name := "a.b", classNames := ⟨["a.b.C.D"], by decide⟩ }], by decide⟩
    classes :=
      ⟨[{ package := "a", name := "b.C", kind := .ordinary, modifiers := { access := .pub } },
        { package := "a.b", name := "C.D", kind := .ordinary, modifiers := { access := .pub } }],
        by decide⟩ }

/-- The inner class is removed, although the tag stands neither on it nor on its own package nor on
a class around it. -/
theorem annex_removed_untagged :
    ¬ ((annex.settle {}).lifecycle? (.ofClass "a.b.C.D") = some .removed ↔
      ∃ x ∈ annex.placed? (.ofClass "a.b.C.D"), x.subject.synthetic = false ∧
        (x.subject.tags.removed = true ∨ (∃ p ∈ x.package, p.tags.removed = true) ∨
          ∃ c ∈ x.around, c.tags.removed = true)) := by
  decide +kernel

end Surface
end ApiSurface
