import ApiSurface.Codebase.Update
import ApiSurface.Proofs.Merging

/-!
# Updates that fail

An update changes a class or a codebase step by step, and a fault ends it where it stands.  Adding a
member or a class looks for a conflict before the first step, so an addition that fails leaves
nothing behind.  Merging adds all packages and then looks for a conflict class by class, so a merge
that fails has added the packages and the classes in front of the conflict.  Whatever fails, each
class stays listed in its own package.
-/

namespace ApiSurface

namespace Update

variable {σ : Type}

/-- What a function leaves behind that gives either a new value or a fault: with a fault, the value
as it was. -/
def orUnchanged (s : σ) : Except Fault σ → σ × Option Fault
  | .ok s' => (s', none)
  | .error fault => (s, some fault)

theorem outcome_guarded (conflict? : σ → Option Fault) (steps : Update σ Unit) (s : σ) :
    (guarded conflict? steps).outcome s =
      match conflict? s with
      | some fault => (s, some fault)
      | none => steps.outcome s := by
  have hrun : (guarded conflict? steps).run s =
      (match conflict? s with
        | some fault => throw fault
        | none => steps : Update σ Unit).run s := rfl
  rw [outcome, hrun]
  cases conflict? s with
  | some fault => rfl
  | none => rfl

theorem outcome_modify (f : σ → σ) (s : σ) : (modify f : Update σ Unit).outcome s = (f s, none) :=
  rfl

/-- A second update goes on with what the first one left behind, unless that failed. -/
theorem outcome_bind (u v : Update σ Unit) (s : σ) :
    (u >>= fun _ => v).outcome s =
      match u.outcome s with
      | (s', none) => v.outcome s'
      | (s', some fault) => (s', some fault) := by
  rw [outcome, outcome, EStateM.run_bind]
  cases u.run s with
  | ok _ s' => rfl
  | error fault s' => rfl

/-! ## Members -/

/-- An update that is guarded by a look-up does one thing or the other. -/
theorem outcome_guarded_map
    {α : Type} {found? : σ → Option α} {fault : σ → Fault} {steps : Update σ Unit} {s s' : σ}
    (hsteps : found? s = none → steps.outcome s = (s', none)) :
    (guarded (fun s => (found? s).map fun _ => fault s) steps).outcome s =
      orUnchanged s (if (found? s).isSome then .error (fault s) else .ok s') := by
  rw [outcome_guarded]
  cases hfound : found? s with
  | none => exact hsteps hfound
  | some x => rfl

theorem outcome_addConstructor (m : Method) (c : ClassDecl) :
    (addConstructor m).outcome c = orUnchanged c (c.addConstructor m) :=
  outcome_guarded_map fun _ => outcome_modify _ c

theorem outcome_addMethod (m : Method) (c : ClassDecl) :
    (addMethod m).outcome c = orUnchanged c (c.addMethod m) :=
  outcome_guarded_map fun _ => outcome_modify _ c

theorem outcome_addField (x : Field) (c : ClassDecl) :
    (addField x).outcome c = orUnchanged c (c.addField x) :=
  outcome_guarded_map fun _ => outcome_modify _ c

/-! ## Classes -/

theorem outcome_addClass (c : ClassDecl) (cb : Codebase) :
    (addClass c).outcome cb = orUnchanged cb (cb.addClass c) := by
  rw [addClass, Codebase.addClass_eq]
  refine outcome_guarded_map fun _ => ?_
  have hfound : (cb.addPackage c.package).packages.find? c.package =
      some (cb.packageOrNew c.package) :=
    (Codebase.package?_addPackage cb c.package c.package).trans (if_pos rfl)
  have hlisted : ((cb.addPackage c.package).packages.modify c.package fun p =>
      { p with classNames := p.classNames.insert c.qualifiedName }) =
      cb.packages.insert (cb.listing c) := by
    rw [Catalog.modify, hfound]
    exact Catalog.insert_insert cb.packages rfl
  rw [outcome_bind, outcome_modify]
  simp only
  rw [outcome_bind, outcome_modify]
  simp only
  rw [outcome_modify, hlisted]
  rfl

theorem outcome_forM_mergePackage (ps : List Package) (cb : Codebase) :
    (forM ps fun p => (modify fun cb => cb.mergePackage p : Update Codebase Unit)).outcome cb =
      (ps.foldl Codebase.mergePackage cb, none) := by
  induction ps generalizing cb with
  | nil => rfl
  | cons p ps ih =>
    rw [List.forM_cons, outcome_bind, outcome_modify]
    exact ih (cb.mergePackage p)

theorem outcome_forM_addClass (cs : List ClassDecl) (cb : Codebase) :
    (forM cs addClass).outcome cb = cb.addClasses cs := by
  induction cs generalizing cb with
  | nil => rfl
  | cons c cs ih =>
    rw [List.forM_cons, outcome_bind, outcome_addClass, Codebase.addClasses]
    cases cb.addClass c with
    | ok d => exact ih d
    | error fault => rfl

theorem outcome_merge (other cb : Codebase) : (merge other).outcome cb = cb.merge other := by
  rw [merge, outcome_bind, outcome_forM_mergePackage]
  exact outcome_forM_addClass other.classes.items _

end Update

/-! ## Faults -/

/-- Something is not added exactly if something like it is found. -/
theorem exists_ite_find?_eq_error
    {α β : Type} {p : α → Bool} {xs : List α} {fault : Fault} {b : β} :
    (∃ fault', (if (xs.find? p).isSome then Except.error fault else .ok b) = .error fault') ↔
      ∃ x ∈ xs, p x = true := by
  rw [← List.find?_isSome]
  split
  · rename_i htaken
    exact ⟨fun _ => htaken, fun _ => ⟨fault, rfl⟩⟩
  · rename_i hfree
    constructor
    · rintro ⟨fault', hfault⟩
      cases hfault
    · exact fun htaken => absurd htaken hfree

namespace ClassDecl

variable {c : ClassDecl}

theorem exists_addConstructor_eq_error {m : Method} :
    (∃ fault, c.addConstructor m = .error fault) ↔
      ∃ m' ∈ c.constructors, c.signatureOf m' = c.signatureOf m := by
  rw [addConstructor, findConstructor?, exists_ite_find?_eq_error]
  simp

theorem exists_addMethod_eq_error {m : Method} :
    (∃ fault, c.addMethod m = .error fault) ↔
      ∃ m' ∈ c.methods, c.signatureOf m' = c.signatureOf m := by
  rw [addMethod, findMethod?, exists_ite_find?_eq_error]
  simp

theorem exists_addField_eq_error {x : Field} :
    (∃ fault, c.addField x = .error fault) ↔ ∃ x' ∈ c.fields, x'.name = x.name := by
  rw [addField, findField?, exists_ite_find?_eq_error]
  simp

end ClassDecl

namespace Codebase

variable {cb other : Codebase}

theorem exists_addClass_eq_error {c : ClassDecl} :
    (∃ fault, cb.addClass c = .error fault) ↔
      ∃ d ∈ cb.classes.items, d.qualifiedName = c.qualifiedName := by
  rw [addClass_eq, class?, Catalog.find?, exists_ite_find?_eq_error]
  simp

theorem exists_merge_eq_error :
    (∃ fault, (cb.merge other).2 = some fault) ↔
      ∃ c ∈ other.classes.items, ∃ d ∈ cb.classes.items, d.qualifiedName = c.qualifiedName := by
  simp only [← class?_isSome_iff]
  rcases merge_cases cb other with ⟨hfree, d, hd, -⟩ | ⟨_, c, _, hclasses, -, htaken, d, hd, -⟩
  · rw [hd]
    constructor
    · rintro ⟨fault, hfault⟩
      cases hfault
    · rintro ⟨c, hc, htaken⟩
      rw [hfree c hc] at htaken
      cases htaken
  · rw [hd]
    exact ⟨fun _ => ⟨c, by simp [hclasses], htaken⟩, fun _ => ⟨_, rfl⟩⟩

/-- A package exists, with documentation if there is some to take over. -/
def Covers (cb : Codebase) (p : Package) : Prop :=
  ∃ q, cb.package? p.name = some q ∧ (p.documentation = none ∨ q.documentation.isSome)

theorem mergePackage_eq_self {p : Package} (h : cb.Covers p) : cb.mergePackage p = cb := by
  obtain ⟨q, hq, hdocumented⟩ := h
  have hname : q.name = p.name := Catalog.key_of_find? hq
  have hfilled : cb.filled p = q := by
    have hdocumentation : q.documentation.or p.documentation = q.documentation := by
      rcases hdocumented with hnone | hsome
      · rw [hnone, Option.or_none]
      · exact Option.or_of_isSome hsome
    rw [filled, packageOrNew, hq, Option.getD_some, hdocumentation]
  have hstored : cb.packages.find? (cb.filled p).name = some (cb.filled p) := by
    rw [hfilled, hname]
    exact hq
  exact congrArg (fun packages => { cb with packages }) (Catalog.insert_eq_self hstored)

theorem foldl_mergePackage_eq_self {ps : List Package} (h : ∀ p ∈ ps, cb.Covers p) :
    ps.foldl mergePackage cb = cb := by
  induction ps with
  | nil => rfl
  | cons p ps ih =>
    obtain ⟨hp, hps⟩ := List.forall_mem_cons.mp h
    rw [List.foldl_cons, mergePackage_eq_self hp]
    exact ih hps

/-- A codebase in which packages were merged and nothing is new had these packages. -/
theorem IsJoined.covers
    {added : List ClassDecl} (h : IsJoined cb other added cb) :
    ∀ p ∈ other.packages.items, cb.Covers p := by
  intro p hp
  have hother : other.package? p.name = some p := Catalog.find?_eq_some_iff.mpr ⟨hp, rfl⟩
  have hsame := h.packages p.name
  rw [hother, Option.map_some, Option.some_or, Option.map_some, Option.some_or] at hsame
  obtain ⟨q, hq, hunlisted⟩ := Option.map_eq_some_iff.mp hsame
  have hdocumentation : q.documentation = q.documentation.or p.documentation := by
    have hfilled : (cb.filled p).documentation = q.documentation.or p.documentation := by
      rw [filled, packageOrNew, hq, Option.getD_some]
    exact (congrArg Package.documentation hunlisted :).trans hfilled
  refine ⟨q, hq, ?_⟩
  cases hq : q.documentation with
  | none =>
    rw [hq, Option.none_or] at hdocumentation
    exact .inl hdocumentation.symm
  | some text => exact .inr rfl

/-- A merge that fails leaves behind what merging the classes in front of the conflict gives. -/
theorem exists_conflict_of_merge
    {left : Codebase} {fault : Fault} (h : cb.merge other = (left, some fault)) :
    ∃ c ∈ other.classes.items, (cb.class? c.qualifiedName).isSome ∧
      (∀ d ∈ (other.cutAt c.qualifiedName).classes.items, cb.class? d.qualifiedName = none) ∧
      fault = .duplicate c.package c.qualifiedName ∧
      cb.merge (other.cutAt c.qualifiedName) = (left, none) ∧
      (left = cb ↔ (other.cutAt c.qualifiedName).classes.items = [] ∧
        ∀ p ∈ other.packages.items, cb.Covers p) := by
  rcases merge_cases cb other with
    ⟨-, d, hd, -⟩ | ⟨before, c, after, hclasses, hfree, htaken, d, hd, hcut, hjoined⟩
  · rw [hd] at h
    cases h
  · rw [hd] at h
    cases h
    have hitems := items_cutAt hclasses
    refine ⟨c, by simp [hclasses], htaken, by rwa [hitems], rfl, hcut, ?_⟩
    rw [hitems]
    constructor
    · rintro rfl
      refine ⟨List.eq_nil_iff_forall_not_mem.mpr fun b hb => ?_, hjoined.covers⟩
      have hknown := (hjoined.classes b).mpr (.inl hb)
      exact Catalog.find?_eq_none_iff.mp (hfree b hb) b hknown rfl
    · rintro ⟨rfl, hcovers⟩
      rw [merge, hitems] at hcut
      exact (congrArg Prod.fst hcut).symm.trans (foldl_mergePackage_eq_self hcovers)

end Codebase

namespace Update

open Codebase (drawerOnly drawerClass)

/-- Each addition fails exactly if what it adds is taken, and then leaves everything as it was.
Merging fails exactly if the name of one of the classes is taken.  It then leaves behind what
merging the classes in front of the first such class gives, so nothing exactly if there are none in
front of it and every package is covered. -/
theorem outcome_fault_iff_taken :
    (∀ (c : ClassDecl) (m : Method),
      (addConstructor m).outcome c = orUnchanged c (c.addConstructor m) ∧
        ((∃ fault, c.addConstructor m = .error fault) ↔
          ∃ m' ∈ c.constructors, c.signatureOf m' = c.signatureOf m)) ∧
    (∀ (c : ClassDecl) (m : Method),
      (addMethod m).outcome c = orUnchanged c (c.addMethod m) ∧
        ((∃ fault, c.addMethod m = .error fault) ↔
          ∃ m' ∈ c.methods, c.signatureOf m' = c.signatureOf m)) ∧
    (∀ (c : ClassDecl) (x : Field),
      (addField x).outcome c = orUnchanged c (c.addField x) ∧
        ((∃ fault, c.addField x = .error fault) ↔ ∃ x' ∈ c.fields, x'.name = x.name)) ∧
    (∀ (cb : Codebase) (c : ClassDecl),
      (addClass c).outcome cb = orUnchanged cb (cb.addClass c) ∧
        ((∃ fault, cb.addClass c = .error fault) ↔
          ∃ d ∈ cb.classes.items, d.qualifiedName = c.qualifiedName)) ∧
    ∀ cb other : Codebase,
      (merge other).outcome cb = cb.merge other ∧
        ((∃ fault, (cb.merge other).2 = some fault) ↔
          ∃ c ∈ other.classes.items, ∃ d ∈ cb.classes.items,
            d.qualifiedName = c.qualifiedName) ∧
        ∀ left fault, cb.merge other = (left, some fault) →
          ∃ c ∈ other.classes.items, (cb.class? c.qualifiedName).isSome ∧
            (∀ d ∈ (other.cutAt c.qualifiedName).classes.items,
              cb.class? d.qualifiedName = none) ∧
            fault = .duplicate c.package c.qualifiedName ∧
            cb.merge (other.cutAt c.qualifiedName) = (left, none) ∧
            (left = cb ↔ (other.cutAt c.qualifiedName).classes.items = [] ∧
              ∀ p ∈ other.packages.items, cb.Covers p) := by
  exact ⟨fun c m => ⟨outcome_addConstructor m c, ClassDecl.exists_addConstructor_eq_error⟩,
    fun c m => ⟨outcome_addMethod m c, ClassDecl.exists_addMethod_eq_error⟩,
    fun c x => ⟨outcome_addField x c, ClassDecl.exists_addField_eq_error⟩,
    fun cb c => ⟨outcome_addClass c cb, Codebase.exists_addClass_eq_error⟩,
    fun cb other => ⟨outcome_merge other cb, Codebase.exists_merge_eq_error,
      fun _ _ => Codebase.exists_conflict_of_merge⟩⟩

/-- A codebase with one more class in front of the drawer. -/
def caseAndDrawer : Codebase :=
  { packages :=
      ⟨[{ name := "a", classNames := ⟨["a.Case", "a.Drawer"], by decide⟩ }],
        List.pairwise_singleton _ _⟩
    classes := ⟨[ClassDecl.declare "a" "Case" .ordinary, drawerClass], by decide⟩ }

/-- A merge that fails at its second class leaves the first one behind, as merging that one alone
does. -/
theorem merge_caseAndDrawer_conflict :
    (drawerOnly {} none).merge caseAndDrawer =
        (caseAndDrawer, some (.duplicate "a" "a.Drawer")) ∧
      (drawerOnly {} none).merge (caseAndDrawer.cutAt "a.Drawer") = (caseAndDrawer, none) ∧
      caseAndDrawer ≠ drawerOnly {} none := by
  have hmerge : (drawerOnly {} none).merge caseAndDrawer =
      (caseAndDrawer, some (.duplicate "a" "a.Drawer")) := by decide
  obtain ⟨c, hc, htaken, -, -, hcut, hkept⟩ :=
    (outcome_fault_iff_taken.2.2.2.2 _ _).2.2 _ _ hmerge
  have hdrawer : c = drawerClass := by
    rcases List.mem_cons.mp hc with rfl | hc
    · cases htaken
    · exact List.mem_singleton.mp hc
  subst hdrawer
  refine ⟨hmerge, hcut, fun hsame => ?_⟩
  have hfront : (caseAndDrawer.cutAt "a.Drawer").classes.items ≠ [] := by decide
  exact hfront (hkept.mp hsame).1

/-- The class in front of the drawer is added although merging fails. -/
theorem merge_caseAndDrawer_leaves_case :
    ((merge caseAndDrawer).outcome (drawerOnly {} none)).2 = some (.duplicate "a" "a.Drawer") ∧
      (((merge caseAndDrawer).outcome (drawerOnly {} none)).1.class? "a.Case").isSome ∧
      ((merge caseAndDrawer).outcome (drawerOnly {} none)).1 ≠ drawerOnly {} none := by
  rw [outcome_merge]
  decide

end Update

/-! ## Runs -/

namespace Codebase

variable {cb : Codebase}

/-- The codebase is reached from nothing by adding packages and classes, by merging codebases that
are reached in the same way, and by settling.  Updates that fail are part of the way. -/
inductive IsReached : Codebase → Prop where
  | empty : IsReached ∅
  | addPackage {cb : Codebase} (reached : IsReached cb) (name : String) :
      IsReached (cb.addPackage name)
  | addClass {cb : Codebase} (reached : IsReached cb) (c : ClassDecl) :
      IsReached ((Update.addClass c).outcome cb).1
  | merge {cb other : Codebase} (reached : IsReached cb) (reached' : IsReached other) :
      IsReached ((Update.merge other).outcome cb).1
  | settle {cb : Codebase} (reached : IsReached cb) (rules : SurfaceRules) :
      IsReached (cb.settle rules)

theorem IsReached.isIndexed (h : cb.IsReached) : cb.IsIndexed := by
  induction h with
  | empty => exact isIndexed_empty
  | addPackage _ name ih => exact ih.addPackage name
  | @addClass cb _ c ih =>
    rw [Update.outcome_addClass]
    cases hadd : cb.addClass c with
    | ok d => exact ih.addClass hadd
    | error fault => exact ih
  | merge _ _ ih _ =>
    rw [Update.outcome_merge]
    exact ih.merge _
  | settle _ rules ih => exact Surface.isIndexed_settle ih rules

/-- On every way from the empty codebase, packages and classes are found under their own names, a
package lists exactly the names of its classes, each class has its package, and all classes are
listed once, by package and then by name. -/
theorem IsReached.index_consistent (h : cb.IsReached) :
    (∀ name p, cb.package? name = some p ↔ p ∈ cb.packages.items ∧ p.name = name) ∧
      (∀ name c, cb.class? name = some c ↔ c ∈ cb.classes.items ∧ c.qualifiedName = name) ∧
      (∀ p ∈ cb.packages.items, ∀ name, name ∈ p.classNames.items ↔
        ∃ c ∈ cb.classes.items, c.package = p.name ∧ c.qualifiedName = name) ∧
      (∀ c ∈ cb.classes.items, ∃ p ∈ cb.packages.items, p.name = c.package) ∧
      (∀ c, cb.allClasses.count c = if c ∈ cb.classes.items then 1 else 0) ∧
      (cb.allClasses.Pairwise fun c d => c.package < d.package ∨
        (c.package = d.package ∧ c.qualifiedName < d.qualifiedName)) ∧
      cb.allClasses.length = cb.classCount := by
  have hindexed := h.isIndexed
  refine ⟨fun _ _ => Catalog.find?_eq_some_iff, fun _ _ => class?_eq_some_iff, hindexed.listed,
    hindexed.packaged, fun c => ?_, ?_, hindexed.length_allClasses⟩
  · rw [hindexed.nodup_allClasses.count]
    exact if_congr hindexed.mem_allClasses_iff rfl rfl
  · refine hindexed.pairwise_allClasses.imp ?_
    intro c d hprecedes
    exact ClassDecl.precedes_iff.mp hprecedes

theorem isReached_drawerOnly : (drawerOnly {} none).IsReached := by
  have hadded : drawerOnly {} none = ((Update.addClass drawerClass).outcome ∅).1 := by
    rw [Update.outcome_addClass]
    decide
  rw [hadded]
  exact IsReached.empty.addClass drawerClass

theorem isReached_caseAndDrawer : Update.caseAndDrawer.IsReached := by
  have hadded : Update.caseAndDrawer =
      ((Update.addClass (ClassDecl.declare "a" "Case" .ordinary)).outcome
        (drawerOnly {} none)).1 := by
    rw [Update.outcome_addClass]
    decide
  rw [hadded]
  exact isReached_drawerOnly.addClass _

/-- After a merge that failed the classes are still listed as they are stored. -/
theorem length_allClasses_merge_caseAndDrawer :
    (((Update.merge Update.caseAndDrawer).outcome (drawerOnly {} none)).1.settle {}).IsReached ∧
      (((Update.merge Update.caseAndDrawer).outcome (drawerOnly {} none)).1.settle
        {}).allClasses.length = 2 := by
  have hreached := (isReached_drawerOnly.merge isReached_caseAndDrawer).settle {}
  refine ⟨hreached, hreached.index_consistent.2.2.2.2.2.2.trans ?_⟩
  rw [Update.outcome_merge]
  exact List.length_map ..

end Codebase

end ApiSurface
