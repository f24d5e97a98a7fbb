import ApiSurface.Proofs.Decisions
import ApiSurface.Proofs.Lineage
import ApiSurface.Proofs.Unchanged
import Mathlib.Logic.Relation

/-!
# Additions are compatible

A codebase grows by packages, classes and members that were not there, where no new member has to be
implemented by classes that exist already.  Whatever is added, the classes that were there keep what
they had, and their superclasses and interfaces only become more, also where an added class stands
in for a supertype that was missing.  So a comparison shows additions and unresolved references, and
no error that the old codebase does not already show against itself.
-/

namespace ApiSurface

open Comparison (demandsImplementation)

namespace Codebase

/-- One addition to a codebase. -/
inductive Addition : Codebase → Codebase → Prop where
  | package {cb : Codebase} {p : Package} (fresh : cb.package? p.name = none) :
      Addition cb { cb with packages := cb.packages.insert p }
  | declaration {cb d : Codebase} {c : ClassDecl} (added : cb.addClass c = .ok d) : Addition cb d
  | constructor {cb : Codebase} {name : String} {c c' : ClassDecl} {m : Method}
      (found : cb.class? name = some c) (added : c.addConstructor m = .ok c')
      (harmless : demandsImplementation c m = false) :
      Addition cb { cb with classes := cb.classes.insert c' }
  | method {cb : Codebase} {name : String} {c c' : ClassDecl} {m : Method}
      (found : cb.class? name = some c) (added : c.addMethod m = .ok c')
      (harmless : demandsImplementation c m = false) :
      Addition cb { cb with classes := cb.classes.insert c' }
  | field {cb : Codebase} {name : String} {c c' : ClassDecl} {f : Field}
      (found : cb.class? name = some c) (added : c.addField f = .ok c') :
      Addition cb { cb with classes := cb.classes.insert c' }

end Codebase

/-! ## What additions leave as it is -/

/-- The class has further members behind its own, none of which has to be implemented by classes
that exist already.  It may come to be on the surface, but does not leave it. -/
def ClassDecl.GrowsTo (c c' : ClassDecl) : Prop :=
  ∃ constructors methods fields exposure,
    (∀ m ∈ constructors ++ methods, demandsImplementation c m = false) ∧
      c' = { c.grown constructors methods fields with exposure } ∧
      (c.isVisible = true → c'.isVisible = true)

theorem ClassDecl.growsTo_grown
    {c : ClassDecl} {constructors methods : List Method}
    (h : ∀ m ∈ constructors ++ methods, demandsImplementation c m = false) (fields : List Field) :
    c.GrowsTo (c.grown constructors methods fields) :=
  ⟨constructors, methods, fields, c.exposure, h, rfl, id⟩

theorem ClassDecl.GrowsTo.refl (c : ClassDecl) : c.GrowsTo c := by
  have h : c.GrowsTo (c.grown [] [] []) := growsTo_grown (by simp) []
  rwa [c.grown_nil] at h

theorem ClassDecl.GrowsTo.trans
    {c d e : ClassDecl} (h : c.GrowsTo d) (h' : d.GrowsTo e) : c.GrowsTo e := by
  obtain ⟨constructors, methods, fields, exposure, hfree, rfl, hvisible⟩ := h
  obtain ⟨constructors', methods', fields', exposure', hfree', rfl, hvisible'⟩ := h'
  refine ⟨constructors ++ constructors', methods ++ methods', fields ++ fields', exposure', ?_, ?_,
    fun h => hvisible' (hvisible h)⟩
  · intro m hm
    rcases List.mem_append.mp hm with hm | hm
    · rcases List.mem_append.mp hm with hm | hm
      · exact hfree m (List.mem_append_left _ hm)
      · exact hfree' m (List.mem_append_left _ hm)
    · rcases List.mem_append.mp hm with hm | hm
      · exact hfree m (List.mem_append_right _ hm)
      · exact hfree' m (List.mem_append_right _ hm)
  · simp [grown]

namespace Codebase

/-- The package keeps its standing and its classes; names that it lists in addition are those of
classes that were not declared. -/
structure KeepsPackage (old : Codebase) (p p' : Package) : Prop where
  name : p'.name = p.name
  tags : p'.tags = p.tags
  exposure : p'.exposure = p.exposure
  classNames : ∀ name, name ∈ p.classNames.items → name ∈ p'.classNames.items
  further : ∀ name, name ∈ p'.classNames.items →
    name ∈ p.classNames.items ∨ old.class? name = none

/-- Every class and every package of the old codebase is kept in the new one. -/
structure GrowsTo (old new : Codebase) : Prop where
  classes : ∀ name c, old.class? name = some c →
    ∃ c', new.class? name = some c' ∧ c.GrowsTo c'
  packages : ∀ name p, old.package? name = some p →
    ∃ p', new.package? name = some p' ∧ old.KeepsPackage p p'

theorem KeepsPackage.refl (cb : Codebase) (p : Package) : cb.KeepsPackage p p :=
  ⟨rfl, rfl, rfl, fun _ h => h, fun _ h => .inl h⟩

theorem GrowsTo.refl (cb : Codebase) : cb.GrowsTo cb :=
  ⟨fun _ c hc => ⟨c, hc, .refl c⟩, fun _ p hp => ⟨p, hp, .refl cb p⟩⟩

theorem GrowsTo.undeclared
    {old new : Codebase} (h : old.GrowsTo new) {name : String} (hnew : new.class? name = none) :
    old.class? name = none := by
  cases hold : old.class? name with
  | none => rfl
  | some c =>
    obtain ⟨c', hc', -⟩ := h.classes name c hold
    rw [hnew] at hc'
    cases hc'

theorem GrowsTo.trans
    {a b c : Codebase} (h : a.GrowsTo b) (h' : b.GrowsTo c) : a.GrowsTo c := by
  constructor
  · intro name x hx
    obtain ⟨y, hy, hxy⟩ := h.classes name x hx
    obtain ⟨z, hz, hyz⟩ := h'.classes name y hy
    exact ⟨z, hz, hxy.trans hyz⟩
  · intro name p hp
    obtain ⟨q, hq, hpq⟩ := h.packages name p hp
    obtain ⟨r, hr, hqr⟩ := h'.packages name q hq
    refine ⟨r, hr, hqr.name.trans hpq.name, hqr.tags.trans hpq.tags,
      hqr.exposure.trans hpq.exposure,
      fun name hname => hqr.classNames name (hpq.classNames name hname), fun name hname => ?_⟩
    rcases hqr.further name hname with hname | hnone
    · exact hpq.further name hname
    · exact .inr (h.undeclared hnone)

/-- A class stored in the stead of one from which it has grown. -/
theorem growsTo_insert
    {cb : Codebase} {name : String} {c c' : ClassDecl} (hfound : cb.class? name = some c)
    (hgrows : c.GrowsTo c') : cb.GrowsTo { cb with classes := cb.classes.insert c' } := by
  have hname : c'.qualifiedName = name := by
    have hkey : c.qualifiedName = name := Catalog.key_of_find? hfound
    obtain ⟨_, _, _, _, -, rfl, -⟩ := hgrows
    exact hkey
  refine ⟨fun n x hx => ?_, fun _ p hp => ⟨p, hp, .refl cb p⟩⟩
  rw [class?, Catalog.find?_insert, hname]
  by_cases hn : name = n
  · subst hn
    rw [hfound] at hx
    cases hx
    exact ⟨c', if_pos rfl, hgrows⟩
  · exact ⟨x, (if_neg hn).trans hx, .refl x⟩

theorem growsTo_addClass
    {cb d : Codebase} {c : ClassDecl} (h : cb.addClass c = .ok d) : cb.GrowsTo d := by
  obtain ⟨hfree, rfl⟩ := addClass_eq_ok.mp h
  constructor
  · intro name x hx
    have hne : c.qualifiedName ≠ name := by
      rintro rfl
      rw [hfree] at hx
      cases hx
    exact ⟨x, by rwa [class?, Catalog.find?_insert, if_neg hne], .refl x⟩
  · intro name p hp
    rw [package?, Catalog.find?_insert, listing_name]
    by_cases hname : c.package = name
    · have hfound : cb.packageOrNew c.package = p := by
        rw [packageOrNew, hname, hp]
        rfl
      rw [if_pos hname]
      refine ⟨_, rfl, ?_, ?_, ?_, ?_, ?_⟩
      · rw [listing, hfound]
      · rw [listing, hfound]
      · rw [listing, hfound]
      · intro n hn
        rw [listing, hfound, NameSet.mem_insert_iff]
        exact .inr hn
      · intro n hn
        rw [listing, hfound, NameSet.mem_insert_iff] at hn
        rcases hn with rfl | hn
        · exact .inr hfree
        · exact .inl hn
    · rw [if_neg hname]
      exact ⟨p, hp, .refl cb p⟩

/-- What one addition keeps. -/
theorem Addition.growsTo {old new : Codebase} (h : Addition old new) : old.GrowsTo new := by
  cases h with
  | @package p fresh =>
    refine ⟨fun _ c hc => ⟨c, hc, .refl c⟩, fun name q hq => ?_⟩
    have hne : p.name ≠ name := by
      rintro rfl
      rw [fresh] at hq
      cases hq
    exact ⟨q, by rwa [package?, Catalog.find?_insert, if_neg hne], .refl old q⟩
  | declaration added => exact growsTo_addClass added
  | @constructor name c c' m found added harmless =>
    obtain ⟨-, rfl⟩ := ClassDecl.addConstructor_eq_ok.mp added
    have hgrows : c.GrowsTo (c.grown [m] [] []) :=
      ClassDecl.growsTo_grown (by simpa using harmless) []
    exact growsTo_insert found (by simpa [ClassDecl.grown] using hgrows)
  | @method name c c' m found added harmless =>
    obtain ⟨-, rfl⟩ := ClassDecl.addMethod_eq_ok.mp added
    have hgrows : c.GrowsTo (c.grown [] [m] []) :=
      ClassDecl.growsTo_grown (by simpa using harmless) []
    exact growsTo_insert found (by simpa [ClassDecl.grown] using hgrows)
  | @field name c c' f found added =>
    obtain ⟨-, rfl⟩ := ClassDecl.addField_eq_ok.mp added
    have hgrows : c.GrowsTo (c.grown [] [] [f]) := ClassDecl.growsTo_grown (by simp) [f]
    exact growsTo_insert found (by simpa [ClassDecl.grown] using hgrows)

/-- What any number of additions keep. -/
theorem growsTo_of_additions
    {old new : Codebase} (h : Relation.ReflTransGen Addition old new) : old.GrowsTo new := by
  induction h with
  | refl => exact .refl old
  | tail _ step ih => exact ih.trans step.growsTo

/-! ## Superclasses, interfaces and packages only become more -/

theorem GrowsTo.superclassChain
    {old new : Codebase} (h : old.GrowsTo new) {c c' : ClassDecl} (hgrows : c.GrowsTo c')
    {name : String} (hname : name ∈ old.superclassChain c) : name ∈ new.superclassChain c' := by
  obtain ⟨_, _, _, _, -, rfl, -⟩ := hgrows
  refine mem_map_name_walkFrom_iff.mpr ((mem_map_name_walkFrom_iff.mp hname).mono ?_)
  intro n d hd
  obtain ⟨d', hd', _, _, _, _, -, rfl, -⟩ := h.classes n d hd
  exact ⟨_, hd', fun _ hlink => hlink⟩

theorem GrowsTo.supertypes
    {old new : Codebase} (h : old.GrowsTo new) {c c' : ClassDecl} (hgrows : c.GrowsTo c')
    {s : ClassDecl} (hs : s ∈ old.supertypes c) : ∃ s' ∈ new.supertypes c', s.GrowsTo s' := by
  obtain ⟨_, _, _, _, -, rfl, -⟩ := hgrows
  obtain ⟨name, hreached, hdeclared⟩ := mem_supertypes_iff.mp hs
  obtain ⟨s', hs', hgrows⟩ := h.classes name s hdeclared
  refine ⟨s', mem_supertypes_iff.mpr ⟨name, hreached.mono ?_, hs'⟩, hgrows⟩
  intro n d hd
  obtain ⟨d', hd', _, _, _, _, -, rfl, -⟩ := h.classes n d hd
  exact ⟨_, hd', fun _ hlink => hlink⟩

theorem GrowsTo.allInterfaces
    {old new : Codebase} (h : old.GrowsTo new) {c c' : ClassDecl} (hgrows : c.GrowsTo c')
    {name : String} (hname : name ∈ (old.allInterfaces c).items) :
    name ∈ (new.allInterfaces c').items := by
  rw [mem_allInterfaces_iff] at hname ⊢
  rcases hname with hown | ⟨s, hs, hname⟩
  · obtain ⟨_, _, _, _, -, rfl, -⟩ := hgrows
    exact .inl hown
  · obtain ⟨s', hs', _, _, _, _, -, rfl, -⟩ := h.supertypes hgrows hs
    exact .inr ⟨_, hs', hname⟩

theorem GrowsTo.visiblePackages
    {old new : Codebase} (h : old.GrowsTo new) {name : String}
    (hname : name ∈ (Comparison.visiblePackages old).items) :
    name ∈ (Comparison.visiblePackages new).items := by
  rw [Comparison.mem_visiblePackages_iff] at hname ⊢
  obtain ⟨p, hp, rfl, hvisible, c, hc, hshown⟩ := hname
  obtain ⟨p', hp', hkeeps⟩ := h.packages p.name p (Catalog.find?_eq_some_iff.mpr ⟨hp, rfl⟩)
  obtain ⟨hlisted, hdeclared⟩ := mem_classesIn_iff.mp hc
  obtain ⟨c', hc', hgrows⟩ := h.classes _ c hdeclared
  have hname : c'.qualifiedName = c.qualifiedName := Catalog.key_of_find? hc'
  obtain ⟨_, _, _, _, -, -, hshown'⟩ := hgrows
  have hmem : c' ∈ new.classesIn p' := by
    rw [← hname] at hlisted hc'
    exact mem_classesIn_iff.mpr ⟨hkeeps.classNames _ hlisted, hc'⟩
  exact ⟨p', Catalog.mem_of_find? hp', hkeeps.name, hkeeps.exposure ▸ hvisible, c', hmem,
    hshown' hshown⟩

/-- A class that was declared is listed in its package only if it was listed there before. -/
theorem GrowsTo.mem_classNames
    {old new : Codebase} (h : old.GrowsTo new) {package : String}
    (hpackage : package ∈ (Comparison.visiblePackages old).items)
    {name : String} {c : ClassDecl} (hc : old.class? name = some c)
    (hname : name ∈ (Comparison.classNames new package).items) :
    name ∈ (Comparison.classNames old package).items := by
  obtain ⟨p, hp, rfl, -⟩ := Comparison.mem_visiblePackages_iff.mp hpackage
  have hfound : old.package? p.name = some p := Catalog.find?_eq_some_iff.mpr ⟨hp, rfl⟩
  obtain ⟨p', hp', hkeeps⟩ := h.packages p.name p hfound
  simp only [Comparison.classNames, hfound, hp'] at hname ⊢
  refine (hkeeps.further name hname).resolve_right fun hnone => ?_
  rw [hc] at hnone
  cases hnone

end Codebase

/-! ## Settling what was added to -/

namespace Codebase

/-- Nothing is added around a class that was there: neither a class around it nor its package. -/
structure KeepsSurroundings (old new : Codebase) : Prop where
  around : ∀ c ∈ old.classes.items, old.around? c = none → new.around? c = none
  package : ∀ c ∈ old.classes.items, old.package? c.package = none → new.package? c.package = none

end Codebase

namespace Surface

variable {rules : SurfaceRules} {old new : Codebase} {c c' : ClassDecl}

theorem packageContext_of_growsTo
    (h : old.GrowsTo new) (haround : old.KeepsSurroundings new) (hc : c ∈ old.classes.items) :
    packageContext rules new c.package = packageContext rules old c.package := by
  cases hold : old.package? c.package with
  | none => rw [packageContext, packageContext, hold, haround.package c hc hold]
  | some p =>
    obtain ⟨p', hp', hkeeps⟩ := h.packages _ p hold
    rw [packageContext, packageContext, hold, hp']
    simp only [hides, hkeeps.tags, hkeeps.name]

/-- A class that was there is decided as before: the classes around it are the same but for their
members, and its package is tagged as it was. -/
theorem decision_of_growsTo
    (h : old.GrowsTo new) (haround : old.KeepsSurroundings new) (hc : c ∈ old.classes.items)
    (hgrows : c.GrowsTo c') : decision rules new c' = decision rules old c := by
  induction c using old.around?_induction generalizing c' with
  | step c ih =>
    obtain ⟨hname, hpackage, hjudge⟩ : c'.name = c.name ∧ c'.package = c.package ∧
        ∀ outer, judgeClass rules new outer c' = judgeClass rules new outer c := by
      obtain ⟨_, _, _, _, -, rfl, -⟩ := hgrows
      exact ⟨rfl, rfl, fun _ => rfl⟩
    have houter : outerContext rules new c' = outerContext rules old c := by
      rw [outerContext, outerContext, Codebase.around?_congr hpackage hname]
      cases hold : old.around? c with
      | none => rw [haround.around c hc hold]
      | some e =>
        obtain ⟨name, hname, he⟩ := Option.bind_eq_some_iff.mp hold
        obtain ⟨e', he', hgrows⟩ := h.classes name e he
        have hnew : new.around? c = some e' := Option.bind_eq_some_iff.mpr ⟨name, hname, he'⟩
        rw [hnew]
        exact congrArg Decision.context (ih e hold (Codebase.mem_classes_of_around? hold) hgrows)
    rw [decision_eq, decision_eq, houter, hjudge, judgeClass, judgeClass,
      packageContext_of_growsTo h haround hc]

/-- A class that is decided as before keeps its members with their standing. -/
theorem settleClass_growsTo
    (hdecision : decision rules new c' = decision rules old c) (hgrows : c.GrowsTo c') :
    (settleClass rules old c).GrowsTo (settleClass rules new c') := by
  obtain ⟨constructors, methods, fields, exposure, hfree, hgrown, -⟩ := hgrows
  let passed := (decision rules old c).context
  refine ⟨constructors.map (settleMethod rules passed), methods.map (settleMethod rules passed),
    fields.map (settleField rules passed), (settleClass rules new c').exposure, ?_, ?_, ?_⟩
  · intro settled hsettled
    rw [← List.map_append] at hsettled
    obtain ⟨m, hm, rfl⟩ := List.mem_map.mp hsettled
    exact hfree m hm
  · unfold settleClass
    rw [hdecision]
    subst hgrown
    simp only [ClassDecl.grown, List.map_append]
    rfl
  · rw [isVisible_settleClass_iff, isVisible_settleClass_iff, hdecision]
    refine Or.imp_right (And.imp_right ?_)
    unfold HasVisibleMember settleClass
    rw [hdecision]
    subst hgrown
    simp only [ClassDecl.grown, List.map_append, List.mem_append]
    rintro (⟨m, hm, hshown⟩ | ⟨x, hx, hshown⟩)
    · exact .inl ⟨m, hm.imp .inl .inl, hshown⟩
    · exact .inr ⟨x, .inl hx, hshown⟩

theorem settle_growsTo (h : old.GrowsTo new) (haround : old.KeepsSurroundings new) :
    (old.settle rules).GrowsTo (new.settle rules) := by
  constructor
  · intro name d hd
    rw [class?_settle] at hd
    obtain ⟨c, hc, rfl⟩ := Option.map_eq_some_iff.mp hd
    obtain ⟨c', hc', hgrows⟩ := h.classes name c hc
    have hdecision : decision rules new c' = decision rules old c :=
      decision_of_growsTo h haround (Catalog.mem_of_find? hc) hgrows
    exact ⟨_, by rw [class?_settle, hc']; rfl, settleClass_growsTo hdecision hgrows⟩
  · intro name q hq
    rw [package?_settle] at hq
    obtain ⟨p, hp, rfl⟩ := Option.map_eq_some_iff.mp hq
    obtain ⟨p', hp', hkeeps⟩ := h.packages name p hp
    refine ⟨settlePackage rules p', by rw [package?_settle, hp']; rfl, hkeeps.name, hkeeps.tags, ?_,
      hkeeps.classNames, fun n hn => (hkeeps.further n hn).imp_right fun hnone => ?_⟩
    · simp only [settlePackage, hides, hkeeps.tags, hkeeps.name, hkeeps.exposure]
      rfl
    · rw [class?_settle, hnone]
      rfl

theorem hasUniqueFields_settle (h : old.HasUniqueFields) : (old.settle rules).HasUniqueFields := by
  intro d hd
  obtain ⟨c, hc, rfl⟩ := mem_classes_settle.mp hd
  have hnames : (settleClass rules old c).fields.map Field.name = c.fields.map Field.name := by
    simp only [settleClass, List.map_map]
    rfl
  rw [hnames]
  exact h c hc

end Surface

/-! ## What a comparison finds -/

namespace Comparison

theorem harmless_of_mem_addedMethod
    {c : ClassDecl} {m : Method} (h : demandsImplementation c m = false) {f : Finding}
    (hf : f ∈ addedMethod c m) : f.issue.defaultSeverity ≠ .error := by
  simp only [addedMethod, h, Change.when, Bool.false_eq_true, if_false, List.map_cons, List.map_nil,
    List.mem_singleton] at hf
  subst hf
  cases hctor : m.isConstructor <;>
    simp [Finding.issue, Change.issue, itemOf, hctor, Issue.defaultSeverity]

/-- A field of a class that has grown is compared with the field that it had been compared with
before. -/
theorem mem_fieldFindings_grown
    {cmp : Comparison} {c : ClassDecl} {constructors methods : List Method} {fields : List Field}
    {f : Finding} (hf : f ∈ cmp.fieldFindings c (c.grown constructors methods fields)) :
    f ∈ { cmp with new := cmp.old }.fieldFindings c c ∨
      ∃ g, f = addedField (c.grown constructors methods fields) g := by
  have hlist : (c.grown constructors methods fields).fields.filter Field.isVisible =
      c.fields.filter Field.isVisible ++ fields.filter Field.isVisible :=
    List.filter_append _ _
  simp only [fieldFindings, hlist, List.mem_append, List.mem_flatMap, List.mem_map] at hf
  rcases hf with ⟨g, hg, hfound⟩ | ⟨g, -, rfl⟩
  · obtain ⟨first, hfirst⟩ : ∃ first,
        (c.fields.filter Field.isVisible).find? (fun x => x.name == g.name) = some first :=
      Option.isSome_iff_exists.mp (List.find?_isSome.mpr ⟨g, hg, beq_self_eq_true _⟩)
    rw [List.find?_append, hfirst] at hfound
    refine .inl (List.mem_append_left _ (List.mem_flatMap.mpr ⟨g, hg, ?_⟩))
    rw [hfirst]
    exact hfound
  · exact .inr ⟨g, rfl⟩

/-- A class that has grown shows additions and unresolved references, and what it shows about the
fields it had. -/
theorem harmless_or_mem_fieldFindings
    {cmp : Comparison} (h : cmp.old.GrowsTo cmp.new) {c c' : ClassDecl} (hgrows : c.GrowsTo c')
    {f : Finding} (hf : f ∈ cmp.compareClasses c c') :
    f.issue.defaultSeverity ≠ .error ∨ f ∈ { cmp with new := cmp.old }.fieldFindings c c := by
  have hchain : cmp.superclassChanges c c' = [] :=
    superclassChanges_eq_nil_iff.mpr fun _ hname => h.superclassChain hgrows hname
  have hinterfaces : (cmp.old.allInterfaces c).without (cmp.new.allInterfaces c') = [] :=
    NameSet.without_eq_nil_iff.mpr fun _ hname => h.allInterfaces hgrows hname
  obtain ⟨constructors, methods, fields, exposure, hfree, rfl, -⟩ := hgrows
  -- no part of a comparison looks at whether the new class is on the surface
  change f ∈ cmp.compareClasses c (c.grown constructors methods fields) at hf
  change cmp.superclassChanges c (c.grown constructors methods fields) = [] at hchain
  change (cmp.old.allInterfaces c).without
    (cmp.new.allInterfaces (c.grown constructors methods fields)) = [] at hinterfaces
  have hdeclaration : declarationChanges c (c.grown constructors methods fields) = [] :=
    declarationChanges_of_eq rfl rfl
  rw [compareClasses, hdeclaration, hchain, interfaceChanges, hinterfaces,
    constructorFindings_grown, methodFindings_grown] at hf
  simp only [List.nil_append, List.append_nil, List.map_nil, List.map_append, List.map_map,
    List.mem_append, List.mem_map, List.mem_flatMap, List.mem_filter, Function.comp_apply] at hf
  rcases hf with ((((⟨_, -, rfl⟩ | ⟨_, -, rfl⟩) | ⟨_, -, rfl⟩) | ⟨m, hm, hf⟩) | ⟨m, hm, hf⟩) | hf
  · exact .inl fun herror => by cases herror
  · exact .inl fun herror => by cases herror
  · exact .inl fun herror => by cases herror
  · exact .inl (harmless_of_mem_addedMethod (hfree m (List.mem_append_left _ hm.1)) hf)
  · exact .inl (harmless_of_mem_addedMethod (hfree m (List.mem_append_right _ hm.1.1)) hf)
  · rcases mem_fieldFindings_grown hf with hsame | ⟨g, rfl⟩
    · exact .inr hsame
    · exact .inl fun herror => by cases herror

theorem severity_default (issue : Issue) :
    ({} : Registry).severity issue = issue.defaultSeverity := by
  cases issue <;> rfl

theorem unresolved?_eq_none_of_severity
    {f : Finding} (h : f.issue.defaultSeverity = .error) : f.unresolved? = none := by
  cases hreference : f.unresolved? with
  | none => rfl
  | some reference =>
    rw [Finding.unresolved?] at hreference
    split at hreference
    · rename_i hchange
      rw [Finding.issue, hchange] at h
      cases h
    · cases hreference

/-- An error that shows after additions shows without them, too. -/
theorem mem_findings_self_of_error
    {cmp : Comparison} (h : cmp.old.GrowsTo cmp.new) {f : Finding} (hf : f ∈ cmp.findings)
    (herror : f.issue.defaultSeverity = .error) :
    f ∈ findings { cmp with new := cmp.old } := by
  cases origin_of_mem_findings hf with
  | removedPackage old new => exact absurd (h.visiblePackages old) new
  | addedPackage _ _ => cases herror
  | @removedClass name c _ old new =>
    obtain ⟨hc, hvisible⟩ := Option.filter_eq_some_iff.mp old
    obtain ⟨_, hc', _, _, _, _, -, -, hvisible'⟩ := h.classes name c hc
    exact absurd (hvisible' hvisible) (Option.filter_eq_none_iff.mp new _ hc')
  | addedClass _ _ _ => cases herror
  | @compared name c c' _ listed old new found =>
    have hc := (Option.filter_eq_some_iff.mp old).1
    obtain ⟨d, hd, hgrows⟩ := h.classes name c hc
    rw [(Option.filter_eq_some_iff.mp new).1] at hd
    cases hd
    have hfield := (harmless_or_mem_fieldFindings h hgrows found).resolve_left fun hne => hne herror
    obtain ⟨package, hpackage, -, hname⟩ := listed
    have hname' : name ∈ (classNames cmp.old package).items :=
      hname.elim id (h.mem_classNames hpackage hc)
    have hlisted : IsListed { cmp with new := cmp.old } name :=
      ⟨package, hpackage, hpackage, .inl hname'⟩
    refine mem_findings_of_isListed hlisted (unresolved?_eq_none_of_severity herror) ?_
    simp only [classFindings, old, compareClasses, List.mem_append]
    exact .inr hfield

theorem mem_report_self_of_error
    {old new : Codebase} (h : old.GrowsTo new) {reference : Option Codebase} {mode : Mode}
    {e : Entry} (he : e ∈ (report { old, new, reference } {} mode).entries)
    (herror : e.severity = .error) :
    e ∈ (report { old, new := old, reference } {} mode).entries := by
  obtain ⟨f, hf, hreported, rfl⟩ := mem_report_iff.mp he
  have hseverity : f.issue.defaultSeverity = .error := by
    rw [← severity_default]
    exact herror
  let cmp : Comparison := { old, new, reference }
  have hself : f ∈ findings { cmp with new := cmp.old } :=
    mem_findings_self_of_error h hf hseverity
  exact mem_report_iff.mpr ⟨f, hself, hreported, rfl⟩

theorem errors_eq_zero_of_growsTo
    {old new : Codebase} (h : old.GrowsTo new) (hunique : old.HasUniqueFields)
    (reference : Option Codebase) (mode : Mode) :
    (report { old, new, reference } {} mode).errors = 0 := by
  refine errors_eq_zero_iff.mpr fun e he herror => ?_
  obtain ⟨f, hf, -, rfl⟩ := mem_report_iff.mp (mem_report_self_of_error h he herror)
  have hissue := unresolved_of_mem_findings_self hunique hf
  rw [Entry.ofFinding, hissue] at herror
  cases herror

/-- Additions bring no error: what counts as one after them counts as one for the old codebase
against itself, and there is none at all where no two fields of a class share a name.  Nor is there
one if both codebases are settled after the additions, provided that nothing was added around the
classes that were there. -/
theorem additions_compatible
    (old new : Codebase) (h : Relation.ReflTransGen Codebase.Addition old new)
    (reference : Option Codebase) (mode : Mode) :
    (∀ e ∈ (report { old, new, reference } {} mode).entries, e.severity = .error →
        e ∈ (report { old, new := old, reference } {} mode).entries) ∧
      (old.HasUniqueFields → (report { old, new, reference } {} mode).errors = 0) ∧
      (old.HasUniqueFields → old.KeepsSurroundings new → ∀ rules : SurfaceRules,
        (report { old := old.settle rules, new := new.settle rules, reference } {} mode).errors =
          0) := by
  have hgrows := Codebase.growsTo_of_additions h
  refine ⟨fun e => mem_report_self_of_error hgrows, fun hunique => ?_,
    fun hunique haround rules => ?_⟩
  · exact errors_eq_zero_of_growsTo hgrows hunique reference mode
  · exact errors_eq_zero_of_growsTo (Surface.settle_growsTo hgrows haround)
      (Surface.hasUniqueFields_settle hunique) reference mode

/-- The interface that `loopClass` implements without its being declared. -/
def missingInterface : ClassDecl :=
  { package := "b", name := "Missing", kind := .interface, modifiers := { isAbstract := true }
    methods := [{ boundedMethod "b.Third" with owner := "b.Missing" }] }

/-- A method that `loopClass` does not have. -/
def furtherMethod : Method :=
  { boundedMethod "b.Third" with modifiers := { access := .pub, isAbstract := true } }

/-- The codebase once the missing interface is declared. -/
def loopResolved : Codebase :=
  { packages := loopOnly.packages.insert (loopOnly.listing missingInterface)
    classes := loopOnly.classes.insert missingInterface }

/-- The codebase once the class has a further method, too. -/
def loopExtended : Codebase :=
  { loopResolved with
    classes := loopResolved.classes.insert
      { loopClass with methods := loopClass.methods ++ [furtherMethod] } }

theorem loopOnly_keepsSurroundings : loopOnly.KeepsSurroundings loopExtended := by
  constructor
  · intro c hc _
    cases List.mem_singleton.mp hc
    rfl
  · intro c hc hnone
    cases List.mem_singleton.mp hc
    cases hnone

theorem loopExtended_compatible :
    Relation.ReflTransGen Codebase.Addition loopOnly loopExtended ∧
      loopOnly.HasUniqueFields ∧ loopOnly.KeepsSurroundings loopExtended ∧
      (report { old := loopOnly, new := loopExtended } {} .released).errors = 0 ∧
      ∀ rules : SurfaceRules,
        (report { old := loopOnly.settle rules, new := loopExtended.settle rules } {}
          .released).errors = 0 := by
  have hresolved : Codebase.Addition loopOnly loopResolved :=
    .declaration (Codebase.addClass_eq_ok.mpr ⟨rfl, rfl⟩)
  have hextended : Codebase.Addition loopResolved loopExtended := by
    have hfound : loopResolved.class? "a.Loop" = some loopClass := rfl
    refine .method hfound ?_ (m := furtherMethod) rfl
    refine ClassDecl.addMethod_eq_ok.mpr ⟨?_, rfl⟩
    decide
  have hadditions := (Relation.ReflTransGen.single hresolved).tail hextended
  obtain ⟨-, hplain, hsettled⟩ := additions_compatible _ _ hadditions none .released
  exact ⟨hadditions, loopOnly_hasUniqueFields, loopOnly_keepsSurroundings,
    hplain loopOnly_hasUniqueFields,
    hsettled loopOnly_hasUniqueFields loopOnly_keepsSurroundings⟩

/-- A class with two fields of one name. -/
def twinClass : ClassDecl :=
  { package := "a", name := "Twin", kind := .ordinary, modifiers := { access := .pub }
    fields := [
      { name := "x", owner := "a.Twin", modifiers := { access := .pub }
        type := TypeRef.named "int" },
      { name := "x", owner := "a.Twin", modifiers := { access := .pub },
        type := TypeRef.named "long" }] }

def twinOnly : Codebase :=
  { packages := ⟨[{ name := "a", classNames := ⟨["a.Twin"], by decide⟩ }], by decide⟩
    classes := ⟨[twinClass], List.pairwise_singleton _ _⟩ }

/-- A nested class without the class around it. -/
def innerClass : ClassDecl :=
  { ClassDecl.declare "a" "Outer.Inner" .ordinary with modifiers := { access := .pub } }

def innerOnly : Codebase :=
  { packages := ⟨[{ name := "a", classNames := ⟨["a.Outer.Inner"], by decide⟩ }], by decide⟩
    classes := ⟨[innerClass], List.pairwise_singleton _ _⟩ }

/-- The codebase once the class around the nested one is declared, too narrow to be shown. -/
def innerEnclosed : Codebase :=
  { packages := innerOnly.packages.insert
      (innerOnly.listing (ClassDecl.declare "a" "Outer" .ordinary))
    classes := innerOnly.classes.insert (ClassDecl.declare "a" "Outer" .ordinary) }

/-- Nothing is above the class, so that it shows what it shows about its fields. -/
theorem compareClasses_twinClass :
    compareClasses { old := twinOnly, new := twinOnly } twinClass twinClass =
      fieldFindings { old := twinOnly, new := twinOnly } twinClass twinClass := by
  have hlinks : ∀ links : ClassDecl → List String, links twinClass = [] →
      Lineage.walkFrom twinOnly links twinClass = [] := by
    intro links hlinks
    rw [Lineage.walkFrom, hlinks, List.map_nil, Lineage.walk]
  have hlineage : twinOnly.lineage twinClass = [] := hlinks _ rfl
  have hsuperclasses : twinOnly.superclasses twinClass = [] := hlinks _ rfl
  simp only [compareClasses, declarationChanges_of_eq, superclassChanges, interfaceChanges,
    Codebase.unresolvedSuperclasses, Codebase.unresolved, Codebase.superclassChain, hlineage,
    hsuperclasses, NameSet.without_self, constructorFindings_self, methodFindings_self]
  rfl

/-- Without unique field names nothing need be added for an error, in either mode: the second field
is compared with the first.  And what is added around a class can take it off the surface, once both
codebases are settled. -/
theorem twinOnly_and_innerEnclosed_incompatible :
    (∀ mode, (report { old := twinOnly, new := twinOnly } {} mode).errors = 1) ∧
      innerOnly.HasUniqueFields ∧ Codebase.Addition innerOnly innerEnclosed ∧
      ∀ mode, (report { old := innerOnly.settle { level := .pub }
                        new := innerEnclosed.settle { level := .pub } } {} mode).errors = 1 := by
  refine ⟨fun mode => ?_, ?_, .declaration (Codebase.addClass_eq_ok.mpr ⟨rfl, rfl⟩), ?_⟩
  · have hfindings : findings { old := twinOnly, new := twinOnly } =
        fieldFindings { old := twinOnly, new := twinOnly } twinClass twinClass := by
      have hpackages : findings { old := twinOnly, new := twinOnly } =
          Finding.dropRepeated []
            (compareClasses { old := twinOnly, new := twinOnly } twinClass twinClass ++ [] ++ []) :=
        rfl
      rw [hpackages, compareClasses_twinClass]
      rfl
    rw [errors_eq_countP, hfindings]
    cases mode <;> rfl
  · intro c hc
    cases List.mem_singleton.mp hc
    decide
  · intro mode
    cases mode <;> decide +kernel

end Comparison

end ApiSurface
