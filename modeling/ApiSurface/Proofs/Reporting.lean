import ApiSurface.Proofs.Catalog
import ApiSurface.Proofs.Findings
import Mathlib.Data.List.Basic

/-!
# What a report lists

An entry of a report stands for a finding that the mode and the registry let through.  Sorting by
place loses nothing, and of the findings only repeated unresolved references are dropped, so the
entries about everything else are those of the packages on either surface.
-/

namespace ApiSurface

namespace Finding

theorem mem_dropRepeated_iff
    {f : Finding} (hf : f.unresolved? = none) {met : List Unresolved} {fs : List Finding} :
    f ∈ dropRepeated met fs ↔ f ∈ fs := by
  induction fs generalizing met with
  | nil => simp [dropRepeated]
  | cons g fs ih =>
    cases hg : g.unresolved? with
    | none => simp [dropRepeated, hg, ih]
    | some reference =>
      have hne : f ≠ g := by
        rintro rfl
        rw [hf] at hg
        cases hg
      by_cases hmet : reference ∈ met
      · simp [dropRepeated, hg, hmet, hne, ih]
      · simp [dropRepeated, hg, hmet, hne, ih]

theorem mem_of_mem_dropRepeated
    {f : Finding} {met : List Unresolved} {fs : List Finding} (h : f ∈ dropRepeated met fs) :
    f ∈ fs := by
  induction fs generalizing met with
  | nil => simp [dropRepeated] at h
  | cons g fs ih =>
    simp only [dropRepeated] at h
    split at h
    · rcases List.mem_cons.mp h with rfl | h
      · exact List.mem_cons_self
      · exact List.mem_cons_of_mem _ (ih h)
    · split at h
      · exact List.mem_cons_of_mem _ (ih h)
      · rcases List.mem_cons.mp h with rfl | h
        · exact List.mem_cons_self
        · exact List.mem_cons_of_mem _ (ih h)

end Finding

namespace Comparison

theorem mem_visiblePackages_iff
    {cb : Codebase} {name : String} :
    name ∈ (visiblePackages cb).items ↔
      ∃ p ∈ cb.packages.items, p.name = name ∧ p.exposure.lifecycle = .visible ∧
        ∃ c ∈ cb.classesIn p, c.isVisible = true := by
  rw [visiblePackages, NameSet.mem_ofList_iff, List.mem_map]
  constructor
  · rintro ⟨p, hp, rfl⟩
    obtain ⟨hmem, hcond⟩ := List.mem_filter.mp hp
    simp only [Bool.and_eq_true, beq_iff_eq, List.any_eq_true] at hcond
    exact ⟨p, hmem, rfl, hcond.1, hcond.2⟩
  · rintro ⟨p, hmem, rfl, hvisible, c, hc, hcv⟩
    refine ⟨p, List.mem_filter.mpr ⟨hmem, ?_⟩, rfl⟩
    simp only [Bool.and_eq_true, beq_iff_eq, List.any_eq_true]
    exact ⟨hvisible, c, hc, hcv⟩

/-- A finding other than an unresolved reference is made in a package on one of the surfaces. -/
theorem mem_findings_iff
    {cmp : Comparison} {f : Finding} (hf : f.unresolved? = none) :
    f ∈ cmp.findings ↔
      ∃ name, (name ∈ (visiblePackages cmp.old).items ∨ name ∈ (visiblePackages cmp.new).items) ∧
        f ∈ cmp.packageFindings name := by
  rw [findings, Finding.mem_dropRepeated_iff hf, List.mem_flatMap]
  simp only [NameSet.mem_union_iff]

theorem mem_report_iff
    {cmp : Comparison} {registry : Registry} {mode : Mode} {e : Entry} :
    e ∈ (cmp.report registry mode).entries ↔
      ∃ f ∈ cmp.findings, isReported registry mode f.issue = true ∧
        Entry.ofFinding registry f = e := by
  simp only [report_eq, Report.ofEntries, List.mem_mergeSort, List.mem_map, List.mem_filter]
  constructor
  · rintro ⟨f, ⟨hf, hr⟩, he⟩
    exact ⟨f, hf, hr, he⟩
  · rintro ⟨f, hf, hr, he⟩
    exact ⟨f, ⟨hf, hr⟩, he⟩

theorem errors_eq_countP (cmp : Comparison) (registry : Registry) (mode : Mode) :
    (cmp.report registry mode).errors =
      cmp.findings.countP fun f =>
        isReported registry mode f.issue && registry.severity f.issue == .error := by
  simp only [report_eq, Report.ofEntries, (List.mergeSort_perm _ _).countP_eq, List.countP_map,
    List.countP_filter, Function.comp_def, Entry.ofFinding, Bool.and_comm]

theorem errors_eq_zero_iff
    {cmp : Comparison} {registry : Registry} {mode : Mode} :
    (cmp.report registry mode).errors = 0 ↔
      ∀ e ∈ (cmp.report registry mode).entries, e.severity ≠ .error := by
  simp only [report_eq, Report.ofEntries, List.countP_eq_zero, beq_iff_eq, ne_eq]

/-- The name is that of a class in a package on both surfaces. -/
def IsListed (cmp : Comparison) (name : String) : Prop :=
  ∃ package, package ∈ (visiblePackages cmp.old).items ∧
    package ∈ (visiblePackages cmp.new).items ∧
    (name ∈ (classNames cmp.old package).items ∨ name ∈ (classNames cmp.new package).items)

/-- What a finding is about: a package or a class on one surface only, or classes of one name on
both. -/
inductive Origin (cmp : Comparison) : Finding → Prop where
  | removedPackage {name : String} (old : name ∈ (visiblePackages cmp.old).items)
      (new : name ∉ (visiblePackages cmp.new).items) :
      Origin cmp ⟨{ package := name }, .package, .removed false name⟩
  | addedPackage {name : String} (old : name ∉ (visiblePackages cmp.old).items)
      (new : name ∈ (visiblePackages cmp.new).items) :
      Origin cmp ⟨{ package := name }, .package, .added name⟩
  | removedClass {name : String} {c : ClassDecl} (listed : cmp.IsListed name)
      (old : (cmp.old.class? name).filter ClassDecl.isVisible = some c)
      (new : (cmp.new.class? name).filter ClassDecl.isVisible = none) :
      Origin cmp (removedClass c)
  | addedClass {name : String} {c : ClassDecl} (listed : cmp.IsListed name)
      (old : (cmp.old.class? name).filter ClassDecl.isVisible = none)
      (new : (cmp.new.class? name).filter ClassDecl.isVisible = some c) :
      Origin cmp (addedClass c)
  | compared {name : String} {c c' : ClassDecl} {f : Finding} (listed : cmp.IsListed name)
      (old : (cmp.old.class? name).filter ClassDecl.isVisible = some c)
      (new : (cmp.new.class? name).filter ClassDecl.isVisible = some c')
      (found : f ∈ cmp.compareClasses c c') : Origin cmp f

theorem origin_of_mem_classFindings
    {cmp : Comparison} {name : String} (hlisted : cmp.IsListed name) {f : Finding}
    (h : f ∈ cmp.classFindings name) : cmp.Origin f := by
  rw [classFindings] at h
  split at h
  · rename_i hold hnew
    exact .compared hlisted hold hnew h
  · rename_i hold hnew
    cases List.mem_singleton.mp h
    exact .removedClass hlisted hold hnew
  · rename_i hold hnew
    cases List.mem_singleton.mp h
    exact .addedClass hlisted hold hnew
  · cases h

/-- What is found about a class of a package on both surfaces is among the findings of packages. -/
theorem mem_packageFindings_iff
    {cmp : Comparison} {package : String} (hold : package ∈ (visiblePackages cmp.old).items)
    (hnew : package ∈ (visiblePackages cmp.new).items) {f : Finding} :
    f ∈ cmp.packageFindings package ↔
      ∃ name, (name ∈ (classNames cmp.old package).items ∨
        name ∈ (classNames cmp.new package).items) ∧ f ∈ cmp.classFindings name := by
  simp only [packageFindings, NameSet.contains_iff_mem.mpr hold, NameSet.contains_iff_mem.mpr hnew,
    List.mem_flatMap, NameSet.mem_union_iff]

theorem origin_of_mem_findings
    {cmp : Comparison} {f : Finding} (h : f ∈ cmp.findings) : cmp.Origin f := by
  obtain ⟨package, hunion, hpackage⟩ := List.mem_flatMap.mp (Finding.mem_of_mem_dropRepeated h)
  have heither := NameSet.mem_union_iff.mp hunion
  by_cases hold : package ∈ (visiblePackages cmp.old).items
  · by_cases hnew : package ∈ (visiblePackages cmp.new).items
    · obtain ⟨name, hname, hfound⟩ := (mem_packageFindings_iff hold hnew).mp hpackage
      exact origin_of_mem_classFindings ⟨package, hold, hnew, hname⟩ hfound
    · have hcontains := NameSet.contains_iff_mem.mpr hold
      have hmisses : (visiblePackages cmp.new).contains package = false := by
        simpa [← NameSet.contains_iff_mem] using hnew
      simp only [packageFindings, hcontains, hmisses, List.mem_singleton] at hpackage
      cases hpackage
      exact .removedPackage hold hnew
  · have hnew := heither.resolve_left hold
    have hcontains := NameSet.contains_iff_mem.mpr hnew
    have hmisses : (visiblePackages cmp.old).contains package = false := by
      simpa [← NameSet.contains_iff_mem] using hold
    simp only [packageFindings, hcontains, hmisses, List.mem_singleton] at hpackage
    cases hpackage
    exact .addedPackage hold hnew

/-- What is found about a listed class is among the findings, unless it repeats a reference. -/
theorem mem_findings_of_isListed
    {cmp : Comparison} {name : String} (hlisted : cmp.IsListed name)
    {f : Finding} (hf : f.unresolved? = none) (hfound : f ∈ cmp.classFindings name) :
    f ∈ cmp.findings := by
  obtain ⟨package, hold, hnew, hname⟩ := hlisted
  exact (mem_findings_iff hf).mpr
    ⟨package, .inl hold, (mem_packageFindings_iff hold hnew).mpr ⟨name, hname, hfound⟩⟩

end Comparison

end ApiSurface
