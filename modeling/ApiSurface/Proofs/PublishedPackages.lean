import ApiSurface.Proofs.Reporting
import ApiSurface.Signature.Writer.Codebase
import ApiSurface.Surface

/-!
# Packages written and packages compared

Signature text shows a package as soon as one of its classes is on the surface.  A comparison looks
at a package only if the package itself is on the surface too.  Once a codebase is settled the two
differ exactly at packages that are hidden or removed and hold a class on the surface, which is
there because a rule shows it.
-/

namespace ApiSurface

def Report.ListsRemoval (r : Report) (package : String) : Prop :=
  ∃ e ∈ r.entries, e.issue = .removedPackage ∧ e.location = { package }

namespace Signature
namespace WriteSettings

/-- A package leaves a trace in the text if and only if the view shows one of its classes. -/
theorem packageText_ne_empty_iff
    {s : WriteSettings} {cb : Codebase} {p : Package} :
    s.packageText cb p ≠ "" ↔ ∃ c ∈ cb.classesIn p, s.view.showsClass c = true := by
  cases hshown : (cb.classesIn p).filter s.view.showsClass with
  | nil =>
    have hnone := List.filter_eq_nil_iff.mp hshown
    simp only [packageText, hshown, ne_eq, not_true, false_iff]
    rintro ⟨c, hc, hcs⟩
    exact hnone c hc hcs
  | cons c others =>
    have hmem : c ∈ (cb.classesIn p).filter s.view.showsClass := by simp [hshown]
    have hc := List.mem_filter.mp hmem
    constructor
    · intro _
      exact ⟨c, hc.1, hc.2⟩
    · intro _ hempty
      have hlength := congrArg String.length hempty
      simp [packageText, hshown, String.length_append] at hlength

end WriteSettings
end Signature

namespace Comparison

theorem not_mem_visiblePackages_empty (name : String) : name ∉ (visiblePackages ∅).items := by
  have hitems : (visiblePackages ∅).items = [] := rfl
  simp [hitems]

/-- Compared with nothing, exactly the packages on the surface are listed as removed. -/
theorem listsRemoval_iff_visible
    (cb : Codebase) (mode : Mode) (name : String) :
    (report { old := cb, new := ∅ } {} mode).ListsRemoval name ↔
      name ∈ (visiblePackages cb).items := by
  let cmp : Comparison := { old := cb, new := ∅ }
  have hfindings : ∀ package ∈ (visiblePackages cb).items,
      cmp.packageFindings package =
        [⟨{ package }, .package, .removed false package⟩] := by
    intro package hpackage
    have hold : (visiblePackages cmp.old).contains package = true :=
      NameSet.contains_iff_mem.mpr hpackage
    have hnew : (visiblePackages cmp.new).contains package = false := rfl
    simp only [packageFindings, hold, hnew]
  constructor
  · rintro ⟨e, he, -, hlocation⟩
    obtain ⟨f, hf, -, rfl⟩ := mem_report_iff.mp he
    obtain ⟨package, hpackage, hfp⟩ :=
      List.mem_flatMap.mp (Finding.mem_of_mem_dropRepeated hf)
    have hvisible : package ∈ (visiblePackages cb).items := by
      rcases NameSet.mem_union_iff.mp hpackage with h | h
      · exact h
      · exact absurd h (not_mem_visiblePackages_empty package)
    rw [hfindings package hvisible, List.mem_singleton] at hfp
    subst hfp
    have hname : package = name := congrArg Location.package hlocation
    exact hname ▸ hvisible
  · intro hname
    let f : Finding := ⟨{ package := name }, .package, .removed false name⟩
    have hf : f ∈ cmp.findings := by
      refine (mem_findings_iff rfl).mpr ⟨name, .inl hname, ?_⟩
      rw [hfindings name hname]
      exact List.mem_singleton_self _
    have hreported : isReported {} mode f.issue = true := by
      cases mode <;> rfl
    exact ⟨Entry.ofFinding {} f, mem_report_iff.mpr ⟨f, hf, hreported, rfl⟩, rfl, rfl⟩

end Comparison

namespace Surface

open Signature (WriteSettings)

theorem settlePackage_visible_iff
    {rules : SurfaceRules} {p : Package} :
    (settlePackage rules p).exposure.lifecycle = .visible ↔
      p.tags.removed = false ∧ hides rules p = false := by
  cases hremoved : p.tags.removed with
  | true => simp [settlePackage, hremoved]
  | false =>
    cases hhides : hides rules p with
    | true => simp [settlePackage, hremoved, hhides]
    | false => simp [settlePackage, hremoved, hhides]

/-- A settled package is listed as removed if it is written and on the surface itself. -/
theorem listsRemoval_settle_iff
    (cb : Codebase) (rules : SurfaceRules) (mode : Mode) (s : WriteSettings)
    {p : Package} (hp : p ∈ cb.packages.items) :
    (Comparison.report { old := cb.settle rules, new := ∅ } {} mode).ListsRemoval p.name ↔
      ({ s with view := .live }).packageText (cb.settle rules) (settlePackage rules p) ≠ "" ∧
        p.tags.removed = false ∧ hides rules p = false := by
  rw [Comparison.listsRemoval_iff_visible, Comparison.mem_visiblePackages_iff,
    WriteSettings.packageText_ne_empty_iff, ← settlePackage_visible_iff]
  constructor
  · rintro ⟨q, hq, hname, hvisible, hclass⟩
    have hsettled : settlePackage rules p ∈ (cb.settle rules).packages.items :=
      List.mem_map_of_mem hp
    have hqp : q = settlePackage rules p := Catalog.eq_of_key_eq hq hsettled hname
    subst hqp
    exact ⟨hclass, hvisible⟩
  · rintro ⟨hclass, hvisible⟩
    exact ⟨settlePackage rules p, List.mem_map_of_mem hp, rfl, hvisible, hclass⟩

/-- The packages written in the live view are those that a comparison with nothing lists as
removed, if and only if no package that is hidden or removed holds a class on the surface. -/
theorem written_iff_listsRemoval_iff
    (cb : Codebase) (rules : SurfaceRules) (mode : Mode) (s : WriteSettings) :
    (∀ p ∈ (cb.settle rules).packages.items,
      ({ s with view := .live }).packageText (cb.settle rules) p ≠ "" ↔
        (Comparison.report { old := cb.settle rules, new := ∅ } {} mode).ListsRemoval p.name) ↔
      ∀ p ∈ cb.packages.items, p.tags.removed = true ∨ hides rules p = true →
        ∀ c ∈ (cb.settle rules).classesIn p, c.isVisible = false := by
  constructor
  · intro hagree p hp hoff c hc
    by_contra hvisible
    have hshown : Signature.View.live.showsClass c = true := by
      simpa [Signature.View.showsClass] using hvisible
    have hwritten :
        ({ s with view := .live }).packageText (cb.settle rules) (settlePackage rules p) ≠ "" :=
      WriteSettings.packageText_ne_empty_iff.mpr ⟨c, hc, hshown⟩
    have hlisted := (hagree _ (List.mem_map_of_mem hp)).mp hwritten
    obtain ⟨-, hremoved, hhides⟩ := (listsRemoval_settle_iff cb rules mode s hp).mp hlisted
    rcases hoff with h | h
    · rw [hremoved] at h
      cases h
    · rw [hhides] at h
      cases h
  · rintro honly q hq
    obtain ⟨p, hp, rfl⟩ := List.mem_map.mp hq
    have hiff := listsRemoval_settle_iff cb rules mode s hp
    constructor
    · intro hwritten
      refine hiff.mpr ⟨hwritten, ?_⟩
      obtain ⟨c, hc, hshown⟩ := WriteSettings.packageText_ne_empty_iff.mp hwritten
      have hvisible : c.isVisible = true := hshown
      by_contra hoff
      have hone : p.tags.removed = true ∨ hides rules p = true := by
        cases hremoved : p.tags.removed with
        | true => exact .inl rfl
        | false =>
          cases hhides : hides rules p with
          | true => exact .inr rfl
          | false => exact absurd ⟨hremoved, hhides⟩ hoff
      rw [honly p hp hone c hc] at hvisible
      cases hvisible
    · intro hlisted
      exact (hiff.mp hlisted).1

def annotatedClass : Codebase :=
  { packages := ⟨[{ name := "a", classNames := ⟨["a.Foo"], by decide⟩ }], by decide⟩
    classes := ⟨[{ package := "a", name := "Foo", kind := .ordinary, modifiers := { access := .pub }
                   annotations := [{ name := "b.Show" }] }], by decide⟩ }

/-- Rules that hide the package and show the class. -/
def hidingShowing : SurfaceRules :=
  { hidePackages := ["a"], showAnnotations := ["b.Show"] }

/-- The class is written, and yet its package is not compared. -/
theorem annotatedClass_written_unlisted :
    ∃ p ∈ (annotatedClass.settle hidingShowing).packages.items,
      (∃ s, Signature.WriteOptions.resolve {} = .ok s ∧
        s.packageText (annotatedClass.settle hidingShowing) p ≠ "") ∧
      ¬ (Comparison.report { old := annotatedClass.settle hidingShowing, new := ∅ } {}
          .current).ListsRemoval p.name := by
  let p : Package := { name := "a", classNames := ⟨["a.Foo"], by decide⟩ }
  have hp : p ∈ annotatedClass.packages.items := List.mem_singleton_self _
  have hvisible : ((annotatedClass.settle hidingShowing).classesIn p).any ClassDecl.isVisible := by
    cbv
  have hhides : hides hidingShowing p = true := by cbv
  refine ⟨settlePackage hidingShowing p, List.mem_map_of_mem hp, ⟨_, rfl, ?_⟩, ?_⟩
  · obtain ⟨c, hc, hcv⟩ := List.any_eq_true.mp hvisible
    exact WriteSettings.packageText_ne_empty_iff.mpr ⟨c, hc, hcv⟩
  · intro hlisted
    have hcompared := (Comparison.mem_visiblePackages_iff.mp
      ((Comparison.listsRemoval_iff_visible _ _ _).mp hlisted))
    obtain ⟨q, hq, hname, hlive, -⟩ := hcompared
    have hqp : q = settlePackage hidingShowing p :=
      Catalog.eq_of_key_eq hq (List.mem_map_of_mem hp) hname
    rw [hqp, settlePackage_visible_iff, hhides] at hlive
    cases hlive.2

end Surface

end ApiSurface
