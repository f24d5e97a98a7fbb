import ApiSurface.Proofs.Rendering
import ApiSurface.Signature.Reader.Annotation
import ApiSurface.Signature.Reader.TypeRef
import ApiSurface.Signature.Writer.TypeRef

/-!
# Names with and without their package

Leaving a common package off a name leaves a name, and putting a package in front of a name makes a
name.  An annotation whose name has a dot gets its package back; whether a type does depends on the
type variables in scope where it is read.
-/

namespace ApiSurface

namespace Scan

/-- The end of a name is a name, as far as its characters go. -/
theorem splitName_of_append
    {xs ys : List Char} (h : splitName (xs ++ ys) = (xs ++ ys, [])) : splitName ys = (ys, []) := by
  induction xs with
  | nil => exact h
  | cons c xs ih =>
    simp only [List.cons_append, splitName] at h
    split at h
    · simp only [Prod.mk.injEq, List.cons.injEq, true_and] at h
      exact ih (Prod.ext h.1 h.2)
    · simp at h

/-- Behind a dot in a name stands the start of another name. -/
theorem startsName_of_dot
    {ys : List Char} (h : splitName ('.' :: ys) = ('.' :: ys, [])) :
    ys.head?.any startsName = true := by
  rw [splitName] at h
  split at h
  · rename_i hcond
    have hdot : continuesName '.' = false := by decide
    simpa [hdot] using hcond
  · simp at h

theorem isName_of_dot
    {name : String} {xs ys : List Char} (h : IsName name) (hname : name.toList = xs ++ '.' :: ys) :
    IsName (String.ofList ys) := by
  obtain ⟨c, cs, hsource, -, hsplit⟩ := isName_iff.mp h
  rw [← hsource, hname] at hsplit
  have hdot := splitName_of_append hsplit
  have hbehind : splitName ys = (ys, []) := by
    have hcons : splitName (['.'] ++ ys) = (['.'] ++ ys, []) := hdot
    exact splitName_of_append hcons
  have hstart := startsName_of_dot hdot
  cases ys with
  | nil => cases hstart
  | cons d ds => exact isName_iff.mpr ⟨d, ds, by simp, by simpa using hstart, hbehind⟩

/-- Two names with a dot between them make a name. -/
theorem IsName.dot
    {package simple : String} (hpackage : IsName package) (hsimple : IsName simple) :
    IsName (package ++ "." ++ simple) := by
  obtain ⟨c, cs, hsource, hstart, hsplit⟩ := isName_iff.mp hpackage
  obtain ⟨d, ds, hsource', hstart', hsplit'⟩ := isName_iff.mp hsimple
  have hjoin : ∀ xs : List Char, splitName xs = (xs, []) →
      splitName (xs ++ '.' :: d :: ds) = (xs ++ '.' :: d :: ds, []) := by
    intro xs hxs
    induction xs with
    | nil => simp [splitName.eq_def ('.' :: d :: ds), hstart', hsplit']
    | cons x xs ih =>
      simp only [List.cons_append, splitName] at hxs ⊢
      split at hxs
      · rename_i hcond
        simp only [Prod.mk.injEq, List.cons.injEq, true_and] at hxs
        have hrec := ih (Prod.ext hxs.1 hxs.2)
        have hcond' : (continuesName x ||
            x == '.' && (xs ++ '.' :: d :: ds).head?.any startsName) = true := by
          cases xs with
          | nil =>
            simp only [List.head?_nil, Option.any_none, Bool.and_false, Bool.or_false] at hcond
            simp [hcond]
          | cons y ys => exact hcond
        rw [if_pos hcond', hrec]
      · simp at hxs
  refine isName_iff.mpr ⟨c, cs ++ '.' :: d :: ds, ?_, hstart, hjoin (c :: cs) hsplit⟩
  simp [String.toList_append, hsource, hsource']

theorem IsName.ne_wildcard {name : String} (h : IsName name) : name ≠ "?" := by
  rintro rfl
  obtain ⟨c, cs, hsource, hstart, -⟩ := isName_iff.mp h
  cases hsource
  exact absurd hstart (by decide)

end Scan

namespace Signature

open Scan (IsName)

namespace CommonPackages

/-- Both lists name a package at least, and name packages only. -/
structure IsProper (common : CommonPackages) : Prop where
  types_ne_nil : common.types ≠ []
  annotations_ne_nil : common.annotations ≠ []
  types_isName : ∀ p ∈ common.types, IsName p
  annotations_isName : ∀ p ∈ common.annotations, IsName p

/-- A package is left off a name exactly if a simple name stands behind it which is qualified to the
name. -/
theorem shortenBy?_eq_some_iff
    {common : CommonPackages} {kind : NameKind} {name package short : String} :
    common.shortenBy? kind name package = some short ↔
      name = package ++ "." ++ short ∧ short ≠ "" ∧ '.' ∉ short.toList ∧
        common.qualify kind short = name := by
  rw [shortenBy?]
  constructor
  · intro h
    split at h
    · cases h
    · rename_i rest hafter
      split at h
      · rename_i hsimple
        cases h
        simp only [Bool.and_eq_true, Bool.not_eq_true', List.isEmpty_eq_false_iff,
          List.contains_eq_mem, decide_eq_false_iff_not, beq_iff_eq] at hsimple
        obtain ⟨⟨hne, hdot⟩, hback⟩ := hsimple
        refine ⟨String.toList_inj.mp ?_, by simpa using hne, by simpa using hdot, hback⟩
        rw [Text.after?_eq_some hafter, String.toList_append (s := package ++ "."),
          String.toList_ofList]
      · cases h
  · rintro ⟨hname, hne, hdot, hback⟩
    have hafter : Text.after? (package ++ ".").toList name.toList = some short.toList := by
      rw [hname, String.toList_append (s := package ++ ".")]
      exact Text.after?_append _ _
    rw [hafter]
    simp [hne, hdot, hback]

/-- A name is kept, or loses a package that can be put back. -/
theorem shorten_cases (common : CommonPackages) (kind : NameKind) (name : String) :
    common.shorten kind name = name ∨
      ∃ xs ys, name.toList = xs ++ '.' :: ys ∧ common.shorten kind name = String.ofList ys ∧
        '.' ∉ ys ∧ common.qualify kind (String.ofList ys) = name := by
  rw [shorten]
  cases hshort : (common.candidates kind).findSome? (common.shortenBy? kind name) with
  | none => exact .inl rfl
  | some short =>
    obtain ⟨package, -, hby⟩ := List.exists_of_findSome?_eq_some hshort
    obtain ⟨hname, -, hdot, hback⟩ := shortenBy?_eq_some_iff.mp hby
    refine .inr ⟨package.toList, short.toList, ?_, String.ofList_toList.symm, hdot, ?_⟩
    · rw [hname]
      simp [String.toList_append]
    · rw [String.ofList_toList, hback]

theorem isName_shorten
    {common : CommonPackages} {kind : NameKind} {name : String} (h : IsName name) :
    IsName (common.shorten kind name) := by
  rcases common.shorten_cases kind name with hkept | ⟨xs, ys, hname, hshort, -, -⟩
  · rwa [hkept]
  · rw [hshort]
    exact Scan.isName_of_dot h hname

theorem qualify_of_isProper
    {common : CommonPackages} (h : common.IsProper) (kind : NameKind) {simple : String}
    (hsimple : IsName simple) :
    IsName (common.qualify kind simple) ∧ '.' ∈ (common.qualify kind simple).toList := by
  have hhome : ∃ package, common.home? kind simple = some package ∧ IsName package := by
    cases kind with
    | type =>
      obtain ⟨p, ps, hp⟩ := List.exists_cons_of_ne_nil h.types_ne_nil
      exact ⟨p, by rw [home?, hp]; rfl, h.types_isName p (by rw [hp]; exact List.mem_cons_self)⟩
    | annotationType =>
      rw [home?]
      split
      · exact ⟨_, rfl, by decide⟩
      · obtain ⟨p, ps, hp⟩ := List.exists_cons_of_ne_nil h.annotations_ne_nil
        exact ⟨p, by rw [hp]; rfl, h.annotations_isName p (by rw [hp]; exact List.mem_cons_self)⟩
  obtain ⟨package, hpackage, hname⟩ := hhome
  rw [qualify, hpackage]
  exact ⟨hname.dot hsimple, by simp [String.toList_append]⟩

end CommonPackages

/-- The packages that may be left off, if there are any, are proper. -/
def AreProper (common : Option CommonPackages) : Prop :=
  ∀ packages ∈ common, packages.IsProper

/-! ## Annotations -/

/-- The name of an annotation that is restored wherever it is read. -/
structure IsAnnotationName (common : Option CommonPackages) (name : String) : Prop where
  isName : IsName name
  dotted : common.isSome = true → '.' ∈ name.toList

/-- A text that is written with some settings and read with others: both follow the same
conventions, and nothing is left out. -/
structure Agree (s : WriteSettings) (r : ReadSettings) : Prop where
  annotations : s.capabilities.annotations = true
  parameterNames : s.capabilities.parameterNames = true
  defaultValues : s.defaultValues = true
  kotlinNulls : s.kotlinNulls = r.kotlinNulls
  common : s.omitted = r.common

theorem isName_annotationName
    {s : WriteSettings} {name : String} (h : IsName name) : IsName (s.annotationName name) := by
  rw [WriteSettings.annotationName]
  split
  · exact CommonPackages.isName_shorten h
  · exact h

theorem isName_typeName
    {s : WriteSettings} {name : String} (h : IsName name) : IsName (s.typeName name) := by
  rw [WriteSettings.typeName]
  split
  · exact CommonPackages.isName_shorten h
  · exact h

namespace Source

/-- An annotation gets its package back. -/
theorem annotationName_annotationName
    {s : WriteSettings} {src : Source} (hagree : Agree s src.settings) {name : String}
    (h : IsAnnotationName src.settings.common name) :
    src.annotationName (s.annotationName name) = name := by
  rw [annotationName, WriteSettings.annotationName, hagree.common]
  cases hcommon : src.settings.common with
  | none => rfl
  | some common =>
    have hdot := h.dotted (by rw [hcommon]; rfl)
    rcases common.shorten_cases .annotationType name with hkept | ⟨xs, ys, -, hshort, hnone, hback⟩
    · simp [hkept, hdot]
    · simp [hshort, hnone, hback]

/-- The full name of an annotation that was read. -/
theorem isAnnotationName_annotationName
    {src : Source} (hproper : AreProper src.settings.common) {name : String}
    (h : IsName name) : IsAnnotationName src.settings.common (src.annotationName name) := by
  rw [annotationName]
  cases hcommon : src.settings.common with
  | none => exact ⟨h, by simp⟩
  | some common =>
    simp only
    split
    · rename_i hdot
      exact ⟨h, fun _ => by simpa using hdot⟩
    · have hqualified :=
        CommonPackages.qualify_of_isProper (hproper common hcommon) .annotationType h
      exact ⟨hqualified.1, fun _ => hqualified.2⟩

/-- The full name of a type that was read. -/
theorem isName_typeName
    {src : Source} (hproper : AreProper src.settings.common) {name : String}
    (h : IsName name) : IsName (src.typeName name) := by
  rw [typeName]
  split
  · exact h
  · rename_i common hcommon
    split
    · exact h
    · exact (CommonPackages.qualify_of_isProper (hproper common hcommon) .type h).1

end Source

end Signature
end ApiSurface
