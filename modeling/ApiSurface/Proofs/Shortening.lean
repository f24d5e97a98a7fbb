import ApiSurface.Proofs.RoundTrip.Annotation

/-!
# Shortening and qualifying names

Leaving off a common package and putting it back are inverse to each other, whatever packages are
common: they may be repeated, may be part of each other and may be empty.  A name is only shortened
to a simple name of which qualifying gives the name back.  A qualified simple name is found behind
its package, and as it holds no dot it cannot be found behind another one in a different way.
-/

namespace ApiSurface
namespace Signature
namespace CommonPackages

variable {common : CommonPackages} {kind : NameKind}

/-- A name that is not kept loses one of the packages that may be left off. -/
theorem exists_shortenBy?_of_shorten_ne {name : String} (h : common.shorten kind name ≠ name) :
    ∃ package ∈ common.candidates kind,
      common.shortenBy? kind name package = some (common.shorten kind name) := by
  rw [shorten] at h ⊢
  cases hfound : (common.candidates kind).findSome? (common.shortenBy? kind name) with
  | none =>
    rw [hfound] at h
    exact absurd rfl h
  | some short => exact List.exists_of_findSome?_eq_some hfound

/-- The package that is put back in front of a name is one that may be left off. -/
theorem mem_candidates_of_home? {simple package : String}
    (h : common.home? kind simple = some package) : package ∈ common.candidates kind := by
  cases kind with
  | type => exact List.mem_of_mem_head? h
  | annotationType =>
    rw [home?] at h
    split at h
    · cases h
      exact List.mem_append_right _ List.mem_cons_self
    · exact List.mem_append_left _ (List.mem_of_mem_head? h)

/-- What stands behind the last dot of a name does not depend on how the name is cut. -/
theorem eq_of_append_dot
    {package package' short short' : String} (hdot : '.' ∉ short.toList)
    (hdot' : '.' ∉ short'.toList) (h : package ++ "." ++ short = package' ++ "." ++ short') :
    short = short' := by
  have hcut : ∀ {p x : String}, '.' ∉ x.toList →
      Text.splitLast '.' (p ++ "." ++ x).toList = some (p.toList, x.toList) := by
    intro p x hx
    rw [String.toList_append, String.toList_append, List.append_assoc]
    exact splitLast_append '.' p.toList hx
  have hboth := hcut (p := package) hdot
  rw [h, hcut hdot'] at hboth
  exact (String.toList_inj.mp (Prod.mk.inj (Option.some.inj hboth)).2).symm

/-- A name without a dot has no package to leave off. -/
theorem shorten_of_dot_not_mem {name : String} (h : '.' ∉ name.toList) :
    common.shorten kind name = name := by
  by_contra hne
  obtain ⟨package, -, hby⟩ := exists_shortenBy?_of_shorten_ne hne
  obtain ⟨hname, -⟩ := shortenBy?_eq_some_iff.mp hby
  rw [hname] at h
  simp [String.toList_append] at h

/-- A package that can be left off a name decides what is left, whatever packages come before it. -/
theorem shorten_eq_of_shortenBy?
    {name package short : String} (hpackage : package ∈ common.candidates kind)
    (hby : common.shortenBy? kind name package = some short) :
    common.shorten kind name = short := by
  obtain ⟨hname, -, hdot, -⟩ := shortenBy?_eq_some_iff.mp hby
  rw [shorten]
  cases hfound : (common.candidates kind).findSome? (common.shortenBy? kind name) with
  | none =>
    rw [List.findSome?_eq_none_iff] at hfound
    rw [hfound package hpackage] at hby
    cases hby
  | some short' =>
    -- The package that is found may be another one, but the simple name behind it is the same.
    obtain ⟨package', -, hby'⟩ := List.exists_of_findSome?_eq_some hfound
    obtain ⟨hname', -, hdot', -⟩ := shortenBy?_eq_some_iff.mp hby'
    exact eq_of_append_dot hdot' hdot (hname'.symm.trans hname)

/-- A simple name is found again behind the package that was put back. -/
theorem shorten_qualify {simple : String} (hne : simple ≠ "") (hdot : '.' ∉ simple.toList) :
    common.shorten kind (common.qualify kind simple) = simple := by
  cases hhome : common.home? kind simple with
  | none =>
    have hsame : common.qualify kind simple = simple := by rw [qualify, hhome]
    rw [hsame]
    exact shorten_of_dot_not_mem hdot
  | some package =>
    have hname : common.qualify kind simple = package ++ "." ++ simple := by rw [qualify, hhome]
    apply shorten_eq_of_shortenBy? (mem_candidates_of_home? hhome)
    exact shortenBy?_eq_some_iff.mpr ⟨hname, hne, hdot, rfl⟩

/-- A name that is not kept is restored from the simple name that is left of it. -/
theorem qualify_shorten {name : String} (h : common.shorten kind name ≠ name) :
    common.shorten kind name ≠ "" ∧ '.' ∉ (common.shorten kind name).toList ∧
      common.qualify kind (common.shorten kind name) = name := by
  obtain ⟨package, -, hby⟩ := exists_shortenBy?_of_shorten_ne h
  exact (shortenBy?_eq_some_iff.mp hby).2

/-- Shortening and qualifying are inverse to each other: a name that is not kept is shortened to a
simple name and restored from it, and every simple name is found again in its qualified name.  So no
two names are shortened to one text, unless it is one of the two. -/
theorem shorten_inverse_qualify (common : CommonPackages) (kind : NameKind) :
    (∀ name, common.shorten kind name ≠ name →
        common.shorten kind name ≠ "" ∧ '.' ∉ (common.shorten kind name).toList ∧
          common.qualify kind (common.shorten kind name) = name) ∧
      (∀ simple, simple ≠ "" → '.' ∉ simple.toList →
        common.shorten kind (common.qualify kind simple) = simple) ∧
      ∀ name name' text, name ≠ name' → common.shorten kind name = text →
        common.shorten kind name' = text → text = name ∨ text = name' := by
  refine ⟨fun name => qualify_shorten, fun simple => shorten_qualify, ?_⟩
  intro name name' text hne h h'
  by_contra hneither
  obtain ⟨hname, hname'⟩ := not_or.mp hneither
  have hback : common.qualify kind text = name := by
    rw [← h]
    exact (qualify_shorten (h ▸ hname)).2.2
  have hback' : common.qualify kind text = name' := by
    rw [← h']
    exact (qualify_shorten (h' ▸ hname')).2.2
  exact hne (hback.symm.trans hback')

/-- Packages that are repeated, part of each other, or empty. -/
def nestedPackages : CommonPackages where
  types := ["a.b", "a", "", "a.b"]
  annotations := ["a", "java.lang", "a.b"]

theorem nestedPackages_inverse :
    nestedPackages.shorten .annotationType "java.lang.Override" = "Override" ∧
      nestedPackages.qualify .annotationType "Override" = "java.lang.Override" ∧
      nestedPackages.shorten .type (nestedPackages.qualify .type "C") = "C" ∧
      (nestedPackages.shorten .type "a.b.C" = "C" ∧ nestedPackages.shorten .type "C" = "C") ∧
      ("C" = "a.b.C" ∨ "C" = "C") := by
  obtain ⟨hrestored, -, -⟩ := shorten_inverse_qualify nestedPackages .annotationType
  obtain ⟨-, hfound, hapart⟩ := shorten_inverse_qualify nestedPackages .type
  have hshort : nestedPackages.shorten .annotationType "java.lang.Override" = "Override" := by
    decide
  have hlong : nestedPackages.shorten .type "a.b.C" = "C" := by decide
  have hkept : nestedPackages.shorten .type "C" = "C" := by decide
  have hback := (hrestored "java.lang.Override" (by decide)).2.2
  rw [hshort] at hback
  exact ⟨hshort, hback, hfound "C" (by decide) (by decide), ⟨hlong, hkept⟩,
    hapart "a.b.C" "C" "C" (by decide) hlong hkept⟩

end CommonPackages
end Signature
end ApiSurface
