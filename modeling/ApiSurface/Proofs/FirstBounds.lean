import ApiSurface.Proofs.ErasureRenamed
import Mathlib.Data.Nat.Init

/-!
# Erasure follows first bounds

The erasure of a type is found by following bounds: from a wildcard to its upper bound, from a
variable to its first bound.  If that comes to a name that is no variable after few enough steps,
the erasure is that name; if it comes to a variable or a wildcard without such a bound, or does not
end, it is the root class.  Either way the type's own array dimensions stand behind it.
-/

namespace ApiSurface
namespace TypeRef

open TypeParameter (Declares)

/-! ## Following bounds -/

/-- The bound that stands for a type: the upper bound of a wildcard, the first bound of a variable.
Of several variables with one name the first counts. -/
def firstBound? (scope : List TypeParameter) (t : TypeRef) : Option TypeRef :=
  if t.isWildcard then
    match t.bound with
    | some (.upper bound) => some bound
    | _ => none
  else (scope.find? fun p => p.name == t.name).bind fun p => p.bounds.head?

/-- The type that following a number of bounds comes to. -/
def boundAfter? (scope : List TypeParameter) : (steps : Nat) → TypeRef → Option TypeRef
  | 0, t => some t
  | steps + 1, t => (t.firstBound? scope).bind (boundAfter? scope steps)

/-- The type is neither a wildcard nor a variable of the scope. -/
def IsFree (scope : List TypeParameter) (t : TypeRef) : Prop :=
  t.isWildcard = false ∧ ¬ Declares scope t.name

instance (scope : List TypeParameter) (t : TypeRef) : Decidable (t.IsFree scope) :=
  inferInstanceAs (Decidable (_ ∧ _))

/-- The type is a wildcard without upper bound or a variable without bounds. -/
def IsUnbounded (scope : List TypeParameter) (t : TypeRef) : Prop :=
  ¬ t.IsFree scope ∧ t.firstBound? scope = none

/-- Following bounds from the type comes to one variable twice. -/
def IsCyclic (scope : List TypeParameter) (t : TypeRef) : Prop :=
  ∃ m n u v, m < n ∧ t.boundAfter? scope m = some u ∧ t.boundAfter? scope n = some v ∧
    u.isWildcard = false ∧ u.name = v.name

variable {scope : List TypeParameter} {t u : TypeRef}

theorem not_isFree_of_isWildcard (ht : t.isWildcard = true) (scope : List TypeParameter) :
    ¬ t.IsFree scope := by
  intro hfree
  rw [hfree.1] at ht
  cases ht

theorem isFree_congr (h : t.name = u.name) : t.IsFree scope ↔ u.IsFree scope := by
  rw [IsFree, IsFree, isWildcard, isWildcard, h]

/-- The bound of a type that is no wildcard depends on its name only. -/
theorem firstBound?_congr (ht : t.isWildcard = false) (h : t.name = u.name) :
    t.firstBound? scope = u.firstBound? scope := by
  have hu : u.isWildcard = false := by rwa [isWildcard, ← h]
  rw [firstBound?, firstBound?, if_neg (by simp [ht]), if_neg (by simp [hu]), h]

theorem IsFree.firstBound?_eq_none (h : t.IsFree scope) : t.firstBound? scope = none := by
  rw [firstBound?, h.1, TypeParameter.find?_eq_none_iff.mpr h.2]
  rfl

theorem boundAfter?_add (m n : Nat) :
    t.boundAfter? scope (m + n) = (t.boundAfter? scope m).bind (boundAfter? scope n) := by
  induction m generalizing t with
  | zero => rw [Nat.zero_add, boundAfter?, Option.bind_some]
  | succ m ih =>
    rw [Nat.succ_add, boundAfter?, boundAfter?, Option.bind_assoc]
    exact congrArg _ (funext fun bound => ih)

/-- Whoever takes some steps takes fewer as well. -/
theorem isSome_boundAfter?_of_le {m n : Nat} (hle : m ≤ n) (h : (t.boundAfter? scope n).isSome) :
    (t.boundAfter? scope m).isSome := by
  obtain ⟨k, rfl⟩ := Nat.exists_eq_add_of_le hle
  rw [boundAfter?_add] at h
  exact Option.isSome_of_isSome_bind h

/-- A variable that is come to again goes on for ever. -/
theorem isSome_boundAfter?_of_return {k : Nat} (hu : u.isWildcard = false) {v : TypeRef}
    (hv : u.boundAfter? scope (k + 1) = some v) (hname : u.name = v.name) (n : Nat) :
    (u.boundAfter? scope n).isSome := by
  -- The steps behind the return are those from the variable on, so strong induction applies.
  induction n using Nat.strong_induction_on with
  | _ n ih =>
    rcases Nat.lt_or_ge (k + 1) n with hlt | hle
    · obtain ⟨j, rfl⟩ : ∃ j, n = k + 1 + (j + 1) := ⟨n - (k + 2), by omega⟩
      have hagain : v.boundAfter? scope (j + 1) = u.boundAfter? scope (j + 1) := by
        rw [boundAfter?, boundAfter?, firstBound?_congr hu hname]
      rw [boundAfter?_add, hv, Option.bind_some, hagain]
      exact ih (j + 1) (by omega)
    · exact isSome_boundAfter?_of_le hle (by rw [hv]; rfl)

/-- Bounds that come to one variable twice can be followed for ever. -/
theorem IsCyclic.isSome_boundAfter? (h : t.IsCyclic scope) (n : Nat) :
    (t.boundAfter? scope n).isSome := by
  obtain ⟨m, l, u, v, hlt, hu, hv, hvariable, hname⟩ := h
  obtain ⟨k, rfl⟩ := Nat.exists_eq_add_of_lt hlt
  rw [Nat.add_assoc, boundAfter?_add, hu, Option.bind_some] at hv
  have hlong : (t.boundAfter? scope (m + n)).isSome := by
    rw [boundAfter?_add, hu, Option.bind_some]
    exact isSome_boundAfter?_of_return hvariable hv hname n
  exact isSome_boundAfter?_of_le (Nat.le_add_left n m) hlong

/-! ## The erased name -/

/-- Without a bound to follow, what is no variable keeps its name and all else is the root class. -/
theorem erasedName_of_firstBound?_eq_none (h : t.firstBound? scope = none) (steps : Nat) :
    erasedName scope steps t = if t.IsFree scope then t.name else object := by
  rw [firstBound?] at h
  rw [erasedName.eq_def]
  cases hwildcard : t.isWildcard with
  | true =>
    simp only [hwildcard, not_isFree_of_isWildcard hwildcard, if_true, if_false] at h ⊢
    rcases hbound : t.bound with _ | ⟨⟨bound⟩ | ⟨bound⟩⟩
    · rfl
    · simp [hbound] at h
    · rfl
  | false =>
    simp only [hwildcard, Bool.false_eq_true, if_false] at h ⊢
    cases hfind : scope.find? fun p => p.name == t.name with
    | none =>
      have hfree : t.IsFree scope := ⟨hwildcard, TypeParameter.find?_eq_none_iff.mp hfind⟩
      simp only [hfree, if_true]
    | some p =>
      have hbound : ¬ t.IsFree scope := fun hfree => by
        rw [TypeParameter.find?_eq_none_iff.mpr hfree.2] at hfind
        cases hfind
      rw [hfind, Option.bind_some, List.head?_eq_none_iff] at h
      simp only [h, hbound, if_false]

/-- A bound is followed if there are steps left, and given up for the root class otherwise. -/
theorem erasedName_of_firstBound?_eq_some (h : t.firstBound? scope = some u) :
    erasedName scope 0 t = object ∧
      ∀ steps, erasedName scope (steps + 1) t = erasedName scope steps u := by
  rw [firstBound?] at h
  rw [erasedName.eq_def]
  cases hwildcard : t.isWildcard with
  | true =>
    simp only [hwildcard, if_true] at h ⊢
    rcases hbound : t.bound with _ | ⟨⟨bound⟩ | ⟨bound⟩⟩
    · simp [hbound] at h
    · rw [hbound] at h
      cases h
      refine ⟨rfl, fun steps => ?_⟩
      rw [erasedName.eq_def]
      simp only [hwildcard, hbound, if_true]
    · simp [hbound] at h
  | false =>
    simp only [hwildcard, Bool.false_eq_true, if_false] at h ⊢
    obtain ⟨p, hp, hfirst⟩ := Option.bind_eq_some_iff.mp h
    obtain ⟨others, hbounds⟩ := List.head?_eq_some_iff.mp hfirst
    simp only [hp, hbounds, true_and]
    intro steps
    rw [erasedName.eq_def]
    simp only [hwildcard, hp, hbounds, Bool.false_eq_true, if_false]

theorem erasedName_of_isFree (h : t.IsFree scope) (steps : Nat) :
    erasedName scope steps t = t.name := by
  rw [erasedName_of_firstBound?_eq_none h.firstBound?_eq_none, if_pos h]

theorem erasedName_of_isUnbounded (h : t.IsUnbounded scope) (steps : Nat) :
    erasedName scope steps t = object := by
  rw [erasedName_of_firstBound?_eq_none h.2, if_neg h.1]

/-- The steps to a type are taken off those that are left. -/
theorem erasedName_of_boundAfter? {n : Nat} (h : t.boundAfter? scope n = some u) (steps : Nat) :
    erasedName scope (n + steps) t = erasedName scope steps u := by
  induction n generalizing t with
  | zero =>
    cases h
    rw [Nat.zero_add]
  | succ n ih =>
    rw [boundAfter?] at h
    obtain ⟨bound, hbound, hrest⟩ := Option.bind_eq_some_iff.mp h
    rw [Nat.succ_add, (erasedName_of_firstBound?_eq_some hbound).2, ih hrest]

/-- Bounds that go on behind the last step give the root class. -/
theorem erasedName_of_isSome {steps : Nat} (h : (t.boundAfter? scope (steps + 1)).isSome) :
    erasedName scope steps t = object := by
  obtain ⟨v, hv⟩ := Option.isSome_iff_exists.mp h
  rw [boundAfter?_add] at hv
  obtain ⟨u, hu, hlast⟩ := Option.bind_eq_some_iff.mp hv
  have hbound : u.firstBound? scope = some v := by simpa [boundAfter?] using hlast
  have hgiven := erasedName_of_boundAfter? hu 0
  rw [Nat.add_zero] at hgiven
  rw [hgiven, (erasedName_of_firstBound?_eq_some hbound).1]

/-- An erased name is the root class or a name that is neither a wildcard nor a variable. -/
theorem erasedName_cases (scope : List TypeParameter) (steps : Nat) (t : TypeRef) :
    erasedName scope steps t = object ∨
      ∃ u : TypeRef, u.IsFree scope ∧ erasedName scope steps t = u.name := by
  cases hbound : t.firstBound? scope with
  | none =>
    by_cases hfree : t.IsFree scope
    · exact .inr ⟨t, hfree, erasedName_of_isFree hfree steps⟩
    · exact .inl (erasedName_of_isUnbounded ⟨hfree, hbound⟩ steps)
  | some bound =>
    cases steps with
    | zero => exact .inl (erasedName_of_firstBound?_eq_some hbound).1
    | succ steps =>
      rw [(erasedName_of_firstBound?_eq_some hbound).2]
      exact erasedName_cases scope steps bound

/-- Unless the root class is a variable, a type with an erased name is none, and no wildcard. -/
theorem isFree_of_name_eq_erasedName
    (hobject : ¬ Declares scope object) {steps : Nat} (hu : u.name = erasedName scope steps t) :
    u.IsFree scope := by
  rcases erasedName_cases scope steps t with hroot | ⟨v, hv, hname⟩
  · rw [hroot] at hu
    refine ⟨?_, hu ▸ hobject⟩
    rw [isWildcard, hu]
    decide
  · exact (isFree_congr (hu.trans hname)).mpr hv

/-! ## The erasure -/

/-- Erasure follows first bounds.  A name that is no variable of the scope and is come to within
eight steps is the erasure, with the dimensions of the type behind it.  If a type without a bound to
follow is come to, if the bounds go on behind the eighth step, or if they run in a circle, the root
class takes its place.  What is erased is no variable of the scope and is its own erasure. -/
theorem erased_eq_of_bounds (scope : List TypeParameter) (hobject : ¬ Declares scope object)
    (t : TypeRef) :
    (∀ n ≤ 8, ∀ u, t.boundAfter? scope n = some u → u.IsFree scope →
        t.erased scope = u.name ++ Text.repeated "[]" t.dimensions) ∧
      (∀ n ≤ 8, ∀ u, t.boundAfter? scope n = some u → u.IsUnbounded scope →
        t.erased scope = object ++ Text.repeated "[]" t.dimensions) ∧
      (t.boundAfter? scope 9 ≠ none ∨ t.IsCyclic scope →
        t.erased scope = object ++ Text.repeated "[]" t.dimensions) ∧
      ∃ base, t.erased scope = base ++ Text.repeated "[]" t.dimensions ∧ ¬ Declares scope base ∧
        ∀ u : TypeRef, u.name = base → u.dimensions = t.dimensions →
          u.erased scope = t.erased scope := by
  have hreached : ∀ n ≤ 8, ∀ u, t.boundAfter? scope n = some u →
      t.erased scope = erasedName scope (8 - n) u ++ Text.repeated "[]" t.dimensions := by
    intro n hn u hu
    rw [← erasedName_of_boundAfter? hu, Nat.add_sub_cancel' hn]
    rfl
  refine ⟨?_, ?_, ?_, erasedName scope erasureSteps t, rfl, ?_, ?_⟩
  · intro n hn u hu hfree
    rw [hreached n hn u hu, erasedName_of_isFree hfree]
  · intro n hn u hu hunbounded
    rw [hreached n hn u hu, erasedName_of_isUnbounded hunbounded]
  · intro hlong
    have hninth : (t.boundAfter? scope 9).isSome :=
      hlong.elim Option.isSome_iff_ne_none.mpr fun hcyclic => hcyclic.isSome_boundAfter? 9
    rw [erased, erasureSteps, erasedName_of_isSome hninth]
  · exact (isFree_of_name_eq_erasedName hobject (u := { name := _ }) rfl).2
  · intro u hname hdimensions
    have hfree := isFree_of_name_eq_erasedName hobject hname
    rw [erased, erased, erasedName_of_isFree hfree, hname, hdimensions]

/-- Variables that bound each other one after the other down to a class, two that bound each other
in a circle, and one without bounds. -/
def rungs : List TypeParameter :=
  ([("A", "B"), ("B", "C"), ("C", "D"), ("D", "E"), ("E", "F"), ("F", "G"),
      ("G", "java.lang.Number"), ("X", "Y"), ("Y", "X")].map fun p =>
        { name := p.1, bounds := [named p.2] }) ++
    [{ name := "Z" }]

/-- Arrays of a wildcard above all those variables. -/
def topRung : TypeRef :=
  (wildcard (some (.upper (named "A")))).array 2

theorem rungs_erased :
    ¬ Declares rungs object ∧
      (topRung.boundAfter? rungs 8 = some (named "java.lang.Number") ∧
        topRung.erased rungs = "java.lang.Number[][]" ∧
        ((named "java.lang.Number").array 2).erased rungs = "java.lang.Number[][]") ∧
      ((named "X").IsCyclic rungs ∧ (named "X").erased rungs = "java.lang.Object") ∧
      ((named "Z").IsUnbounded rungs ∧ (named "Z").erased rungs = "java.lang.Object") := by
  have hobject : ¬ Declares rungs object := by decide
  have hfree : (named "java.lang.Number").IsFree rungs := by decide
  have hcyclic : (named "X").IsCyclic rungs :=
    ⟨0, 2, named "X", named "X", by decide, rfl, rfl, by decide, rfl⟩
  have hunbounded : (named "Z").IsUnbounded rungs :=
    ⟨by decide, rfl⟩
  obtain ⟨hladder, -, -, base, hbase, -, hagain⟩ := erased_eq_of_bounds rungs hobject topRung
  have hlast := hladder 8 (by decide) (named "java.lang.Number") rfl hfree
  have hbottom : "java.lang.Number" = base := by
    rw [hlast] at hbase
    exact (String.append_left_inj _).mp hbase
  have hcircle := (erased_eq_of_bounds rungs hobject (named "X")).2.2.1 (.inr hcyclic)
  have hroot := (erased_eq_of_bounds rungs hobject (named "Z")).2.1 0 (by decide) _ rfl hunbounded
  have hsame := hagain ((named "java.lang.Number").array 2) hbottom rfl
  exact ⟨hobject, ⟨rfl, hlast, hsame.trans hlast⟩, ⟨hcyclic, hcircle⟩, ⟨hunbounded, hroot⟩⟩

end TypeRef
end ApiSurface
