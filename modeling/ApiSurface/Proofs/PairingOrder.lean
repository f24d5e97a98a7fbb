import ApiSurface.Proofs.Pairing
import Mathlib.Data.List.Find
import Mathlib.Data.List.Perm.Basic
import Mathlib.Data.Nat.Basic

/-!
# Pairing methods in another order

Pairing by written types takes the first method that fits, so the order of the methods decides as
soon as several fit.  Where the written types that both sides have are those of one method on each
side, a method fits wherever it stands, and in any order the same methods are paired, removed and
added.  Pairing by erased signature compares all candidates and does not depend on their order.
-/

namespace ApiSurface

/-! ## Lists in another order -/

/-- Where at most one item passes a test, it is found in any order. -/
theorem find?_eq_of_perm
    {α : Type} {p : α → Bool} {xs ys : List α} (h : xs.Perm ys) (hone : xs.countP p ≤ 1) :
    xs.find? p = ys.find? p := by
  have hfilter : (xs.filter p).Perm (ys.filter p) := h.filter p
  have hlength : (xs.filter p).length ≤ 1 := by rwa [← List.countP_eq_length_filter]
  rw [← List.head?_filter, ← List.head?_filter]
  match hxs : xs.filter p with
  | [] => rw [hxs] at hfilter; rw [List.nil_perm.mp hfilter]
  | [x] => rw [hxs] at hfilter; rw [List.singleton_perm.mp hfilter]
  | x :: y :: rest => simp [hxs] at hlength

/-- Where at most one item passes a test, erasing the first one erases all. -/
theorem eraseP_eq_filter
    {α : Type} {p : α → Bool} {xs : List α} (hone : xs.countP p ≤ 1) :
    xs.eraseP p = xs.filter fun x => !p x := by
  induction xs with
  | nil => rfl
  | cons x xs ih =>
    by_cases hx : p x = true
    · have hnone : ∀ y ∈ xs, ¬ p y = true := by
        rw [← List.countP_eq_zero]
        rw [List.countP_cons_of_pos hx] at hone
        omega
      have hall : xs.filter (fun y => !p y) = xs := by
        rw [List.filter_eq_self]
        intro y hy
        simpa using hnone y hy
      simp [hx, hall]
    · rw [List.countP_cons_of_neg hx] at hone
      simp [hx, ih hone]

theorem min?_eq_of_perm {xs ys : List Nat} (h : xs.Perm ys) : xs.min? = ys.min? := by
  refine Option.ext fun least => ?_
  rw [List.min?_eq_some_iff, List.min?_eq_some_iff, h.mem_iff]
  refine and_congr_right fun _ => ?_
  simp only [h.mem_iff]

namespace Pairing

/-! ## Pairing methods in another order -/

/-- Written types that methods of both sides have are those of one method on each side. -/
def IsDefinite (old new : List Method) : Prop :=
  ∀ m ∈ old, ∀ n ∈ new, n.exactSignature = m.exactSignature →
    old.countP (fun m' => m'.exactSignature == m.exactSignature) = 1 ∧
      new.countP (fun n' => n'.exactSignature == m.exactSignature) = 1

variable {old old' new new' : List Method}

theorem IsDefinite.perm (h : IsDefinite old new) (hold : old.Perm old') (hnew : new.Perm new') :
    IsDefinite old' new' := by
  intro m hm n hn hsame
  have hcounts := h m (hold.mem_iff.mpr hm) n (hnew.mem_iff.mpr hn) hsame
  rwa [hold.countP_eq, hnew.countP_eq] at hcounts

/-- Without the methods of the first written types, the others are paired as before. -/
theorem IsDefinite.tail
    {m : Method} (h : IsDefinite (m :: old) new)
    (hother : ∀ m' ∈ old, (∃ n ∈ new, n.exactSignature = m'.exactSignature) →
      m.exactSignature ≠ m'.exactSignature) :
    IsDefinite old (new.filter fun n => !(n.exactSignature == m.exactSignature)) := by
  intro m' hm' n hn hsame
  have hmem := (List.mem_filter.mp hn).1
  have hne := hother m' hm' ⟨n, hmem, hsame⟩
  obtain ⟨hold, hnew⟩ := h m' (List.mem_cons_of_mem _ hm') n hmem hsame
  rw [List.countP_cons_of_neg (by simpa using hne)] at hold
  refine ⟨hold, ?_⟩
  rw [List.countP_filter, ← hnew]
  refine List.countP_congr fun n' _ => ?_
  simp only [Bool.and_eq_true, beq_iff_eq, Bool.not_eq_true', beq_eq_false_iff_ne]
  constructor
  · exact fun hn' => hn'.1
  · exact fun hn' => ⟨hn', fun heq => hne (heq.symm.trans hn')⟩

/-- Definite written types pair every method with the one method of the other side that has them,
wherever that stands. -/
theorem exact_of_isDefinite (h : IsDefinite old new) :
    exact old new =
      { pairs := old.filterMap fun m =>
          (new.find? fun n => n.exactSignature == m.exactSignature).map fun n => (m, n)
        pending := old.filter fun m =>
          (new.find? fun n => n.exactSignature == m.exactSignature).isNone
        free := new.filter fun n => !old.any fun m => n.exactSignature == m.exactSignature } := by
  induction old generalizing new with
  | nil => simp [exact]
  | cons m old ih =>
    -- A later method of the same written types finds nothing: it would not be the only one.
    have hother : ∀ m' ∈ old, (∃ n ∈ new, n.exactSignature = m'.exactSignature) →
        m.exactSignature ≠ m'.exactSignature := by
      rintro m' hm' ⟨n, hn, hsame⟩ heq
      have hcount := (h m List.mem_cons_self n hn (hsame.trans heq.symm)).1
      rw [List.countP_cons_of_pos (by simp), Nat.add_eq_right, List.countP_eq_zero] at hcount
      exact hcount m' hm' (by simp [heq])
    have hfind : ∀ m' ∈ old,
        (new.filter fun n => !(n.exactSignature == m.exactSignature)).find?
            (fun n => n.exactSignature == m'.exactSignature) =
          new.find? fun n => n.exactSignature == m'.exactSignature := by
      intro m' hm'
      rw [List.find?_filter]
      refine List.find?_congr fun n hn => ?_
      by_cases hsame : n.exactSignature = m'.exactSignature
      · have hne := hother m' hm' ⟨n, hn, hsame⟩
        simp [hsame, hne.symm]
      · simp [hsame]
    have hrest := ih (h.tail hother)
    have hfree : (new.filter fun n => !(n.exactSignature == m.exactSignature)).filter
          (fun n => !old.any fun m => n.exactSignature == m.exactSignature) =
        new.filter fun n => !(m :: old).any fun m => n.exactSignature == m.exactSignature := by
      simp [List.filter_filter, Bool.and_comm]
    have hpairs := List.filterMap_congr fun m' hm' =>
      congrArg (Option.map fun n => (m', n)) (hfind m' hm')
    have hpending := List.filter_congr fun m' hm' => congrArg Option.isNone (hfind m' hm')
    rw [hpairs, hpending, hfree] at hrest
    cases hfirst : new.find? fun n => n.exactSignature == m.exactSignature with
    | some n =>
      have hn := List.mem_of_find?_eq_some hfirst
      have hcount := (h m List.mem_cons_self n hn (by simpa using List.find?_some hfirst)).2
      simp only [exact, hfirst]
      rw [eraseP_eq_filter hcount.le, hrest]
      simp [hfirst]
    | none =>
      have hall : (new.filter fun n => !(n.exactSignature == m.exactSignature)) = new := by
        rw [List.filter_eq_self]
        simpa using hfirst
      rw [hall] at hrest
      simp only [exact, hfirst, hrest]
      simp [hfirst]

/-- The methods that pair by written types, and those that are left, do not depend on the order. -/
theorem exact_perm (h : IsDefinite old new) (hold : old.Perm old') (hnew : new.Perm new') :
    (exact old new).pairs.Perm (exact old' new').pairs ∧
      (exact old new).pending.Perm (exact old' new').pending ∧
      (exact old new).free.Perm (exact old' new').free := by
  have hfind : ∀ m ∈ old, (new.find? fun n => n.exactSignature == m.exactSignature) =
      new'.find? fun n => n.exactSignature == m.exactSignature := by
    intro m hm
    apply find?_eq_of_perm hnew
    by_cases hpartner : ∃ n ∈ new, n.exactSignature = m.exactSignature
    · obtain ⟨n, hn, hsame⟩ := hpartner
      exact (h m hm n hn hsame).2.le
    · rw [List.countP_eq_zero.mpr]
      · exact Nat.zero_le 1
      · intro n hn hsame
        exact hpartner ⟨n, hn, by simpa using hsame⟩
  rw [exact_of_isDefinite h, exact_of_isDefinite (h.perm hold hnew)]
  refine ⟨?_, ?_, ?_⟩
  · rw [List.filterMap_congr fun m hm => congrArg _ (hfind m hm)]
    exact hold.filterMap _
  · rw [List.filter_congr fun m hm => congrArg _ (hfind m hm)]
    exact hold.filter _
  · simp only [hold.any_eq]
    exact hnew.filter _

theorem closest_perm (c d : ClassDecl) (hnew : new.Perm new') (m : Method) :
    (closest c d new m).Perm (closest c d new' m) := by
  have hcandidates : (candidates c d new m).Perm (candidates c d new' m) := hnew.filter _
  simp only [closest, min?_eq_of_perm (hcandidates.map (distance m))]
  exact hcandidates.filter _

section Between

variable (c d : ClassDecl) (h : IsDefinite old new) (hold : old.Perm old') (hnew : new.Perm new')

include h hold hnew

theorem removed_perm :
    (between c old d new).removed.Perm (between c old' d new').removed := by
  obtain ⟨-, hpending, hfree⟩ := exact_perm h hold hnew
  simp only [between, fun m => (closest_perm c d hfree m).isEmpty_eq]
  exact hpending.filter _

theorem added_perm :
    (between c old d new).added.Perm (between c old' d new').added := by
  obtain ⟨-, hpending, hfree⟩ := exact_perm h hold hnew
  have hpartner : ∀ m n, (closest c d (exact old new).free m).contains n =
      (closest c d (exact old' new').free m).contains n :=
    fun m _ => (closest_perm c d hfree m).contains_eq
  simp only [between, hpartner, hpending.any_eq]
  exact hfree.filter _

/-- What is told of each method and its partners does not depend on the order. -/
theorem flatMap_matched_perm {α : Type} (told : Method → Method → List α) :
    ((between c old d new).matched.flatMap fun p => p.2.flatMap (told p.1)).Perm
      ((between c old' d new').matched.flatMap fun p => p.2.flatMap (told p.1)) := by
  obtain ⟨hpairs, hpending, hfree⟩ := exact_perm h hold hnew
  simp only [between, List.flatMap_append, List.flatMap_map, List.flatMap_singleton]
  refine (hpairs.flatMap fun _ _ => .refl _).append ?_
  simp only [fun m => (closest_perm c d hfree m).isEmpty_eq]
  exact (hpending.filter _).flatMap fun m _ => (closest_perm c d hfree m).flatMap fun _ _ => .refl _

end Between

end Pairing

end ApiSurface
