import ApiSurface.Comparison.Pairing
import Mathlib.Data.List.Nodup

/-!
# What pairing does with a method

Pairing by written types splits the old methods into pairs and pending ones.  A pending method
either has no partner, and is removed, or has partners with its erased signature.  Nothing of the
kind holds for a pair: written types that agree may erase differently in the two classes.  Which
methods are left over does not depend on the side from which the pairing starts.
-/

namespace ApiSurface
namespace Pairing

/-- Every old method is in a pair or pending. -/
theorem paired_or_pending
    {old : List Method} (new : List Method) {m : Method} (hm : m ∈ old) :
    (∃ n, (m, n) ∈ (exact old new).pairs) ∨ m ∈ (exact old new).pending := by
  induction old generalizing new with
  | nil => cases hm
  | cons first old ih =>
    simp only [exact]
    split
    · rename_i n _
      rcases List.mem_cons.mp hm with rfl | hm
      · exact .inl ⟨n, List.mem_cons_self⟩
      · rcases ih _ hm with ⟨n', hn'⟩ | hpending
        · exact .inl ⟨n', List.mem_cons_of_mem _ hn'⟩
        · exact .inr hpending
    · rcases List.mem_cons.mp hm with rfl | hm
      · exact .inr List.mem_cons_self
      · rcases ih _ hm with hpaired | hpending
        · exact .inl hpaired
        · exact .inr (List.mem_cons_of_mem _ hpending)

theorem mem_of_mem_pairs
    {old new : List Method} {m n : Method} (h : (m, n) ∈ (exact old new).pairs) :
    m ∈ old ∧ n ∈ new := by
  induction old generalizing new with
  | nil => simp [exact] at h
  | cons first old ih =>
    simp only [exact] at h
    split at h
    · rename_i partner hfind
      rcases List.mem_cons.mp h with heq | h
      · cases heq
        exact ⟨List.mem_cons_self, List.mem_of_find?_eq_some hfind⟩
      · have hrest := ih h
        exact ⟨List.mem_cons_of_mem _ hrest.1, List.mem_of_mem_eraseP hrest.2⟩
    · have hrest := ih h
      exact ⟨List.mem_cons_of_mem _ hrest.1, hrest.2⟩

theorem mem_of_mem_free
    {old new : List Method} {n : Method} (h : n ∈ (exact old new).free) : n ∈ new := by
  induction old generalizing new with
  | nil => simpa [exact] using h
  | cons first old ih =>
    simp only [exact] at h
    split at h
    · exact List.mem_of_mem_eraseP (ih h)
    · exact ih h

theorem mem_closest
    {oldClass newClass : ClassDecl} {new : List Method} {m n : Method}
    (h : n ∈ closest oldClass newClass new m) :
    n ∈ new ∧ newClass.signatureOf n = oldClass.signatureOf m := by
  have hcandidate : n ∈ candidates oldClass newClass new m := (List.mem_filter.mp h).1
  have hmem := List.mem_filter.mp hcandidate
  exact ⟨hmem.1, by simpa using hmem.2⟩

/-- An old method is in a pair, or removed, or has a partner with its erased signature. -/
theorem paired_or_removed_or_partner
    (oldClass : ClassDecl) {old : List Method} (newClass : ClassDecl) (new : List Method)
    {m : Method} (hm : m ∈ old) :
    (∃ n, (m, n) ∈ (exact old new).pairs) ∨
      m ∈ (between oldClass old newClass new).removed ∨
      ∃ n ∈ new, newClass.signatureOf n = oldClass.signatureOf m := by
  rcases paired_or_pending new hm with hpaired | hpending
  · exact .inl hpaired
  · cases hclosest : closest oldClass newClass (exact old new).free m with
    | nil =>
      refine .inr (.inl (List.mem_filter.mpr ⟨hpending, ?_⟩))
      simp [hclosest]
    | cons n others =>
      have hn := mem_closest (by rw [hclosest]; exact List.mem_cons_self)
      exact .inr (.inr ⟨n, mem_of_mem_free hn.1, hn.2⟩)

/-! ## Pairing from the other side -/

/-- The old and the new methods that pairing by written types leaves. -/
def leftovers (old new : List Method) : List Method × List Method :=
  ((exact old new).pending, (exact old new).free)

theorem leftovers_cons_of_any
    {m : Method} {new : List Method}
    (h : new.any (fun n => n.exactSignature == m.exactSignature) = true) (old : List Method) :
    leftovers (m :: old) new =
      leftovers old (new.eraseP fun n => n.exactSignature == m.exactSignature) := by
  obtain ⟨n, hn⟩ :=
    Option.isSome_iff_exists.mp ((List.find?_isSome.trans List.any_eq_true.symm).mpr h)
  simp only [leftovers, exact, hn]

theorem leftovers_cons_of_not_any
    {m : Method} {new : List Method}
    (h : new.any (fun n => n.exactSignature == m.exactSignature) = false) (old : List Method) :
    leftovers (m :: old) new = (m :: (leftovers old new).1, (leftovers old new).2) := by
  have hnone : (new.find? fun n => n.exactSignature == m.exactSignature) = none := by
    simpa using h
  simp only [leftovers, exact, hnone]

/-- A further new method in front is taken by the first old method with its types. -/
theorem leftovers_cons_right_of_any
    {n : Method} {old : List Method}
    (h : old.any (fun m => m.exactSignature == n.exactSignature) = true) (new : List Method) :
    leftovers old (n :: new) =
      leftovers (old.eraseP fun m => m.exactSignature == n.exactSignature) new := by
  induction old generalizing new with
  | nil => cases h
  | cons m old ih =>
    by_cases hsame : m.exactSignature = n.exactSignature
    · rw [leftovers_cons_of_any (by simp [hsame])]
      simp [hsame]
    · have hother : ¬ n.exactSignature = m.exactSignature := fun heq => hsame heq.symm
      have hrest : old.any (fun m => m.exactSignature == n.exactSignature) = true := by
        simpa [hsame] using h
      have herase : (m :: old).eraseP (fun m => m.exactSignature == n.exactSignature) =
          m :: old.eraseP (fun m => m.exactSignature == n.exactSignature) := by
        simp [hsame]
      rw [herase]
      cases hnew : new.any fun x => x.exactSignature == m.exactSignature with
      | true =>
        rw [leftovers_cons_of_any (by simp [hnew]), leftovers_cons_of_any hnew, ← ih hrest]
        simp [hother]
      | false =>
        rw [leftovers_cons_of_not_any (by simp [hother, hnew]), leftovers_cons_of_not_any hnew,
          ih hrest]

/-- A further new method in front is free if no old method has its types. -/
theorem leftovers_cons_right_of_not_any
    {n : Method} {old : List Method}
    (h : old.any (fun m => m.exactSignature == n.exactSignature) = false) (new : List Method) :
    leftovers old (n :: new) = ((leftovers old new).1, n :: (leftovers old new).2) := by
  induction old generalizing new with
  | nil => rfl
  | cons m old ih =>
    obtain ⟨hsame, hrest⟩ : ¬ m.exactSignature = n.exactSignature ∧
        old.any (fun m => m.exactSignature == n.exactSignature) = false := by
      simpa using h
    have hother : ¬ n.exactSignature = m.exactSignature := fun heq => hsame heq.symm
    cases hnew : new.any fun x => x.exactSignature == m.exactSignature with
    | true =>
      have herase : (n :: new).eraseP (fun x => x.exactSignature == m.exactSignature) =
          n :: new.eraseP (fun x => x.exactSignature == m.exactSignature) := by
        simp [hother]
      rw [leftovers_cons_of_any (by simp [hnew]), leftovers_cons_of_any hnew, herase, ih hrest]
    | false =>
      rw [leftovers_cons_of_not_any (by simp [hother, hnew]), leftovers_cons_of_not_any hnew,
        ih hrest]

/-- Pairing by written types leaves the same methods from either side. -/
theorem leftovers_swap (old new : List Method) : leftovers new old = (leftovers old new).swap := by
  induction old generalizing new with
  | nil =>
    induction new with
    | nil => rfl
    | cons n new ih => rw [leftovers_cons_of_not_any rfl, ih]; rfl
  | cons m old ih =>
    cases hnew : new.any fun n => n.exactSignature == m.exactSignature with
    | true => rw [leftovers_cons_right_of_any hnew, leftovers_cons_of_any hnew, ih]
    | false => rw [leftovers_cons_right_of_not_any hnew, leftovers_cons_of_not_any hnew, ih]; rfl

theorem pending_sublist (old new : List Method) : (exact old new).pending.Sublist old := by
  induction old generalizing new with
  | nil => exact List.Sublist.refl _
  | cons m old ih =>
    simp only [exact]
    split
    · exact (ih _).cons m
    · exact (ih _).cons_cons m

/-- Every candidate is at some distance, so there is a closest one as soon as there is any. -/
theorem closest_eq_nil_iff
    {oldClass newClass : ClassDecl} {new : List Method} {m : Method} :
    closest oldClass newClass new m = [] ↔ candidates oldClass newClass new m = [] := by
  constructor
  · intro h
    by_contra hne
    obtain ⟨d, hd⟩ : ∃ d, ((candidates oldClass newClass new m).map (distance m)).min? = some d :=
      Option.isSome_iff_exists.mp (by simpa [List.isSome_min?_iff] using hne)
    obtain ⟨n, hn, hdistance⟩ := List.mem_map.mp (List.min?_mem hd)
    have hmem : n ∈ closest oldClass newClass new m :=
      List.mem_filter.mpr ⟨hn, by simp [hd, hdistance]⟩
    rw [h] at hmem
    cases hmem
  · intro h
    simp [closest, h]

/-- Where erased signatures are unique, a candidate is the only one and hence the closest. -/
theorem mem_closest_iff
    {oldClass newClass : ClassDecl} {new : List Method} {m n : Method}
    (hunique : (new.map newClass.signatureOf).Nodup) (hn : n ∈ new) :
    n ∈ closest oldClass newClass new m ↔ newClass.signatureOf n = oldClass.signatureOf m := by
  constructor
  · exact fun h => (mem_closest h).2
  · intro hsignature
    have hcandidate : n ∈ candidates oldClass newClass new m :=
      List.mem_filter.mpr ⟨hn, by simpa using hsignature⟩
    cases hclosest : closest oldClass newClass new m with
    | nil =>
      rw [closest_eq_nil_iff.mp hclosest] at hcandidate
      cases hcandidate
    | cons x others =>
      have hx := mem_closest (by rw [hclosest]; exact List.mem_cons_self)
      have heq : n = x :=
        List.inj_on_of_nodup_map hunique hn hx.1 (hsignature.trans hx.2.symm)
      rw [heq]
      exact List.mem_cons_self

/-- Where the erased signatures of the one side are unique, its removed methods are those that are
added from the other side. -/
theorem removed_eq_added_swap
    {a b : ClassDecl} {as bs : List Method} (hunique : (as.map a.signatureOf).Nodup) :
    (between a as b bs).removed = (between b bs a as).added := by
  have hswap := leftovers_swap as bs
  simp only [leftovers, Prod.swap_prod_mk, Prod.mk.injEq] at hswap
  obtain ⟨hfree, hpending⟩ := hswap
  simp only [between, hfree, hpending]
  refine List.filter_congr fun m hm => ?_
  have hpendingUnique : ((exact as bs).pending.map a.signatureOf).Nodup :=
    hunique.sublist ((pending_sublist as bs).map _)
  have hpartner : ∀ n, m ∈ closest b a (exact as bs).pending n ↔
      b.signatureOf n = a.signatureOf m :=
    fun n => (mem_closest_iff hpendingUnique hm).trans eq_comm
  rw [Bool.eq_iff_iff, List.isEmpty_iff, closest_eq_nil_iff, candidates, List.filter_eq_nil_iff]
  simp [hpartner]

end Pairing
end ApiSurface
