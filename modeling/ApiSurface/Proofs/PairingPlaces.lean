import ApiSurface.Proofs.Pairing
import Mathlib.Data.Nat.Basic
import Mathlib.Data.Prod.Basic

/-!
# Pairing as a partition

Two methods of a list may be equal, so only their places tell them apart.  Told by places, a pairing
splits the old methods into matched and removed ones and the new methods into partners and added
ones, and a partner by written types is the partner of one method alone.  Where erased signatures
are unique on both sides, a pairing is a set of single pairs that is the same from either side.
-/

namespace ApiSurface
namespace Pairing

/-! ## Places -/

/-- A pairing of two lists of methods, told by the places of the methods. -/
structure Places (old new : List Method) where
  matched : List (Fin old.length × List (Fin new.length))
  removed : List (Fin old.length)
  added : List (Fin new.length)

namespace Places

variable {old new : List Method}

def pairing (p : Places old new) : Pairing :=
  { matched := p.matched.map fun x => (old.get x.1, x.2.map new.get)
    removed := p.removed.map old.get
    added := p.added.map new.get }

/-- Whether the methods at two places have the same types as written. -/
def SameTypes (i : Fin old.length) (j : Fin new.length) : Prop :=
  (new.get j).exactSignature = (old.get i).exactSignature

/-- Whether the methods at two places have the same erased signature, each in its own class. -/
def SameErasure (oldClass newClass : ClassDecl) (i : Fin old.length) (j : Fin new.length) : Prop :=
  newClass.signatureOf (new.get j) = oldClass.signatureOf (old.get i)

/-- Every place has one part in the pairing, and places are paired for a reason. -/
structure IsPartition (oldClass newClass : ClassDecl) (p : Places old new) : Prop where
  /-- Every old method is matched or removed, and only once. -/
  old_once : (p.matched.map Prod.fst ++ p.removed).Perm (List.finRange old.length)
  /-- A matched method has partners. -/
  partners_ne_nil : ∀ x ∈ p.matched, x.2 ≠ []
  partners_nodup : ∀ x ∈ p.matched, x.2.Nodup
  /-- Partners have the same written types or the same erased signature. -/
  fits : ∀ x ∈ p.matched, ∀ j ∈ x.2, SameTypes x.1 j ∨ SameErasure oldClass newClass x.1 j
  /-- A partner by written types is the only one, and is nobody else's. -/
  exclusive : ∀ x ∈ p.matched, ∀ j ∈ x.2, SameTypes x.1 j →
    x.2 = [j] ∧ ∀ y ∈ p.matched, j ∈ y.2 → y = x
  /-- A method is removed only if whatever fits it is taken by another one's written types. -/
  removed_unfit : ∀ i ∈ p.removed, ∀ j, SameTypes i j ∨ SameErasure oldClass newClass i j →
    ∃ x ∈ p.matched, j ∈ x.2 ∧ SameTypes x.1 j
  added_nodup : p.added.Nodup
  /-- A new method is added exactly if it is no partner. -/
  mem_added_iff : ∀ j, j ∈ p.added ↔ ∀ x ∈ p.matched, j ∉ x.2

end Places

theorem cons_eraseP_perm
    {α : Type} {p : α → Bool} {xs : List α} {x : α} (h : xs.find? p = some x) :
    (x :: xs.eraseP p).Perm xs := by
  induction xs with
  | nil => cases h
  | cons y xs ih =>
    by_cases hy : p y = true
    · obtain rfl : y = x := by simpa [hy] using h
      rw [List.eraseP_cons_of_pos hy]
    · have hrest : xs.find? p = some x := by simpa [hy] using h
      rw [List.eraseP_cons_of_neg hy]
      exact (List.Perm.swap _ _ _).trans ((ih hrest).cons y)

/-- What pairing by written types does with labelled methods: it splits the labels of both sides
into those of the pairs and those that are left. -/
structure ExactLabels {ι κ : Type} (f : ι → Method) (g : κ → Method) (xs : List ι)
    (ys : List κ) where
  pairs : List (ι × κ)
  pending : List ι
  free : List κ
  exact_eq : exact (xs.map f) (ys.map g) =
    ⟨pairs.map (Prod.map f g), pending.map f, free.map g⟩
  old_perm : (pairs.map Prod.fst ++ pending).Perm xs
  new_perm : (pairs.map Prod.snd ++ free).Perm ys
  pairs_same : ∀ p ∈ pairs, (g p.2).exactSignature = (f p.1).exactSignature
  left_apart : ∀ i ∈ pending, ∀ j ∈ free, (g j).exactSignature ≠ (f i).exactSignature

theorem exists_exactLabels
    {ι κ : Type} (f : ι → Method) (g : κ → Method) (xs : List ι) (ys : List κ) :
    Nonempty (ExactLabels f g xs ys) := by
  induction xs generalizing ys with
  | nil => exact ⟨⟨[], [], ys, rfl, .refl _, .refl _, by simp, by simp⟩⟩
  | cons x xs ih =>
    let fits := fun n : Method => n.exactSignature == (f x).exactSignature
    cases hfind : ys.find? (fits ∘ g) with
    | some y =>
      obtain ⟨l⟩ := ih (ys.eraseP (fits ∘ g))
      have hmethod : (ys.map g).find? fits = some (g y) := by
        rw [List.find?_map, hfind]
        rfl
      have hsame : (g y).exactSignature = (f x).exactSignature := by
        simpa [fits] using List.find?_some hfind
      refine ⟨⟨(x, y) :: l.pairs, l.pending, l.free, ?_, l.old_perm.cons x,
        (l.new_perm.cons y).trans (cons_eraseP_perm hfind), ?_, l.left_apart⟩⟩
      · simp only [List.map_cons, exact, fits] at hmethod ⊢
        rw [hmethod]
        simp only [List.eraseP_map]
        rw [l.exact_eq]
        rfl
      · intro p hp
        rcases List.mem_cons.mp hp with rfl | hp
        · exact hsame
        · exact l.pairs_same p hp
    | none =>
      obtain ⟨l⟩ := ih ys
      have hmethod : (ys.map g).find? fits = none := by
        rw [List.find?_map, hfind]
        rfl
      refine ⟨⟨l.pairs, x :: l.pending, l.free, ?_, List.perm_middle.trans (l.old_perm.cons x),
        l.new_perm, l.pairs_same, ?_⟩⟩
      · simp only [List.map_cons, exact, fits] at hmethod ⊢
        rw [hmethod]
        simp only [l.exact_eq]
      · intro i hi j hj
        rcases List.mem_cons.mp hi with rfl | hi
        · have hy : j ∈ ys := l.new_perm.mem_iff.mp (List.mem_append_right _ hj)
          simpa [fits] using List.find?_eq_none.mp hfind j hy
        · exact l.left_apart i hi j hj

/-- The closest candidates are some of the methods, wherever they stand. -/
theorem closest_eq_filter
    (oldClass newClass : ClassDecl) (new : List Method) (m : Method) :
    closest oldClass newClass new m =
      new.filter fun n => (closest oldClass newClass new m).contains n := by
  conv_lhs => rw [closest, candidates, List.filter_filter]
  refine List.filter_congr fun n hn => ?_
  rw [Bool.eq_iff_iff, List.contains_iff_mem]
  simp only [closest, candidates, List.mem_filter, Bool.and_eq_true, hn, true_and]
  exact And.comm

namespace ExactLabels

variable {old new : List Method} (oldClass newClass : ClassDecl)
  (l : ExactLabels old.get new.get (List.finRange old.length) (List.finRange new.length))

/-- The places of the partners by erasure of a method. -/
def partners (i : Fin old.length) : List (Fin new.length) :=
  l.free.filter fun j =>
    (closest oldClass newClass (l.free.map new.get) (old.get i)).contains (new.get j)

def places : Places old new :=
  { matched :=
      l.pairs.map (fun p => (p.1, [p.2])) ++
        (l.pending.filter fun i => !(l.partners oldClass newClass i).isEmpty).map fun i =>
          (i, l.partners oldClass newClass i)
    removed := l.pending.filter fun i => (l.partners oldClass newClass i).isEmpty
    added := l.free.filter fun j =>
      !l.pending.any fun i => (l.partners oldClass newClass i).contains j }

variable {oldClass newClass l}

theorem map_partners (i : Fin old.length) :
    (l.partners oldClass newClass i).map new.get =
      closest oldClass newClass (l.free.map new.get) (old.get i) := by
  conv_rhs => rw [closest_eq_filter, List.filter_map]
  rfl

theorem isEmpty_partners (i : Fin old.length) :
    (l.partners oldClass newClass i).isEmpty =
      (closest oldClass newClass (l.free.map new.get) (old.get i)).isEmpty := by
  rw [← map_partners, List.isEmpty_map]

theorem mem_partners_iff {i : Fin old.length} {j : Fin new.length} (hj : j ∈ l.free) :
    j ∈ l.partners oldClass newClass i ↔
      new.get j ∈ closest oldClass newClass (l.free.map new.get) (old.get i) := by
  simp [partners, hj]

theorem pairing_places :
    (l.places oldClass newClass).pairing = between oldClass old newClass new := by
  have hexact := l.exact_eq
  rw [List.map_get_finRange, List.map_get_finRange] at hexact
  have hadded : ∀ j ∈ l.free,
      (l.pending.any fun i => (l.partners oldClass newClass i).contains j) =
        l.pending.any fun i =>
          (closest oldClass newClass (l.free.map new.get) (old.get i)).contains (new.get j) := by
    intro j hj
    rw [Bool.eq_iff_iff]
    simp only [List.any_eq_true, List.contains_iff_mem, mem_partners_iff hj]
  simp only [Places.pairing, places, between, hexact, Pairing.mk.injEq]
  refine ⟨?_, ?_, ?_⟩
  · simp [List.filter_map, Function.comp_def, isEmpty_partners, map_partners, Prod.map]
  · simp [List.filter_map, Function.comp_def, isEmpty_partners]
  · rw [List.filter_map, List.filter_congr fun j hj => congrArg _ (hadded j hj)]
    simp [Function.comp_def]

/-- A matched place is in a pair by written types, or is pending and has its partners by erasure. -/
theorem mem_matched_iff {x : Fin old.length × List (Fin new.length)} :
    x ∈ (l.places oldClass newClass).matched ↔
      (∃ p ∈ l.pairs, x = (p.1, [p.2])) ∨
        ∃ i ∈ l.pending, l.partners oldClass newClass i ≠ [] ∧
          x = (i, l.partners oldClass newClass i) := by
  simp only [places, List.mem_append, List.mem_map, List.mem_filter, Bool.not_eq_true',
    List.isEmpty_eq_false_iff, and_assoc, eq_comm (a := x)]

theorem sameErasure_of_mem_partners
    {i : Fin old.length} {j : Fin new.length} (h : j ∈ l.partners oldClass newClass i) :
    Places.SameErasure oldClass newClass i j :=
  (mem_closest (by simpa using (List.mem_filter.mp h).2)).2

/-- Where a free method has the erased signature of a pending one, there are partners. -/
theorem partners_ne_nil_of_sameErasure
    {i : Fin old.length} {j : Fin new.length} (hj : j ∈ l.free)
    (h : Places.SameErasure oldClass newClass i j) : l.partners oldClass newClass i ≠ [] := by
  rw [Ne, ← List.isEmpty_iff, isEmpty_partners, List.isEmpty_iff, closest_eq_nil_iff]
  exact List.ne_nil_of_mem (List.mem_filter.mpr ⟨List.mem_map_of_mem hj, beq_iff_eq.mpr h⟩)

theorem mem_pairs_or_free (j : Fin new.length) : (∃ p ∈ l.pairs, p.2 = j) ∨ j ∈ l.free := by
  simpa using l.new_perm.mem_iff.mpr (List.mem_finRange j)

theorem new_nodup : (l.pairs.map Prod.snd ++ l.free).Nodup :=
  l.new_perm.nodup_iff.mpr (List.nodup_finRange _)

theorem not_mem_free {p : Fin old.length × Fin new.length} (hp : p ∈ l.pairs) : p.2 ∉ l.free :=
  fun hfree => (List.disjoint_of_nodup_append l.new_nodup) (List.mem_map_of_mem hp) hfree

theorem free_nodup : l.free.Nodup :=
  l.new_nodup.of_append_right

theorem old_once_places :
    ((l.places oldClass newClass).matched.map Prod.fst ++
      (l.places oldClass newClass).removed).Perm (List.finRange old.length) := by
  have hsplit := List.filter_append_perm
    (fun i => !(l.partners oldClass newClass i).isEmpty) l.pending
  have hmatched : (l.places oldClass newClass).matched.map Prod.fst =
      l.pairs.map Prod.fst ++
        l.pending.filter fun i => !(l.partners oldClass newClass i).isEmpty := by
    simp [places, Function.comp_def]
  rw [hmatched, List.append_assoc]
  refine (List.Perm.append_left _ ?_).trans l.old_perm
  simpa [places] using hsplit

/-- A partner by written types stands in one pair, and is not free for others. -/
theorem exclusive_places
    {x : Fin old.length × List (Fin new.length)} (hx : x ∈ (l.places oldClass newClass).matched)
    {j : Fin new.length} (hj : j ∈ x.2) (hsame : Places.SameTypes x.1 j) :
    x.2 = [j] ∧ ∀ y ∈ (l.places oldClass newClass).matched, j ∈ y.2 → y = x := by
  rcases mem_matched_iff.mp hx with ⟨p, hp, rfl⟩ | ⟨i, hi, -, rfl⟩
  · obtain rfl : j = p.2 := List.mem_singleton.mp hj
    refine ⟨rfl, fun y hy hmem => ?_⟩
    rcases mem_matched_iff.mp hy with ⟨q, hq, rfl⟩ | ⟨i, -, -, rfl⟩
    · have heq : p.2 = q.2 := List.mem_singleton.mp hmem
      rw [List.inj_on_of_nodup_map l.new_nodup.of_append_left hp hq heq]
    · exact absurd (List.mem_filter.mp hmem).1 (not_mem_free hp)
  · exact absurd hsame (l.left_apart i hi j (List.mem_filter.mp hj).1)

/-- Whatever would fit a removed method is not free. -/
theorem removed_unfit_places
    {i : Fin old.length} (hi : i ∈ (l.places oldClass newClass).removed) {j : Fin new.length}
    (hfits : Places.SameTypes i j ∨ Places.SameErasure oldClass newClass i j) :
    ∃ x ∈ (l.places oldClass newClass).matched, j ∈ x.2 ∧ Places.SameTypes x.1 j := by
  obtain ⟨hpending, hempty⟩ := List.mem_filter.mp hi
  rcases l.mem_pairs_or_free j with ⟨p, hp, rfl⟩ | hfree
  · exact ⟨_, mem_matched_iff.mpr (.inl ⟨p, hp, rfl⟩), List.mem_singleton_self _, l.pairs_same p hp⟩
  · rcases hfits with hsame | herasure
    · exact absurd hsame (l.left_apart i hpending j hfree)
    · exact absurd (List.isEmpty_iff.mp hempty) (partners_ne_nil_of_sameErasure hfree herasure)

theorem mem_added_places_iff (j : Fin new.length) :
    j ∈ (l.places oldClass newClass).added ↔
      ∀ x ∈ (l.places oldClass newClass).matched, j ∉ x.2 := by
  have hadded : j ∈ (l.places oldClass newClass).added ↔
      j ∈ l.free ∧ ∀ i ∈ l.pending, j ∉ l.partners oldClass newClass i := by
    simp [places]
  rw [hadded]
  constructor
  · rintro ⟨hfree, hpartner⟩ x hx
    rcases mem_matched_iff.mp hx with ⟨p, hp, rfl⟩ | ⟨i, hi, -, rfl⟩
    · intro hj
      obtain rfl : j = p.2 := List.mem_singleton.mp hj
      exact not_mem_free hp hfree
    · exact hpartner i hi
  · intro hunmatched
    constructor
    · refine (l.mem_pairs_or_free j).resolve_left ?_
      rintro ⟨p, hp, rfl⟩
      exact hunmatched _ (mem_matched_iff.mpr (.inl ⟨p, hp, rfl⟩)) (List.mem_singleton_self _)
    · intro i hi hj
      exact hunmatched _ (mem_matched_iff.mpr (.inr ⟨i, hi, List.ne_nil_of_mem hj, rfl⟩)) hj

theorem isPartition_places : (l.places oldClass newClass).IsPartition oldClass newClass where
  old_once := old_once_places
  partners_ne_nil x hx := by
    rcases mem_matched_iff.mp hx with ⟨p, -, rfl⟩ | ⟨i, -, hne, rfl⟩
    · exact List.cons_ne_nil _ _
    · exact hne
  partners_nodup x hx := by
    rcases mem_matched_iff.mp hx with ⟨p, -, rfl⟩ | ⟨i, -, -, rfl⟩
    · exact List.nodup_singleton _
    · exact l.free_nodup.filter _
  fits x hx j hj := by
    rcases mem_matched_iff.mp hx with ⟨p, hp, rfl⟩ | ⟨i, -, -, rfl⟩
    · obtain rfl : j = p.2 := List.mem_singleton.mp hj
      exact .inl (l.pairs_same p hp)
    · exact .inr (sameErasure_of_mem_partners hj)
  exclusive _ hx _ hj hsame := exclusive_places hx hj hsame
  removed_unfit _ hi _ hfits := removed_unfit_places hi hfits
  added_nodup := l.free_nodup.filter _
  mem_added_iff := mem_added_places_iff

end ExactLabels

/-! ## Pairs from the other side -/

/-- Each old method with each of its partners. -/
def pairs (p : Pairing) : List (Method × Method) :=
  p.matched.flatMap fun x => x.2.map fun n => (x.1, n)

theorem pairs_exact_cons_of_find?
    {m n : Method} {new : List Method}
    (h : new.find? (fun n => n.exactSignature == m.exactSignature) = some n) (old : List Method) :
    (exact (m :: old) new).pairs =
      (m, n) :: (exact old (new.eraseP fun n => n.exactSignature == m.exactSignature)).pairs := by
  simp only [exact, h]

theorem pairs_exact_cons_of_find?_eq_none
    {m : Method} {new : List Method}
    (h : new.find? (fun n => n.exactSignature == m.exactSignature) = none) (old : List Method) :
    (exact (m :: old) new).pairs = (exact old new).pairs := by
  simp only [exact, h]

/-- A further new method in front is paired with the first old method with its types. -/
theorem pairs_exact_cons_right
    {n m : Method} {old : List Method}
    (h : old.find? (fun m => m.exactSignature == n.exactSignature) = some m) (new : List Method) :
    (exact old (n :: new)).pairs.Perm
      ((m, n) :: (exact (old.eraseP fun m => m.exactSignature == n.exactSignature) new).pairs) := by
  induction old generalizing new with
  | nil => cases h
  | cons first old ih =>
    by_cases hsame : first.exactSignature = n.exactSignature
    · obtain rfl : first = m := by simpa [hsame] using h
      rw [pairs_exact_cons_of_find? (n := n) (by simp [hsame])]
      simp [hsame]
    · have hother : ¬ n.exactSignature = first.exactSignature := fun heq => hsame heq.symm
      have hrest : old.find? (fun m => m.exactSignature == n.exactSignature) = some m := by
        simpa [hsame] using h
      have hfind : (n :: new).find? (fun x => x.exactSignature == first.exactSignature) =
          new.find? fun x => x.exactSignature == first.exactSignature := by
        simp [hother]
      have herase : (first :: old).eraseP (fun m => m.exactSignature == n.exactSignature) =
          first :: old.eraseP (fun m => m.exactSignature == n.exactSignature) := by
        simp [hsame]
      rw [herase]
      cases hnew : new.find? fun x => x.exactSignature == first.exactSignature with
      | some x =>
        have htail : (n :: new).eraseP (fun x => x.exactSignature == first.exactSignature) =
            n :: new.eraseP fun x => x.exactSignature == first.exactSignature := by
          simp [hother]
        rw [pairs_exact_cons_of_find? (hfind.trans hnew), pairs_exact_cons_of_find? hnew, htail]
        exact ((ih hrest _).cons _).trans (List.Perm.swap _ _ _)
      | none =>
        rw [pairs_exact_cons_of_find?_eq_none (hfind.trans hnew),
          pairs_exact_cons_of_find?_eq_none hnew]
        exact ih hrest new

/-- A further new method in front is in no pair if no old method has its types. -/
theorem pairs_exact_cons_right_of_find?_eq_none
    {n : Method} {old : List Method}
    (h : old.find? (fun m => m.exactSignature == n.exactSignature) = none) (new : List Method) :
    (exact old (n :: new)).pairs = (exact old new).pairs := by
  induction old generalizing new with
  | nil => rfl
  | cons first old ih =>
    obtain ⟨hsame, hrest⟩ : ¬ first.exactSignature = n.exactSignature ∧
        old.find? (fun m => m.exactSignature == n.exactSignature) = none := by
      simpa using h
    have hother : ¬ n.exactSignature = first.exactSignature := fun heq => hsame heq.symm
    have hfind : (n :: new).find? (fun x => x.exactSignature == first.exactSignature) =
        new.find? fun x => x.exactSignature == first.exactSignature := by
      simp [hother]
    cases hnew : new.find? fun x => x.exactSignature == first.exactSignature with
    | some x =>
      have htail : (n :: new).eraseP (fun x => x.exactSignature == first.exactSignature) =
          n :: new.eraseP fun x => x.exactSignature == first.exactSignature := by
        simp [hother]
      rw [pairs_exact_cons_of_find? (hfind.trans hnew), pairs_exact_cons_of_find? hnew, htail,
        ih hrest]
    | none =>
      rw [pairs_exact_cons_of_find?_eq_none (hfind.trans hnew),
        pairs_exact_cons_of_find?_eq_none hnew, ih hrest]

/-- Pairing by written types makes the converse pairs from the other side. -/
theorem pairs_exact_swap (old new : List Method) :
    (exact new old).pairs.Perm ((exact old new).pairs.map Prod.swap) := by
  induction old generalizing new with
  | nil =>
    induction new with
    | nil => exact .refl _
    | cons n new ih => exact ih
  | cons m old ih =>
    cases hnew : new.find? fun n => n.exactSignature == m.exactSignature with
    | some n =>
      rw [pairs_exact_cons_of_find? hnew, List.map_cons]
      exact (pairs_exact_cons_right hnew old).trans ((ih _).cons _)
    | none =>
      rw [pairs_exact_cons_of_find?_eq_none hnew, pairs_exact_cons_right_of_find?_eq_none hnew]
      exact ih new

/-- The pairs by erasure between the methods that pairing by written types leaves. -/
def erasurePairs (oldClass newClass : ClassDecl) (pending free : List Method) :
    List (Method × Method) :=
  pending.flatMap fun m => (closest oldClass newClass free m).map fun n => (m, n)

/-- Methods without partners are in no pair. -/
theorem erasurePairs_filter (oldClass newClass : ClassDecl) (pending free : List Method) :
    erasurePairs oldClass newClass
        (pending.filter fun m => !(closest oldClass newClass free m).isEmpty) free =
      erasurePairs oldClass newClass pending free := by
  induction pending with
  | nil => rfl
  | cons m pending ih =>
    simp only [erasurePairs] at ih
    cases hclosest : closest oldClass newClass free m with
    | nil => simp [erasurePairs, hclosest, ih]
    | cons n others => simp [erasurePairs, hclosest, ih]

theorem pairs_between (oldClass newClass : ClassDecl) (old new : List Method) :
    (between oldClass old newClass new).pairs =
      (exact old new).pairs ++
        erasurePairs oldClass newClass (exact old new).pending (exact old new).free := by
  rw [← erasurePairs_filter]
  simp [pairs, between, erasurePairs, List.flatMap_map]

section Unique

variable {oldClass newClass : ClassDecl} {old new : List Method}

theorem closest_nodup (hnew : (new.map newClass.signatureOf).Nodup) (m : Method) :
    (closest oldClass newClass new m).Nodup := by
  rw [closest_eq_filter]
  exact hnew.of_map.filter _

/-- Where erased signatures are unique, no two methods are closest. -/
theorem length_closest_le_one (hnew : (new.map newClass.signatureOf).Nodup) (m : Method) :
    (closest oldClass newClass new m).length ≤ 1 := by
  match hclosest : closest oldClass newClass new m with
  | [] => exact Nat.zero_le 1
  | [_] => exact Nat.le_refl 1
  | x :: y :: others =>
    have hnodup : (closest oldClass newClass new m).Nodup := closest_nodup hnew m
    have hx := mem_closest (n := x) (by rw [hclosest]; simp)
    have hy := mem_closest (n := y) (by rw [hclosest]; simp)
    have heq : x = y := List.inj_on_of_nodup_map hnew hx.1 hy.1 (hx.2.trans hy.2.symm)
    simp [hclosest, heq] at hnodup

theorem mem_erasurePairs_iff
    (hnew : (new.map newClass.signatureOf).Nodup) {p : Method × Method} :
    p ∈ erasurePairs oldClass newClass old new ↔
      p.1 ∈ old ∧ p.2 ∈ new ∧ newClass.signatureOf p.2 = oldClass.signatureOf p.1 := by
  simp only [erasurePairs, List.mem_flatMap, List.mem_map]
  constructor
  · rintro ⟨m, hm, n, hn, rfl⟩
    exact ⟨hm, mem_closest hn⟩
  · rintro ⟨hm, hn, hsignature⟩
    exact ⟨p.1, hm, p.2, (mem_closest_iff hnew hn).mpr hsignature, rfl⟩

theorem erasurePairs_nodup
    (hold : old.Nodup) (hnew : (new.map newClass.signatureOf).Nodup) :
    (erasurePairs oldClass newClass old new).Nodup := by
  refine List.nodup_flatMap.mpr ⟨fun m _ => ?_, hold.imp fun {m m'} hne => ?_⟩
  · exact (closest_nodup hnew m).map fun _ _ heq => (Prod.mk.inj heq).2
  · intro p hp hp'
    obtain ⟨n, -, rfl⟩ := List.mem_map.mp hp
    obtain ⟨n', -, heq⟩ := List.mem_map.mp hp'
    exact hne (Prod.mk.inj heq).1.symm

/-- Where erased signatures are unique on both sides, erasure pairs a method with the one that has
its signature, from whichever side one looks. -/
theorem erasurePairs_swap
    (hold : (old.map oldClass.signatureOf).Nodup) (hnew : (new.map newClass.signatureOf).Nodup) :
    (erasurePairs newClass oldClass new old).Perm
      ((erasurePairs oldClass newClass old new).map Prod.swap) := by
  refine (List.perm_ext_iff_of_nodup (erasurePairs_nodup hnew.of_map hold)
    ((erasurePairs_nodup hold.of_map hnew).map Prod.swap_injective)).mpr fun p => ?_
  rw [mem_erasurePairs_iff hold, ← Prod.swap_swap p, List.mem_map_of_injective Prod.swap_injective,
    mem_erasurePairs_iff hnew]
  simp only [Prod.fst_swap, Prod.snd_swap, Prod.swap_swap]
  exact ⟨fun h => ⟨h.2.1, h.1, h.2.2.symm⟩, fun h => ⟨h.2.1, h.1, h.2.2.symm⟩⟩

end Unique

theorem free_sublist (old new : List Method) : (exact old new).free.Sublist new := by
  have hswap := leftovers_swap new old
  simp only [leftovers, Prod.swap_prod_mk, Prod.mk.injEq] at hswap
  rw [hswap.2]
  exact pending_sublist new old

/-- Where erased signatures are unique on both sides, the pairs are the converse ones from the other
side. -/
theorem pairs_between_swap
    {a b : ClassDecl} {as bs : List Method}
    (has : (as.map a.signatureOf).Nodup) (hbs : (bs.map b.signatureOf).Nodup) :
    (between b bs a as).pairs.Perm ((between a as b bs).pairs.map Prod.swap) := by
  have hswap := leftovers_swap as bs
  simp only [leftovers, Prod.swap_prod_mk, Prod.mk.injEq] at hswap
  obtain ⟨hpending, hfree⟩ := hswap
  rw [pairs_between, pairs_between, List.map_append, hpending, hfree]
  refine (pairs_exact_swap as bs).append (erasurePairs_swap ?_ ?_)
  · exact has.sublist ((pending_sublist as bs).map _)
  · exact hbs.sublist ((free_sublist as bs).map _)

/-- Where erased signatures are unique, a matched method has one partner. -/
theorem length_partners_eq_one
    {a b : ClassDecl} {as bs : List Method} (hbs : (bs.map b.signatureOf).Nodup)
    {x : Method × List Method} (hx : x ∈ (between a as b bs).matched) : x.2.length = 1 := by
  simp only [between, List.mem_append, List.mem_map, List.mem_filter] at hx
  rcases hx with ⟨p, -, rfl⟩ | ⟨m, ⟨-, hsome⟩, rfl⟩
  · rfl
  · have hunique := hbs.sublist ((free_sublist as bs).map b.signatureOf)
    have hpos : 0 < (closest a b (exact as bs).free m).length := by
      rw [List.length_pos_iff]
      simpa using hsome
    exact le_antisymm (length_closest_le_one hunique m) hpos

/-- Every pairing is a partition of both lists; where erased signatures are unique on both sides,
every old method has at most one partner, and the pairing from the other side is the converse. -/
theorem between_partition_swap
    (oldClass : ClassDecl) (old : List Method) (newClass : ClassDecl) (new : List Method) :
    (∃ p : Places old new, p.pairing = between oldClass old newClass new ∧
      p.IsPartition oldClass newClass) ∧
    ((old.map oldClass.signatureOf).Nodup → (new.map newClass.signatureOf).Nodup →
      (∀ x ∈ (between oldClass old newClass new).matched, x.2.length = 1) ∧
      (between newClass new oldClass old).pairs.Perm
        ((between oldClass old newClass new).pairs.map Prod.swap) ∧
      (between newClass new oldClass old).removed = (between oldClass old newClass new).added ∧
      (between newClass new oldClass old).added = (between oldClass old newClass new).removed) := by
  constructor
  · obtain ⟨l⟩ := exists_exactLabels old.get new.get (List.finRange old.length)
      (List.finRange new.length)
    exact ⟨l.places oldClass newClass, l.pairing_places, l.isPartition_places⟩
  · intro hold hnew
    exact ⟨fun _ hx => length_partners_eq_one hnew hx, pairs_between_swap hold hnew,
      removed_eq_added_swap hnew, (removed_eq_added_swap hold).symm⟩

def sieve (bound : String) : ClassDecl :=
  { ClassDecl.declare "a" "Sieve" .ordinary with
    typeParameters := [{ name := "E", bounds := [.named bound] }] }

/-- A method with one parameter, and a type variable of its own that has the given bound. -/
def sift (bound : String) (parameter : TypeRef) : Method :=
  { name := "sift", owner := "a.Sieve", modifiers := { access := .pub }
    returnType := some (.named "void")
    typeParameters := [{ name := "T", bounds := [.named bound] }]
    parameters := [{ type := parameter }] }

/-- Two overloads written alike, and one whose parameter is the variable of the class. -/
def sieveOld : List Method :=
  [sift "b.Sand" (.named "T"), sift "b.Silt" (.named "T"), sift "b.Sand" (.named "E")]

/-- The overloads the other way round, and one that is written otherwise but erases alike. -/
def sieveNew : List Method :=
  [sift "b.Clay" (.named "b.Grit"), sift "b.Silt" (.named "T"), sift "b.Sand" (.named "T")]

theorem sieve_partition_swap :
    (sieveOld.map (sieve "b.Grit").signatureOf).Nodup ∧
    (sieveNew.map (sieve "b.Gravel").signatureOf).Nodup ∧
    (between (sieve "b.Grit") sieveOld (sieve "b.Gravel") sieveNew).matched.length = 3 ∧
    (between (sieve "b.Gravel") sieveNew (sieve "b.Grit") sieveOld).pairs.Perm
      ((between (sieve "b.Grit") sieveOld (sieve "b.Gravel") sieveNew).pairs.map Prod.swap) := by
  have hold : (sieveOld.map (sieve "b.Grit").signatureOf).Nodup := by decide
  have hnew : (sieveNew.map (sieve "b.Gravel").signatureOf).Nodup := by decide
  exact ⟨hold, hnew, by decide, ((between_partition_swap _ _ _ _).2 hold hnew).2.1⟩

end Pairing
end ApiSurface
