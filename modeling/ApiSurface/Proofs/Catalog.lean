import ApiSurface.Catalog
import Mathlib.Data.List.Pairwise

/-!
# Looking things up in catalogues

A catalogue is determined by what is found in it under each name.  Storing an item changes what is
found under its own key and nothing else, so the contents of a catalogue that was built step by
step can be computed name by name, whatever the order of the steps was.
-/

namespace ApiSurface
namespace Catalog

variable {α : Type} {key : α → String}

/-- Two items of a catalogue with one key are the same item. -/
theorem eq_of_key_eq
    {c : Catalog key} {x y : α}
    (hx : x ∈ c.items) (hy : y ∈ c.items) (hkey : key x = key y) : x = y := by
  by_contra hne
  have hsymm : Std.Symm fun a b : α => key a ≠ key b := ⟨fun _ _ h => h.symm⟩
  have hpair : c.items.Pairwise fun a b => key a ≠ key b := by
    refine c.ordered.imp ?_
    intro a b hlt heq
    exact String.lt_irrefl _ (heq ▸ hlt)
  exact hpair.forall hx hy hne hkey

theorem find?_eq_some_iff
    {c : Catalog key} {name : String} {x : α} :
    c.find? name = some x ↔ x ∈ c.items ∧ key x = name := by
  constructor
  · intro h
    exact ⟨mem_of_find? h, key_of_find? h⟩
  · rintro ⟨hx, rfl⟩
    cases hf : c.find? (key x) with
    | none =>
      have hno := List.find?_eq_none.mp hf x hx
      simp at hno
    | some y =>
      rw [eq_of_key_eq (mem_of_find? hf) hx (key_of_find? hf)]

theorem find?_eq_none_iff
    {c : Catalog key} {name : String} :
    c.find? name = none ↔ ∀ x ∈ c.items, key x ≠ name := by
  simp [find?]

theorem find?_place
    (x : α) (ys : List α) (name : String)
    (hys : ys.Pairwise fun a b => key a < key b) :
    (place key x ys).find? (fun y => key y == name) =
      if key x = name then some x else ys.find? fun y => key y == name := by
  induction ys with
  | nil =>
    by_cases hx : key x = name
    · simp [place, hx]
    · simp [place, hx]
  | cons y ys ih =>
    obtain ⟨hy, htail⟩ := List.pairwise_cons.mp hys
    by_cases hx : key x = name
    · -- Nothing in front of the place of `x` carries its key.
      subst hx
      by_cases hlt : key x < key y
      · simp [place, hlt]
      · by_cases heq : key x = key y
        · simp [place, heq]
        · simp only [place, hlt, heq, if_false, List.find?_cons,
            beq_eq_false_iff_ne.mpr (Ne.symm heq)]
          rw [ih htail]
          simp
    · by_cases hlt : key x < key y
      · simp [place, hlt, hx]
      · by_cases heq : key x = key y
        · have hne : ¬ key y = name := fun h => hx (heq.trans h)
          simp [place, heq, hne]
        · simp only [place, hlt, heq, if_false, List.find?_cons]
          rw [ih htail, if_neg hx, if_neg hx]

/-- Storing an item changes what is found under its key and nothing else. -/
theorem find?_insert
    (c : Catalog key) (x : α) (name : String) :
    (c.insert x).find? name = if key x = name then some x else c.find? name :=
  find?_place x c.items name c.ordered

/-- Catalogues with the same items are equal. -/
theorem eq_of_mem_iff
    {a b : Catalog key} (h : ∀ x, x ∈ a.items ↔ x ∈ b.items) : a = b := by
  have hnodup : ∀ c : Catalog key, c.items.Nodup := by
    intro c
    refine c.ordered.imp ?_
    rintro x y hlt rfl
    exact String.lt_irrefl _ hlt
  have hperm : a.items.Perm b.items :=
    (List.perm_ext_iff_of_nodup (hnodup a) (hnodup b)).mpr h
  refine Catalog.ext (hperm.eq_of_pairwise (fun x y _ _ hxy hyx => ?_) a.ordered b.ordered)
  exact absurd (String.lt_trans hxy hyx) (String.lt_irrefl _)

/-- Catalogues in which the same is found under every name are equal. -/
theorem eq_of_find?_eq
    {a b : Catalog key} (h : ∀ name, a.find? name = b.find? name) : a = b := by
  refine eq_of_mem_iff fun x => ?_
  have hfind := h (key x)
  constructor
  · intro hx
    rw [find?_eq_some_iff.mpr ⟨hx, rfl⟩] at hfind
    exact mem_of_find? hfind.symm
  · intro hx
    rw [find?_eq_some_iff.mpr ⟨hx, rfl⟩] at hfind
    exact mem_of_find? hfind

theorem mem_insert_iff
    {c : Catalog key} {x y : α} :
    y ∈ (c.insert x).items ↔ y = x ∨ (y ∈ c.items ∧ key x ≠ key y) := by
  have hfind := find?_insert c x (key y)
  constructor
  · intro hy
    rw [find?_eq_some_iff.mpr ⟨hy, rfl⟩] at hfind
    by_cases hkey : key x = key y
    · rw [if_pos hkey] at hfind
      exact .inl (Option.some.inj hfind)
    · rw [if_neg hkey] at hfind
      exact .inr ⟨mem_of_find? hfind.symm, hkey⟩
  · rintro (rfl | ⟨hy, hkey⟩)
    · rw [if_pos rfl] at hfind
      exact mem_of_find? hfind
    · rw [if_neg hkey, find?_eq_some_iff.mpr ⟨hy, rfl⟩] at hfind
      exact mem_of_find? hfind

/-- Of two items stored under one key the second stays. -/
theorem insert_insert
    (c : Catalog key) {x y : α} (h : key x = key y) : (c.insert x).insert y = c.insert y := by
  refine eq_of_find?_eq fun name => ?_
  rw [find?_insert, find?_insert, find?_insert, h]
  split <;> rfl

/-- Storing an item where it is stored already changes nothing. -/
theorem insert_eq_self
    {c : Catalog key} {x : α} (h : c.find? (key x) = some x) : c.insert x = c := by
  refine eq_of_find?_eq fun name => ?_
  rw [find?_insert]
  split
  · rename_i hname
    rw [← hname, h]
  · rfl

def filter (c : Catalog key) (test : α → Bool) : Catalog key :=
  ⟨c.items.filter test, c.ordered.filter test⟩

theorem mem_filter_iff {c : Catalog key} {test : α → Bool} {x : α} :
    x ∈ (c.filter test).items ↔ x ∈ c.items ∧ test x = true :=
  List.mem_filter

theorem mem_map_iff {c : Catalog key} {f : α → α} {keeps : ∀ x, key (f x) = key x} {y : α} :
    y ∈ (c.map f keeps).items ↔ ∃ x ∈ c.items, f x = y :=
  List.mem_map

theorem map_map
    (c : Catalog key) (f g : α → α) (hf : ∀ x, key (f x) = key x) (hg : ∀ x, key (g x) = key x) :
    (c.map f hf).map g hg = c.map (g ∘ f) fun x => (hg (f x)).trans (hf x) :=
  Catalog.ext (List.map_map ..)

theorem map_congr
    {c : Catalog key} {f g : α → α} {hf : ∀ x, key (f x) = key x} {hg : ∀ x, key (g x) = key x}
    (h : ∀ x, f x = g x) : c.map f hf = c.map g hg :=
  Catalog.ext (List.map_congr_left fun x _ => h x)

/-- What is found among changed items is what was found before, changed. -/
theorem find?_map
    (c : Catalog key) (f : α → α) (keeps : ∀ x, key (f x) = key x) (name : String) :
    (c.map f keeps).find? name = (c.find? name).map f := by
  simp only [find?, map, List.find?_map, Function.comp_def, keeps]

/-- Changing an item under its name changes what is found under that name and nothing else. -/
theorem find?_modify
    (c : Catalog key) (name : String) {f : α → α} (keeps : ∀ x, key (f x) = key x)
    (other : String) :
    (c.modify name f).find? other =
      if name = other then (c.find? other).map f else c.find? other := by
  rw [modify]
  by_cases hname : name = other
  · subst hname
    rw [if_pos rfl]
    cases hfound : c.find? name with
    | none => exact hfound
    | some x => simp only [find?_insert, keeps, key_of_find? hfound, if_true, Option.map_some]
  · rw [if_neg hname]
    cases hfound : c.find? name with
    | none => rfl
    | some x => simp only [find?_insert, keeps, key_of_find? hfound, hname, if_false]

end Catalog

namespace NameSet

open Catalog

theorem mem_insert_iff {names : NameSet} {a b : String} :
    b ∈ (Catalog.insert names a).items ↔ b = a ∨ b ∈ names.items := by
  rw [Catalog.mem_insert_iff]
  constructor
  · rintro (h | ⟨h, -⟩)
    · exact .inl h
    · exact .inr h
  · rintro (h | h)
    · exact .inl h
    · by_cases hab : a = b
      · exact .inl hab.symm
      · exact .inr ⟨h, hab⟩

theorem contains_iff_mem {names : NameSet} {a : String} :
    Catalog.contains names a = true ↔ a ∈ names.items := by
  simp [Catalog.contains]

theorem mem_foldl_insert_iff {names : NameSet} {xs : List String} {a : String} :
    a ∈ (xs.foldl Catalog.insert names).items ↔ a ∈ names.items ∨ a ∈ xs := by
  induction xs generalizing names with
  | nil => simp
  | cons x xs ih =>
    rw [List.foldl_cons, ih, mem_insert_iff, List.mem_cons]
    constructor
    · rintro ((h | h) | h)
      · exact .inr (.inl h)
      · exact .inl h
      · exact .inr (.inr h)
    · rintro (h | h | h)
      · exact .inl (.inr h)
      · exact .inl (.inl h)
      · exact .inr h

theorem mem_ofList_iff {xs : List String} {a : String} :
    a ∈ (Catalog.ofList xs : NameSet).items ↔ a ∈ xs := by
  rw [Catalog.ofList, mem_foldl_insert_iff]
  simp [Catalog.empty]

theorem mem_union_iff {names others : NameSet} {a : String} :
    a ∈ (names.union others).items ↔ a ∈ names.items ∨ a ∈ others.items :=
  mem_foldl_insert_iff

end NameSet

end ApiSurface
