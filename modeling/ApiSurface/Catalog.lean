/-!
# Catalogues in name order

A catalogue holds items that each carry their own name, at most one under each name, and lists
them in the order of their names.  The order is part of the type, so two catalogues with the same
items are equal and every traversal is determined by the contents alone.
-/

namespace ApiSurface

/-- Items listed in strictly ascending order of their keys. -/
@[ext]
structure Catalog {α : Type} (key : α → String) where
  /-- The items, in the order of their keys. -/
  items : List α
  /-- Keys strictly ascend, so no two items share one. -/
  ordered : items.Pairwise fun a b => key a < key b

namespace Catalog

variable {α : Type} {key : α → String}

instance [DecidableEq α] : DecidableEq (Catalog key) := fun a b =>
  if h : a.items = b.items then isTrue (Catalog.ext h)
  else isFalse fun e => h (congrArg Catalog.items e)

def empty : Catalog key :=
  ⟨[], List.Pairwise.nil⟩

instance : EmptyCollection (Catalog key) :=
  ⟨empty⟩

instance : Inhabited (Catalog key) :=
  ⟨empty⟩

def find? (c : Catalog key) (name : String) : Option α :=
  c.items.find? fun x => key x == name

/-- Whether an item is stored under a name. -/
def contains (c : Catalog key) (name : String) : Bool :=
  c.items.any fun x => key x == name

def size (c : Catalog key) : Nat :=
  c.items.length

/-- The item found under a name has that name. -/
theorem key_of_find? {c : Catalog key} {name : String} {x : α} (h : c.find? name = some x) :
    key x = name := by
  simpa using List.find?_some h

/-- The item found under a name is one of the items. -/
theorem mem_of_find? {c : Catalog key} {name : String} {x : α} (h : c.find? name = some x) :
    x ∈ c.items :=
  List.mem_of_find?_eq_some h

/-- Place an item in an ordered list, in the stead of an item with the same key. -/
def place (key : α → String) (x : α) : List α → List α
  | [] => [x]
  | y :: ys =>
    if key x < key y then x :: y :: ys
    else if key x = key y then x :: ys
    else y :: place key x ys

theorem mem_place {x z : α} {ys : List α} (h : z ∈ place key x ys) : z = x ∨ z ∈ ys := by
  induction ys with
  | nil => simpa [place] using h
  | cons y ys ih =>
    simp only [place] at h
    split at h
    · simpa using h
    · split at h
      · rcases List.mem_cons.mp h with h | h
        · exact .inl h
        · exact .inr (List.mem_cons_of_mem _ h)
      · rcases List.mem_cons.mp h with rfl | h
        · exact .inr List.mem_cons_self
        · rcases ih h with h | h
          · exact .inl h
          · exact .inr (List.mem_cons_of_mem _ h)

theorem place_ordered {x : α} {ys : List α} (h : ys.Pairwise fun a b => key a < key b) :
    (place key x ys).Pairwise fun a b => key a < key b := by
  induction ys with
  | nil => simp [place]
  | cons y ys ih =>
    obtain ⟨hy, hys⟩ := List.pairwise_cons.mp h
    simp only [place]
    split
    · rename_i hxy
      refine List.pairwise_cons.mpr ⟨fun z hz => ?_, h⟩
      rcases List.mem_cons.mp hz with rfl | hz
      · exact hxy
      · exact String.lt_trans hxy (hy z hz)
    · split
      · rename_i hxy
        exact List.pairwise_cons.mpr ⟨fun z hz => hxy ▸ hy z hz, hys⟩
      · rename_i hlt hne
        have hyx : key y < key x := by
          rcases String.le_total (key y) (key x) with hle | hle
          · exact Classical.byContradiction fun hn => hne (String.le_antisymm hn hle)
          · exact absurd (String.le_antisymm hle hlt) hne
        refine List.pairwise_cons.mpr ⟨fun z hz => ?_, ih hys⟩
        rcases mem_place hz with rfl | hz
        · exact hyx
        · exact hy z hz

/-- Store an item under its own key, in the stead of an earlier item with that key. -/
def insert (c : Catalog key) (x : α) : Catalog key :=
  ⟨place key x c.items, place_ordered c.ordered⟩

/-- The catalogue of the items of a list; of items with one key the last stays. -/
def ofList (xs : List α) : Catalog key :=
  xs.foldl insert empty

/-- Change every item without changing its key. -/
def map (c : Catalog key) (f : α → α) (keeps : ∀ x, key (f x) = key x) : Catalog key :=
  ⟨c.items.map f, by
    rw [List.pairwise_map]
    simpa only [keeps] using c.ordered⟩

/-- Change the item under one name, if there is one, and store the result under its key. -/
def modify (c : Catalog key) (name : String) (f : α → α) : Catalog key :=
  match c.find? name with
  | some x => c.insert (f x)
  | none => c

end Catalog

/-- A finite set of names. -/
abbrev NameSet : Type :=
  Catalog fun name : String => name

namespace NameSet

/-- The names of one set that are not in another. -/
def without (a b : NameSet) : List String :=
  a.items.filter fun name => !b.contains name

/-- The names of either of two sets. -/
def union (a b : NameSet) : NameSet :=
  b.items.foldl Catalog.insert a

end NameSet

end ApiSurface
