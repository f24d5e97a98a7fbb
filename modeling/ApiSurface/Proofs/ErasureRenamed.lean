import ApiSurface.Declaration.Member
import ApiSurface.Proofs.Renaming

/-!
# Erasure under new names of type variables

A type that is read in two scopes, that of a method inside that of its class, erases alike
before and after its variables are renamed, if looking up a new name finds what looking up the
old one found. The bounds of the variables of the class are looked up through those of the
method as well, so they have to be the same in either scope.
-/

namespace ApiSurface

namespace TypeRef

variable (f : String → String) (t : TypeRef)

@[simp] theorem mapNames_name : (t.mapNames f).name = f t.name := by
  cases t; rfl

@[simp] theorem mapNames_dimensions : (t.mapNames f).dimensions = t.dimensions := by
  cases t; rfl

@[simp] theorem mapNames_bound : (t.mapNames f).bound = mapNamesBound f t.bound := by
  cases t; rfl

@[simp] theorem mapNames_nullability : (t.mapNames f).nullability = t.nullability := by
  cases t; rfl

theorem name_mem_names : t.name ∈ t.names := by
  cases t; simp [names]

theorem mem_names_of_upper {bound : TypeRef} (h : t.bound = some (.upper bound)) {name : String}
    (hname : name ∈ bound.names) : name ∈ t.names := by
  cases t
  subst h
  simp [names, namesBound, hname]

end TypeRef

/-- The variable with its name and the names in its bounds replaced. -/
def TypeParameter.mapNames (f : String → String) (p : TypeParameter) : TypeParameter :=
  { name := f p.name, bounds := p.bounds.map (TypeRef.mapNames f) }

/-- A variable of the name is declared. -/
def TypeParameter.Declares (ps : List TypeParameter) (name : String) : Prop :=
  ∃ p ∈ ps, p.name = name

instance (ps : List TypeParameter) (name : String) : Decidable (TypeParameter.Declares ps name) :=
  inferInstanceAs (Decidable (∃ p ∈ ps, p.name = name))

theorem TypeParameter.find?_eq_none_iff {ps : List TypeParameter} {name : String} :
    ps.find? (fun p => p.name == name) = none ↔ ¬ TypeParameter.Declares ps name := by
  simp [TypeParameter.Declares, List.find?_eq_none]

def TypeParameter.boundNames (ps : List TypeParameter) : List String :=
  ps.flatMap fun p => TypeRef.namesList p.bounds

open TypeParameter (Declares boundNames)

/-- New names for the variables of a method, `inner`, and of its class, `outer`, under which the
given names are looked up as before. -/
structure KeepsLookup (inner outer : String → String) (ms cs : List TypeParameter)
    (names : List String) : Prop where
  /-- The mark of wildcards is no variable. -/
  wildcard : ∀ name ∈ names, inner name = "?" ↔ name = "?"
  /-- A new name is found among the variables of the method where the old one was. -/
  own : ∀ name ∈ names, ∀ p ∈ ms, inner p.name = inner name ↔ p.name = name
  /-- A new name is found among the variables of the class where the old one was. -/
  passed : ∀ name ∈ names, ¬ Declares ms name → ∀ p ∈ cs, outer p.name = inner name ↔ p.name = name
  /-- What is no variable of either keeps its name. -/
  free : ∀ name ∈ names, ¬ Declares ms name → ¬ Declares cs name → inner name = name
  /-- The names in bounds are among those looked up. -/
  bounds : ∀ name, name ∈ boundNames ms ∨ name ∈ boundNames cs → name ∈ names
  /-- The bounds of the class are the same in either scope. -/
  outerBounds : ∀ name ∈ boundNames cs, inner name = outer name

theorem TypeRef.mem_namesList_of_mem {ts : List TypeRef} {t : TypeRef} (ht : t ∈ ts) {name : String}
    (hname : name ∈ t.names) : name ∈ namesList ts := by
  induction ts with
  | nil => cases ht
  | cons first ts ih =>
    rw [namesList, List.mem_append]
    rcases List.mem_cons.mp ht with rfl | ht
    · exact .inl hname
    · exact .inr (ih ht)

theorem TypeParameter.mem_boundNames {ps : List TypeParameter} {p : TypeParameter} (hp : p ∈ ps)
    {bound : TypeRef} (hbound : bound ∈ p.bounds) {name : String} (hname : name ∈ bound.names) :
    name ∈ boundNames ps :=
  List.mem_flatMap.mpr ⟨p, hp, TypeRef.mem_namesList_of_mem hbound hname⟩

namespace KeepsLookup

variable {inner outer : String → String} {ms cs : List TypeParameter} {names : List String}

theorem find?_eq_of_forall {α : Type} {p q : α → Bool} {xs : List α} (h : ∀ x ∈ xs, p x = q x) :
    xs.find? p = xs.find? q := by
  induction xs with
  | nil => rfl
  | cons x xs ih =>
    rw [List.find?_cons, List.find?_cons, h x List.mem_cons_self,
      ih fun y hy => h y (List.mem_cons_of_mem _ hy)]

/-- Looking up a new name finds the variable that the old one finds, with its new names. -/
theorem find?_eq
    (h : KeepsLookup inner outer ms cs names) {name : String} (hname : name ∈ names) :
    ((ms.map (TypeParameter.mapNames inner)) ++ cs.map (TypeParameter.mapNames outer)).find?
        (fun p => p.name == inner name) =
      ((ms.find? fun p => p.name == name).map (TypeParameter.mapNames inner)).or
        ((cs.find? fun p => p.name == name).map (TypeParameter.mapNames outer)) := by
  have hms : (ms.map (TypeParameter.mapNames inner)).find? (fun p => p.name == inner name) =
      (ms.find? fun p => p.name == name).map (TypeParameter.mapNames inner) := by
    rw [List.find?_map]
    refine congrArg _ (find?_eq_of_forall fun p hp => ?_)
    rw [Bool.eq_iff_iff]
    simpa [TypeParameter.mapNames] using h.own name hname p hp
  rw [List.find?_append, hms]
  cases hfind : ms.find? fun p => p.name == name with
  | some p => rfl
  | none =>
    have hundeclared : ¬ Declares ms name := TypeParameter.find?_eq_none_iff.mp hfind
    rw [List.find?_map]
    simp only [Option.map_none, Option.none_or]
    refine congrArg _ (find?_eq_of_forall fun p hp => ?_)
    rw [Bool.eq_iff_iff]
    simpa [TypeParameter.mapNames] using h.passed name hname hundeclared p hp

def renamedScope (inner outer : String → String) (ms cs : List TypeParameter) :
    List TypeParameter :=
  ms.map (TypeParameter.mapNames inner) ++ cs.map (TypeParameter.mapNames outer)

/-- What a lookup finds, with the names that its first bound has in the scope of the method. -/
theorem find?_renamedScope
    (h : KeepsLookup inner outer ms cs names) {name : String} (hname : name ∈ names) :
    ((ms ++ cs).find? (fun p => p.name == name) = none ∧ inner name = name ∧
        (renamedScope inner outer ms cs).find? (fun p => p.name == inner name) = none) ∨
      ∃ p q, (ms ++ cs).find? (fun p => p.name == name) = some p ∧
        (renamedScope inner outer ms cs).find? (fun p => p.name == inner name) = some q ∧
        q.bounds = p.bounds.map (TypeRef.mapNames inner) ∧
        ∀ bound ∈ p.bounds, ∀ n ∈ bound.names, n ∈ names := by
  rw [renamedScope, h.find?_eq hname, List.find?_append]
  cases hms : ms.find? fun p => p.name == name with
  | some p =>
    have hp := List.mem_of_find?_eq_some hms
    exact .inr ⟨p, _, rfl, rfl, rfl, fun bound hbound n hn =>
      h.bounds n (.inl (TypeParameter.mem_boundNames hp hbound hn))⟩
  | none =>
    cases hcs : cs.find? fun p => p.name == name with
    | some p =>
      have hp := List.mem_of_find?_eq_some hcs
      refine .inr ⟨p, _, rfl, rfl, List.map_congr_left fun bound hbound => ?_,
        fun bound hbound n hn => h.bounds n (.inr (TypeParameter.mem_boundNames hp hbound hn))⟩
      exact TypeRef.mapNames_congr bound fun n hn =>
        (h.outerBounds n (TypeParameter.mem_boundNames hp hbound hn)).symm
    | none =>
      have hown := TypeParameter.find?_eq_none_iff.mp hms
      have houter := TypeParameter.find?_eq_none_iff.mp hcs
      exact .inl ⟨rfl, h.free name hname hown houter, rfl⟩

theorem isWildcard_eq
    (h : KeepsLookup inner outer ms cs names) {t : TypeRef}
    (ht : ∀ name ∈ t.names, name ∈ names) : (t.mapNames inner).isWildcard = t.isWildcard := by
  rw [Bool.eq_iff_iff]
  simpa [TypeRef.isWildcard] using h.wildcard t.name (ht t.name t.name_mem_names)

/-- The erased name of a type does not change with the names of variables. -/
theorem erasedName_eq
    (h : KeepsLookup inner outer ms cs names) (steps : Nat) {t : TypeRef}
    (ht : ∀ name ∈ t.names, name ∈ names) :
    TypeRef.erasedName (renamedScope inner outer ms cs) steps (t.mapNames inner) =
      TypeRef.erasedName (ms ++ cs) steps t := by
  -- The induction is on the number of bounds that may still be followed.
  induction steps generalizing t with
  | zero =>
    rw [TypeRef.erasedName.eq_def, TypeRef.erasedName.eq_def (ms ++ cs)]
    simp only [h.isWildcard_eq ht, TypeRef.mapNames_name]
    cases t.isWildcard with
    | true => simp
    | false =>
      rcases h.find?_renamedScope (ht t.name t.name_mem_names) with
        ⟨hold, hkept, hnew⟩ | ⟨p, q, hold, hnew, -, -⟩
      · rw [hkept] at hnew
        simp only [hold, hnew, hkept, Bool.false_eq_true, if_false]
      · simp [hold, hnew]
  | succ steps ih =>
    rw [TypeRef.erasedName.eq_def, TypeRef.erasedName.eq_def (ms ++ cs)]
    simp only [h.isWildcard_eq ht, TypeRef.mapNames_name, TypeRef.mapNames_bound]
    cases t.isWildcard with
    | true =>
      match hbound : t.bound with
      | none => rfl
      | some (.lower bound) => rfl
      | some (.upper bound) => exact ih fun n hn => ht n (t.mem_names_of_upper hbound hn)
    | false =>
      rcases h.find?_renamedScope (ht t.name t.name_mem_names) with
        ⟨hold, hkept, hnew⟩ | ⟨p, q, hold, hnew, hbounds, hnames⟩
      · rw [hkept] at hnew
        simp only [hold, hnew, hkept, Bool.false_eq_true, if_false]
      · cases hp : p.bounds with
        | nil => simp [hold, hnew, hbounds, hp]
        | cons bound others =>
          simp only [hold, hnew, hbounds, hp, List.map_cons, Bool.false_eq_true, if_false]
          exact ih fun n hn => hnames bound (hp ▸ List.mem_cons_self) n hn

/-- The erasure of a type does not change with the names of variables. -/
theorem erased_eq
    (h : KeepsLookup inner outer ms cs names) {t : TypeRef}
    (ht : ∀ name ∈ t.names, name ∈ names) :
    (t.mapNames inner).erased (renamedScope inner outer ms cs) = t.erased (ms ++ cs) := by
  rw [TypeRef.erased, TypeRef.erased, h.erasedName_eq _ ht, TypeRef.mapNames_dimensions]

end KeepsLookup

end ApiSurface
