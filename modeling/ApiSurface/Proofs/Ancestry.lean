import ApiSurface.Proofs.Lineage
import Mathlib.Data.List.Nodup
import Mathlib.Logic.Relation

/-!
# The hierarchy above a class

Seen from a class, a name stands for the class declared under it, and the name of the class itself
for that class.  Supertypes are what can be reached from name to name; the walk meets each of them
once, whatever circles and gaps the hierarchy has.  Along superclasses alone there is one way on at
most, so the walk is a chain.
-/

namespace ApiSurface
namespace Lineage

/-! ## Reaching a name -/

/-- The class that a name stands for, seen from a class. -/
def standsFor? (cb : Codebase) (c : ClassDecl) (name : String) : Option ClassDecl :=
  if name = c.qualifiedName then some c else cb.class? name

/-- The class that the one name stands for has a link to the other name. -/
def Leads (cb : Codebase) (links : ClassDecl → List String) (c : ClassDecl) (name next : String) :
    Prop :=
  ∃ d, standsFor? cb c name = some d ∧ next ∈ links d

/-- The name can be reached from a class along links. -/
def Reaches (cb : Codebase) (links : ClassDecl → List String) (c : ClassDecl) (name : String) :
    Prop :=
  Relation.TransGen (Leads cb links c) c.qualifiedName name

variable {cb : Codebase} {links : ClassDecl → List String} {c : ClassDecl}

theorem standsFor?_self : standsFor? cb c c.qualifiedName = some c :=
  if_pos rfl

theorem standsFor?_of_ne {name : String} (h : name ≠ c.qualifiedName) :
    standsFor? cb c name = cb.class? name :=
  if_neg h

theorem leads_self {next : String} (h : next ∈ links c) : Leads cb links c c.qualifiedName next :=
  ⟨c, standsFor?_self, h⟩

theorem Reached.fresh {met starts : List String} {name : String}
    (h : Reached cb links met starts name) : name ∉ met := by
  cases h with
  | start _ fresh => exact fresh
  | link _ _ _ fresh => exact fresh

/-- Passing the name of the class itself leads nowhere new. -/
theorem reached_iff_reaches {name : String} :
    Reached cb links [c.qualifiedName] (links c) name ↔
      name ≠ c.qualifiedName ∧ Reaches cb links c name := by
  constructor
  · intro h
    induction h with
    | start mem fresh => exact ⟨by simpa using fresh, .single (leads_self mem)⟩
    | link _ declared mem fresh ih =>
      obtain ⟨hne, hreaches⟩ := ih
      exact ⟨by simpa using fresh,
        hreaches.tail ⟨_, (standsFor?_of_ne hne).trans declared, mem⟩⟩
  · rintro ⟨hne, hreaches⟩
    induction hreaches with
    | single hlead =>
      obtain ⟨d, hd, hmem⟩ := hlead
      cases standsFor?_self.symm.trans hd
      exact .start hmem (by simpa using hne)
    | @tail before name _ hlead ih =>
      obtain ⟨d, hd, hmem⟩ := hlead
      by_cases hself : before = c.qualifiedName
      · subst hself
        cases standsFor?_self.symm.trans hd
        exact .start hmem (by simpa using hne)
      · rw [standsFor?_of_ne hself] at hd
        exact .link (ih hself) hd hmem (by simpa using hne)

/-! ## What is met -/

/-- A walk meets no name twice. -/
theorem nodup_map_name_walk (met : List String) (pending : List (String × String)) :
    ((walk cb links met pending).map Encounter.name).Nodup := by
  fun_induction walk cb links met pending with
  | case1 met => exact List.nodup_nil
  | case2 met owner first pending hmet ih => exact ih
  | case3 met owner first pending hmet c hc ih =>
    have hkey : c.qualifiedName = first := Catalog.key_of_find? hc
    refine List.nodup_cons.mpr ⟨fun hmem => ?_, ih⟩
    exact (mem_map_name_walk_iff.mp hmem).fresh (by simp [Encounter.name, hkey])
  | case4 met owner first pending hmet hc ih =>
    refine List.nodup_cons.mpr ⟨fun hmem => ?_, ih⟩
    refine (mem_map_name_walk_iff.mp hmem).fresh ?_
    split <;> simp [Encounter.name]

/-- What is met under a name tells what the codebase has under it. -/
def Encounter.IsTrue (cb : Codebase) : Encounter → Prop
  | .declared c => cb.class? c.qualifiedName = some c
  | .root name => cb.class? name = none ∧ name ∈ implicitRoots
  | .missing reference =>
    cb.class? reference.reference = none ∧ reference.reference ∉ implicitRoots

theorem isTrue_of_mem_walk
    {met : List String} {pending : List (String × String)} {e : Encounter}
    (h : e ∈ walk cb links met pending) : e.IsTrue cb := by
  fun_induction walk cb links met pending with
  | case1 met => cases h
  | case2 met owner first pending hmet ih => exact ih h
  | case3 met owner first pending hmet c hc ih =>
    rcases List.mem_cons.mp h with rfl | h
    · have hkey : c.qualifiedName = first := Catalog.key_of_find? hc
      rwa [Encounter.IsTrue, hkey]
    · exact ih h
  | case4 met owner first pending hmet hc ih =>
    rcases List.mem_cons.mp h with rfl | h
    · split
      · rename_i hroot
        exact ⟨hc, by simpa using hroot⟩
      · rename_i hroot
        exact ⟨hc, by simpa using hroot⟩
    · exact ih h

/-- A missing name is reported with a class that is reached and has it among its links. -/
theorem leads_of_missing_mem_walk
    {met : List String} {pending : List (String × String)} {u : Unresolved}
    (hself : c.qualifiedName ∈ met)
    (hpending : ∀ p ∈ pending, (p.1 = c.qualifiedName ∨ Reaches cb links c p.1) ∧
      Leads cb links c p.1 p.2)
    (h : .missing u ∈ walk cb links met pending) :
    (u.owner = c.qualifiedName ∨ Reaches cb links c u.owner) ∧
      Leads cb links c u.owner u.reference := by
  fun_induction walk cb links met pending with
  | case1 met => cases h
  | case2 met owner first pending hmet ih =>
    exact ih hself (List.forall_mem_cons.mp hpending).2 h
  | case3 met owner first pending hmet d hd ih =>
    obtain ⟨⟨hreached, hleads⟩, hothers⟩ := List.forall_mem_cons.mp hpending
    have hkey : d.qualifiedName = first := Catalog.key_of_find? hd
    have hfirst : Reaches cb links c first := by
      rcases hreached with rfl | hreached
      · exact .single hleads
      · exact hreached.tail hleads
    have hne : first ≠ c.qualifiedName := by
      rintro rfl
      exact hmet (by simpa using hself)
    refine ih (List.mem_cons_of_mem _ hself) (List.forall_mem_append.mpr ⟨?_, hothers⟩)
      ((List.mem_cons.mp h).resolve_left (by simp))
    rintro p hp
    obtain ⟨link, hlink, rfl⟩ := List.mem_map.mp hp
    rw [hkey]
    exact ⟨.inr hfirst, d, (standsFor?_of_ne hne).trans hd, hlink⟩
  | case4 met owner first pending hmet hd ih =>
    obtain ⟨hfirst, hothers⟩ := List.forall_mem_cons.mp hpending
    rcases List.mem_cons.mp h with heq | h
    · split at heq
      · cases heq
      · cases heq
        exact hfirst
    · exact ih (List.mem_cons_of_mem _ hself) hothers h

/-- Along links of which each class has one at most, a walk goes from each name to the next. -/
theorem isChain_walk
    (hone : ∀ d, (links d).length ≤ 1) {met : List String} {pending : List (String × String)}
    (hpending : pending.length ≤ 1) (hself : c.qualifiedName ∈ met) (before : String)
    (hbefore : ∀ p ∈ pending, Leads cb links c before p.2) :
    (before :: (walk cb links met pending).map Encounter.name).IsChain (Leads cb links c) := by
  fun_induction walk cb links met pending generalizing before with
  | case1 met => exact .singleton _
  | case2 met owner first pending hmet ih =>
    exact ih (by simp at hpending; simp [hpending]) hself before (List.forall_mem_cons.mp hbefore).2
  | case3 met owner first pending hmet d hd ih =>
    obtain rfl : pending = [] := by simpa using hpending
    obtain rfl : d.qualifiedName = first := Catalog.key_of_find? hd
    have hne : d.qualifiedName ≠ c.qualifiedName := by
      intro heq
      exact hmet (by simpa [heq] using hself)
    refine .cons_cons (hbefore _ List.mem_cons_self)
      (ih (by simpa using hone d) (List.mem_cons_of_mem _ hself) d.qualifiedName ?_)
    simp only [List.append_nil, List.mem_map]
    rintro p ⟨link, hlink, rfl⟩
    exact ⟨d, (standsFor?_of_ne hne).trans hd, hlink⟩
  | case4 met owner first pending hmet hd ih =>
    obtain rfl : pending = [] := by simpa using hpending
    have hname : (if implicitRoots.contains first then Encounter.root first
        else .missing ⟨owner, first⟩).name = first := by
      split <;> rfl
    rw [List.map_cons, hname, walk]
    exact .cons_cons (hbefore _ List.mem_cons_self) (.singleton _)

theorem map_qualifiedName_sublist (es : List Encounter) :
    ((es.filterMap Encounter.class?).map ClassDecl.qualifiedName).Sublist
      (es.map Encounter.name) := by
  induction es with
  | nil => exact .slnil
  | cons e es ih =>
    cases e with
    | declared c => exact ih.cons_cons _
    | root name => exact ih.cons _
    | missing reference => exact ih.cons _

theorem map_reference_sublist (es : List Encounter) :
    ((es.filterMap Encounter.unresolved?).map Unresolved.reference).Sublist
      (es.map Encounter.name) := by
  induction es with
  | nil => exact .slnil
  | cons e es ih =>
    cases e with
    | declared c => exact ih.cons _
    | root name => exact ih.cons _
    | missing reference => exact ih.cons_cons _

theorem nodup_map_name_walkFrom : ((walkFrom cb links c).map Encounter.name).Nodup :=
  nodup_map_name_walk _ _

theorem mem_walkFrom_iff_reaches {name : String} :
    name ∈ (walkFrom cb links c).map Encounter.name ↔
      name ≠ c.qualifiedName ∧ Reaches cb links c name :=
  Codebase.mem_map_name_walkFrom_iff.trans reached_iff_reaches

end Lineage

namespace Codebase

open Lineage

variable {cb : Codebase} {c : ClassDecl}

/-- The class is declared, another than the given one, and reached from it through the names of
superclasses and interfaces. -/
def IsAbove (cb : Codebase) (c s : ClassDecl) : Prop :=
  cb.class? s.qualifiedName = some s ∧ s.qualifiedName ≠ c.qualifiedName ∧
    Reaches cb ClassDecl.supertypeNames c s.qualifiedName

/-- The name is reached from the class but stands for no class, and is none of the roots. -/
def IsMissingAbove (cb : Codebase) (c : ClassDecl) (name : String) : Prop :=
  standsFor? cb c name = none ∧ name ∉ implicitRoots ∧
    Reaches cb ClassDecl.supertypeNames c name

/-- The walk visits the declared classes that can be reached. -/
theorem mem_supertypes_iff_isAbove {s : ClassDecl} : s ∈ cb.supertypes c ↔ cb.IsAbove c s := by
  rw [mem_supertypes_iff]
  constructor
  · rintro ⟨name, hreached, hclass⟩
    obtain rfl : s.qualifiedName = name := Catalog.key_of_find? hclass
    obtain ⟨hne, hreaches⟩ := reached_iff_reaches.mp hreached
    exact ⟨hclass, hne, hreaches⟩
  · rintro ⟨hclass, hne, hreaches⟩
    exact ⟨_, reached_iff_reaches.mpr ⟨hne, hreaches⟩, hclass⟩

theorem nodup_supertypes : ((cb.supertypes c).map ClassDecl.qualifiedName).Nodup :=
  nodup_map_name_walkFrom.sublist (map_qualifiedName_sublist _)

theorem mem_unresolved_iff {u : Unresolved} :
    u ∈ cb.unresolved c ↔ .missing u ∈ cb.lineage c := by
  simp only [unresolved, List.mem_filterMap]
  constructor
  · rintro ⟨e, he, hu⟩
    cases e with
    | declared d => cases hu
    | root name => cases hu
    | missing reference =>
      cases hu
      exact he
  · exact fun h => ⟨_, h, rfl⟩

/-- The names that are reported are those that can be reached and stand for nothing. -/
theorem exists_mem_unresolved_iff {name : String} :
    (∃ u ∈ cb.unresolved c, u.reference = name) ↔ cb.IsMissingAbove c name := by
  constructor
  · rintro ⟨u, hu, rfl⟩
    have hmissing := mem_unresolved_iff.mp hu
    obtain ⟨hnone, hroot⟩ := isTrue_of_mem_walk hmissing
    obtain ⟨hne, hreaches⟩ := mem_walkFrom_iff_reaches.mp (List.mem_map_of_mem hmissing)
    exact ⟨(standsFor?_of_ne hne).trans hnone, hroot, hreaches⟩
  · rintro ⟨hnone, hroot, hreaches⟩
    have hne : name ≠ c.qualifiedName := by
      rintro rfl
      cases standsFor?_self.symm.trans hnone
    rw [standsFor?_of_ne hne] at hnone
    obtain ⟨e, he, rfl⟩ := List.mem_map.mp (mem_walkFrom_iff_reaches.mpr ⟨hne, hreaches⟩)
    have htrue := isTrue_of_mem_walk he
    cases e with
    | declared d => cases hnone.symm.trans htrue
    | root name => exact absurd htrue.2 hroot
    | missing u => exact ⟨u, mem_unresolved_iff.mpr he, rfl⟩

theorem nodup_map_reference_unresolved :
    ((cb.unresolved c).map Unresolved.reference).Nodup :=
  nodup_map_name_walkFrom.sublist (map_reference_sublist _)

/-- A missing name is reported for a class that names it, the class itself or one above it. -/
theorem owner_of_mem_unresolved {u : Unresolved} (hu : u ∈ cb.unresolved c) :
    ∃ d, (d = c ∨ cb.IsAbove c d) ∧ d.qualifiedName = u.owner ∧ u.reference ∈ d.supertypeNames := by
  obtain ⟨hreached, d, hd, hmem⟩ :=
    leads_of_missing_mem_walk (c := c) List.mem_cons_self (by
      rintro p hp
      obtain ⟨link, hlink, rfl⟩ := List.mem_map.mp hp
      exact ⟨.inl rfl, leads_self hlink⟩) (mem_unresolved_iff.mp hu)
  by_cases hself : u.owner = c.qualifiedName
  · rw [hself, standsFor?_self] at hd
    cases hd
    exact ⟨c, .inl rfl, hself.symm, hmem⟩
  · rw [standsFor?_of_ne hself] at hd
    have hkey : d.qualifiedName = u.owner := Catalog.key_of_find? hd
    refine ⟨d, .inr ⟨hkey ▸ hd, hkey ▸ hself, ?_⟩, hkey, hmem⟩
    rw [hkey]
    exact hreached.resolve_left hself

/-- The name of the superclass, as the only link of a class. -/
def superclassLink (c : ClassDecl) : List String :=
  c.superclass.toList.map TypeRef.name

theorem mem_superclassLink_iff {d : ClassDecl} {name : String} :
    name ∈ superclassLink d ↔ d.superclass.map TypeRef.name = some name := by
  simp [superclassLink]

/-- A superclass chain leads from each name to the next. -/
theorem isChain_superclassChain :
    (c.qualifiedName :: cb.superclassChain c).IsChain (Leads cb superclassLink c) := by
  refine isChain_walk (fun d => ?_) ?_ List.mem_cons_self c.qualifiedName fun p hp => ?_
  · cases hsuper : d.superclass <;> simp [superclassLink, hsuper]
  · cases hsuper : c.superclass <;> simp [hsuper]
  · obtain ⟨link, hlink, rfl⟩ := List.mem_map.mp hp
    exact leads_self hlink

theorem mem_superclassChain_iff {name : String} :
    name ∈ cb.superclassChain c ↔ name ≠ c.qualifiedName ∧ Reaches cb superclassLink c name :=
  mem_walkFrom_iff_reaches

theorem nodup_superclassChain : (c.qualifiedName :: cb.superclassChain c).Nodup :=
  List.nodup_cons.mpr ⟨fun h => (mem_superclassChain_iff.mp h).1 rfl, nodup_map_name_walkFrom⟩

/-- A superclass chain ends only where there is no superclass or it would close a circle. -/
theorem superclassChain_closed
    {name next : String} (h : name ∈ c.qualifiedName :: cb.superclassChain c)
    (hleads : Leads cb superclassLink c name next) :
    next ∈ c.qualifiedName :: cb.superclassChain c := by
  by_cases hself : next = c.qualifiedName
  · exact List.mem_cons.mpr (.inl hself)
  · refine List.mem_cons_of_mem _ (mem_superclassChain_iff.mpr ⟨hself, ?_⟩)
    rcases List.mem_cons.mp h with rfl | h
    · exact .single hleads
    · exact (mem_superclassChain_iff.mp h).2.tail hleads

/-- What the walks over a hierarchy compute: the supertypes and the missing ones, each once, the
interfaces among them, and the chain of superclasses. -/
structure WalksHierarchy (cb : Codebase) (c : ClassDecl) : Prop where
  /-- Exactly the other declared classes that can be reached are visited, -/
  mem_supertypes : ∀ s, s ∈ cb.supertypes c ↔ cb.IsAbove c s
  /-- each of them once. -/
  supertypes_once : ((cb.supertypes c).map ClassDecl.qualifiedName).Nodup
  /-- Exactly the missing names that can be reached are reported, -/
  mem_unresolved : ∀ name, name ∈ (cb.unresolved c).map Unresolved.reference ↔
    cb.IsMissingAbove c name
  /-- each of them once, -/
  unresolved_once : ((cb.unresolved c).map Unresolved.reference).Nodup
  /-- for a class that names it. -/
  unresolved_owner : ∀ u ∈ cb.unresolved c, ∃ d, (d = c ∨ cb.IsAbove c d) ∧
    d.qualifiedName = u.owner ∧ u.reference ∈ d.supertypeNames
  /-- The interfaces are those that the class or one above it lists, and those above it. -/
  mem_allInterfaces : ∀ name, name ∈ (cb.allInterfaces c).items ↔
    (∃ d, (d = c ∨ cb.IsAbove c d) ∧ name ∈ d.interfaces.map TypeRef.name) ∨
      ∃ s, cb.IsAbove c s ∧ s.kind = .interface ∧ name = s.qualifiedName
  /-- No name occurs twice in the chain of superclasses, nor does that of the class, -/
  superclassChain_once : (c.qualifiedName :: cb.superclassChain c).Nodup
  /-- each name is that of the superclass of the one before, -/
  superclassChain_steps : (c.qualifiedName :: cb.superclassChain c).IsChain fun name next =>
    ∃ d, standsFor? cb c name = some d ∧ d.superclass.map TypeRef.name = some next
  /-- and the chain goes on as long as there is a superclass that is not in it. -/
  superclassChain_ends : ∀ name ∈ c.qualifiedName :: cb.superclassChain c, ∀ d next,
    standsFor? cb c name = some d → d.superclass.map TypeRef.name = some next →
      next ∈ c.qualifiedName :: cb.superclassChain c

/-- Walking over a hierarchy computes what can be reached, however the hierarchy is shaped. -/
theorem walksHierarchy (cb : Codebase) (c : ClassDecl) : cb.WalksHierarchy c where
  mem_supertypes _ := mem_supertypes_iff_isAbove
  supertypes_once := nodup_supertypes
  mem_unresolved _ := List.mem_map.trans exists_mem_unresolved_iff
  unresolved_once := nodup_map_reference_unresolved
  unresolved_owner _ := owner_of_mem_unresolved
  mem_allInterfaces name := by
    simp only [mem_allInterfaces_iff, mem_supertypes_iff_isAbove, or_and_right, and_or_left,
      exists_or, exists_eq_left, or_assoc]
  superclassChain_once := nodup_superclassChain
  superclassChain_steps := isChain_superclassChain.imp fun _ _ ⟨d, hd, hmem⟩ =>
    ⟨d, hd, mem_superclassLink_iff.mp hmem⟩
  superclassChain_ends _ hname d _ hd hsuper :=
    superclassChain_closed hname ⟨d, hd, mem_superclassLink_iff.mpr hsuper⟩

end Codebase
end ApiSurface
