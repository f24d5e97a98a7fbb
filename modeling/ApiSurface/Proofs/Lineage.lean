import ApiSurface.Lineage
import ApiSurface.Proofs.Catalog

/-!
# What a walk meets

A walk meets exactly the names that can be reached along links without passing a name met before.
Which names these are does not depend on the order of the walk, so they only become more when
classes are declared that were missing.
-/

namespace ApiSurface
namespace Lineage

/-- Names that can be reached along links from some names, past none of those already met. -/
inductive Reached (cb : Codebase) (links : ClassDecl → List String) (met starts : List String) :
    String → Prop where
  | start {name : String} (mem : name ∈ starts) (fresh : name ∉ met) :
      Reached cb links met starts name
  | link {name next : String} {c : ClassDecl} (before : Reached cb links met starts name)
      (declared : cb.class? name = some c) (mem : next ∈ links c) (fresh : next ∉ met) :
      Reached cb links met starts next

theorem reached_nil
    {cb : Codebase} {links : ClassDecl → List String} {met : List String} {name : String} :
    ¬ Reached cb links met [] name := by
  intro h
  induction h with
  | start mem _ => cases mem
  | link _ _ _ _ ih => exact ih

/-- A start that has been met adds nothing. -/
theorem reached_cons_of_mem
    {cb : Codebase} {links : ClassDecl → List String} {met starts : List String}
    {first name : String} (hfirst : first ∈ met) :
    Reached cb links met (first :: starts) name ↔ Reached cb links met starts name := by
  constructor
  · intro h
    induction h with
    | start mem fresh =>
      rcases List.mem_cons.mp mem with rfl | mem
      · exact absurd hfirst fresh
      · exact .start mem fresh
    | link _ declared mem fresh ih => exact .link ih declared mem fresh
  · intro h
    induction h with
    | start mem fresh => exact .start (List.mem_cons_of_mem _ mem) fresh
    | link _ declared mem fresh ih => exact .link ih declared mem fresh

/-- Past a start that has not been met, its own links and the other starts lead on. -/
theorem reached_cons_of_not_mem
    {cb : Codebase} {links : ClassDecl → List String} {met starts : List String}
    {first name : String} (hfirst : first ∉ met) :
    Reached cb links met (first :: starts) name ↔
      name = first ∨
        Reached cb links (first :: met) (((cb.class? first).elim [] links) ++ starts) name := by
  constructor
  · intro h
    induction h with
    | @start name mem fresh =>
      by_cases hname : name = first
      · exact .inl hname
      · have hstart : name ∈ starts := (List.mem_cons.mp mem).resolve_left hname
        refine .inr (.start (List.mem_append_right _ hstart) ?_)
        simp [hname, fresh]
    | @link before name c _ declared mem fresh ih =>
      by_cases hname : name = first
      · exact .inl hname
      · have hfresh : name ∉ first :: met := by simp [hname, fresh]
        rcases ih with rfl | ih
        · exact .inr (.start (List.mem_append_left _ (by simpa [declared] using mem)) hfresh)
        · exact .inr (.link ih declared mem hfresh)
  · rintro (rfl | h)
    · exact .start List.mem_cons_self hfirst
    · induction h with
      | start mem fresh =>
        have hfresh := fun h => fresh (List.mem_cons_of_mem _ h)
        rcases List.mem_append.mp mem with mem | mem
        · cases hdeclared : cb.class? first with
          | none => simp [hdeclared] at mem
          | some c =>
            rw [hdeclared] at mem
            exact .link (.start List.mem_cons_self hfirst) hdeclared mem hfresh
        · exact .start (List.mem_cons_of_mem _ mem) hfresh
      | link _ declared mem fresh ih =>
        exact .link ih declared mem fun h => fresh (List.mem_cons_of_mem _ h)

theorem map_snd_links (owner : String) (names : List String) :
    (names.map fun link => (owner, link)).map Prod.snd = names := by
  simp [Function.comp_def]

theorem walk_cons_of_mem
    {cb : Codebase} {links : ClassDecl → List String} {met : List String} {owner name : String}
    {pending : List (String × String)} (hmet : met.contains name = true) :
    walk cb links met ((owner, name) :: pending) = walk cb links met pending := by
  rw [walk, dif_pos hmet]

theorem walk_cons_of_declared
    {cb : Codebase} {links : ClassDecl → List String} {met : List String} {owner name : String}
    {pending : List (String × String)} {c : ClassDecl} (hmet : ¬ met.contains name = true)
    (hc : cb.class? name = some c) :
    walk cb links met ((owner, name) :: pending) =
      .declared c ::
        walk cb links (name :: met)
          ((links c).map (fun link => (c.qualifiedName, link)) ++ pending) := by
  rw [walk, dif_neg hmet]
  split
  · rename_i d hd
    cases hc.symm.trans hd
    rfl
  · rename_i hd
    cases hc.symm.trans hd

theorem walk_cons_of_undeclared
    {cb : Codebase} {links : ClassDecl → List String} {met : List String} {owner name : String}
    {pending : List (String × String)} (hmet : ¬ met.contains name = true)
    (hc : cb.class? name = none) :
    walk cb links met ((owner, name) :: pending) =
      (if implicitRoots.contains name then .root name else .missing ⟨owner, name⟩) ::
        walk cb links (name :: met) pending := by
  rw [walk, dif_neg hmet]
  split
  · rename_i d hd
    cases hc.symm.trans hd
  · rfl

/-- A walk meets exactly the names that can be reached. -/
theorem mem_map_name_walk_iff
    {cb : Codebase} {links : ClassDecl → List String} {met : List String}
    {pending : List (String × String)} {name : String} :
    name ∈ (walk cb links met pending).map Encounter.name ↔
      Reached cb links met (pending.map Prod.snd) name := by
  fun_induction walk cb links met pending with
  | case1 met => simp [reached_nil]
  | case2 met owner first pending hmet ih =>
    rw [ih, List.map_cons, reached_cons_of_mem (by simpa using hmet)]
  | case3 met owner first pending hmet c hc ih =>
    have hkey : c.qualifiedName = first := Catalog.key_of_find? hc
    rw [List.map_cons, List.mem_cons, ih, List.map_cons,
      reached_cons_of_not_mem (by simpa using hmet), hc, Encounter.name, hkey, List.map_append,
      map_snd_links]
    rfl
  | case4 met owner first pending hmet hc ih =>
    have hname : (if implicitRoots.contains first then Encounter.root first
        else .missing ⟨owner, first⟩).name = first := by
      split <;> rfl
    rw [List.map_cons, List.mem_cons, ih, List.map_cons,
      reached_cons_of_not_mem (by simpa using hmet), hc, hname]
    rfl

/-- What a walk meets under a name is the class of that name, if it is declared. -/
theorem class?_of_mem_walk
    {cb : Codebase} {links : ClassDecl → List String} {met : List String}
    {pending : List (String × String)} {e : Encounter} (h : e ∈ walk cb links met pending) :
    e.class? = cb.class? e.name := by
  fun_induction walk cb links met pending with
  | case1 met => cases h
  | case2 met owner first pending hmet ih => exact ih h
  | case3 met owner first pending hmet c hc ih =>
    rcases List.mem_cons.mp h with rfl | h
    · have hkey : c.qualifiedName = first := Catalog.key_of_find? hc
      rw [Encounter.class?, Encounter.name, hkey, hc]
    · exact ih h
  | case4 met owner first pending hmet hc ih =>
    rcases List.mem_cons.mp h with rfl | h
    · split
      · exact hc.symm
      · exact hc.symm
    · exact ih h

/-- More declared classes, with more links, let a walk reach more. -/
theorem Reached.mono
    {old new : Codebase} {links : ClassDecl → List String} {met starts : List String}
    (hlinks : ∀ name c, old.class? name = some c →
      ∃ c', new.class? name = some c' ∧ ∀ link ∈ links c, link ∈ links c')
    {name : String} (h : Reached old links met starts name) :
    Reached new links met starts name := by
  induction h with
  | start mem fresh => exact .start mem fresh
  | link _ declared mem fresh ih =>
    obtain ⟨c', hc', hsub⟩ := hlinks _ _ declared
    exact .link ih hc' (hsub _ mem) fresh

end Lineage

namespace Codebase

open Lineage

theorem mem_map_name_walkFrom_iff
    {cb : Codebase} {links : ClassDecl → List String} {c : ClassDecl} {name : String} :
    name ∈ (walkFrom cb links c).map Encounter.name ↔
      Reached cb links [c.qualifiedName] (links c) name := by
  rw [walkFrom, mem_map_name_walk_iff, map_snd_links]

/-- The declared classes above a class are those whose name is reached. -/
theorem mem_supertypes_iff
    {cb : Codebase} {c s : ClassDecl} :
    s ∈ cb.supertypes c ↔
      ∃ name, Reached cb ClassDecl.supertypeNames [c.qualifiedName] c.supertypeNames name ∧
        cb.class? name = some s := by
  simp only [supertypes, List.mem_filterMap, ← mem_map_name_walkFrom_iff, List.mem_map, lineage]
  constructor
  · rintro ⟨e, he, hs⟩
    exact ⟨e.name, ⟨e, he, rfl⟩, by rw [← class?_of_mem_walk he, hs]⟩
  · rintro ⟨name, ⟨e, he, rfl⟩, hs⟩
    exact ⟨e, he, by rw [class?_of_mem_walk he, hs]⟩

theorem mem_allInterfaces_iff
    {cb : Codebase} {c : ClassDecl} {name : String} :
    name ∈ (cb.allInterfaces c).items ↔
      name ∈ c.interfaces.map TypeRef.name ∨
        ∃ s ∈ cb.supertypes c,
          name ∈ s.interfaces.map TypeRef.name ∨ s.kind = .interface ∧ name = s.qualifiedName := by
  rw [allInterfaces, NameSet.mem_ofList_iff, List.mem_append, List.mem_flatMap]
  refine or_congr_right (exists_congr fun s => and_congr_right fun _ => ?_)
  rw [List.mem_append]
  refine or_congr_right ?_
  split
  · rename_i hkind
    simp [hkind]
  · rename_i hkind
    simp [hkind]

end Codebase
end ApiSurface
