import ApiSurface.Proofs.Lineage
import ApiSurface.Proofs.PairingOrder
import ApiSurface.Proofs.Reversal

/-!
# Members in another order

Two comparisons whose codebases differ in nothing but the order of the members inside each class
report the same, in some order, if no two members that may be compared are written alike.  The walk
to the supertypes does not see members at all; what a class inherits is the same up to order since
members of one class have distinct keys; findings about members have no part in dropping repeated
references.  Overloads that are written alike and told apart by the bounds of their type variables
are the exception: they may pair crosswise.
-/

namespace ApiSurface

/-! ## Codebases with members in another order -/

/-- The classes are the same but for the order of their members. -/
inductive ClassDecl.Reorders (c : ClassDecl) : ClassDecl → Prop where
  | intro {constructors methods : List Method} {fields : List Field}
      (byConstructors : c.constructors.Perm constructors) (byMethods : c.methods.Perm methods)
      (byFields : c.fields.Perm fields) : c.Reorders { c with constructors, methods, fields }

theorem ClassDecl.Reorders.qualifiedName {c d : ClassDecl} (h : c.Reorders d) :
    d.qualifiedName = c.qualifiedName := by
  cases h
  rfl

theorem ClassDecl.Reorders.isVisible {c d : ClassDecl} (h : c.Reorders d) :
    d.isVisible = c.isVisible := by
  cases h
  rfl

/-- The codebases are the same but for the order of the members inside each class. -/
structure Codebase.Reorders (cb cb' : Codebase) : Prop where
  packages : cb'.packages = cb.packages
  classes : List.Forall₂ ClassDecl.Reorders cb.classes.items cb'.classes.items

namespace Codebase

variable {cb cb' : Codebase}

theorem Reorders.class? (h : cb.Reorders cb') (name : String) :
    Option.Rel ClassDecl.Reorders (cb.class? name) (cb'.class? name) := by
  have hclasses := h.classes
  rw [Codebase.class?, Codebase.class?, Catalog.find?, Catalog.find?]
  generalize cb.classes.items = cs, cb'.classes.items = ds at hclasses
  induction hclasses with
  | nil => exact .none
  | @cons c d cs ds hcd _ ih =>
    by_cases hname : c.qualifiedName = name
    · rw [List.find?_cons_of_pos (by simpa using hname),
        List.find?_cons_of_pos (by simpa [hcd.qualifiedName] using hname)]
      exact .some hcd
    · rw [List.find?_cons_of_neg (by simpa using hname),
        List.find?_cons_of_neg (by simpa [hcd.qualifiedName] using hname)]
      exact ih

theorem Reorders.class?_eq_some
    (h : cb.Reorders cb') {name : String} {c : ClassDecl} (hc : cb.class? name = some c) :
    ∃ d, cb'.class? name = some d ∧ c.Reorders d := by
  have hclass := h.class? name
  rw [hc] at hclass
  generalize cb'.class? name = found at hclass
  cases hclass with
  | some hcd => exact ⟨_, rfl, hcd⟩

theorem Reorders.class?_eq_none
    (h : cb.Reorders cb') {name : String} (hc : cb.class? name = none) :
    cb'.class? name = none := by
  have hclass := h.class? name
  rw [hc] at hclass
  generalize cb'.class? name = found at hclass
  cases hclass with
  | none => rfl

end Codebase

namespace Lineage

/-- What is met is the same but for the order of the members of a class. -/
inductive Encounter.Reorders : Encounter → Encounter → Prop where
  | declared {c d : ClassDecl} (h : c.Reorders d) : Reorders (.declared c) (.declared d)
  | root (name : String) : Reorders (.root name) (.root name)
  | missing (reference : Unresolved) : Reorders (.missing reference) (.missing reference)

/-- A walk along links that do not depend on the order of members meets the same. -/
theorem walk_reorders
    {cb cb' : Codebase} (h : cb.Reorders cb') {links : ClassDecl → List String}
    (hlinks : ∀ c d : ClassDecl, c.Reorders d → links d = links c) (met : List String)
    (pending : List (String × String)) :
    List.Forall₂ Encounter.Reorders (walk cb links met pending) (walk cb' links met pending) := by
  fun_induction walk cb links met pending with
  | case1 met => rw [walk]; exact .nil
  | case2 met owner first pending hmet ih =>
    rw [walk, dif_pos hmet]
    exact ih
  | case3 met owner first pending hmet c hc ih =>
    obtain ⟨d, hd, hcd⟩ := h.class?_eq_some hc
    rw [walk_cons_of_declared hmet hd, hlinks c d hcd, hcd.qualifiedName]
    exact .cons (.declared hcd) ih
  | case4 met owner first pending hmet hc ih =>
    rw [walk_cons_of_undeclared hmet (h.class?_eq_none hc)]
    refine .cons ?_ ih
    split
    · exact .root first
    · exact .missing ⟨owner, first⟩

section Encounters

variable {es es' : List Encounter} (h : List.Forall₂ Encounter.Reorders es es')

include h

theorem map_name_eq_of_reorders : es'.map Encounter.name = es.map Encounter.name := by
  induction h with
  | nil => rfl
  | cons hfirst _ ih =>
    rw [List.map_cons, List.map_cons, ih]
    cases hfirst with
    | declared hcd => rw [Encounter.name, Encounter.name, hcd.qualifiedName]
    | root name => rfl
    | missing reference => rfl

theorem unresolved_eq_of_reorders :
    es'.filterMap Encounter.unresolved? = es.filterMap Encounter.unresolved? := by
  induction h with
  | nil => rfl
  | cons hfirst _ ih =>
    rw [List.filterMap_cons, List.filterMap_cons, ih]
    cases hfirst <;> rfl

theorem classes_reorder :
    List.Forall₂ ClassDecl.Reorders (es.filterMap Encounter.class?)
      (es'.filterMap Encounter.class?) := by
  induction h with
  | nil => exact .nil
  | cons hfirst _ ih =>
    cases hfirst with
    | declared hcd => exact .cons hcd ih
    | root name => exact ih
    | missing reference => exact ih

end Encounters

end Lineage

namespace EffectiveMembers

variable {α : Type}

theorem extend_append (members xs ys : List (String × α)) :
    extend members (xs ++ ys) = extend (extend members xs) ys := by
  induction xs generalizing members with
  | nil => rfl
  | cons x xs ih =>
    simp only [List.cons_append, extend]
    split
    · exact ih members
    · exact ih (members ++ [x])

/-- Of candidates with distinct keys, all those are appended whose key does not occur yet. -/
theorem extend_of_nodup
    (members : List (String × α)) {xs : List (String × α)} (h : (xs.map Prod.fst).Nodup) :
    extend members xs = members ++ xs.filter fun x => !members.any fun y => y.1 == x.1 := by
  induction xs generalizing members with
  | nil => simp [extend]
  | cons x xs ih =>
    obtain ⟨hx, hxs⟩ := List.nodup_cons.mp h
    rw [extend]
    split
    · rename_i hany
      simp [ih members hxs, hany]
    · rename_i hany
      have hrest : (xs.filter fun z => !(members ++ [x]).any fun y => y.1 == z.1) =
          xs.filter fun z => !members.any fun y => y.1 == z.1 := by
        refine List.filter_congr fun z hz => ?_
        have hne : x.1 ≠ z.1 := fun heq => hx (heq ▸ List.mem_map_of_mem hz)
        simp [hne]
      rw [ih (members ++ [x]) hxs, hrest]
      simp [hany]

/-- Blocks of candidates with distinct keys extend members alike in any order inside the blocks. -/
theorem extend_flatten_perm
    {blocks blocks' : List (List (String × α))}
    (hblocks : List.Forall₂ (fun xs ys => xs.Perm ys ∧ (xs.map Prod.fst).Nodup) blocks blocks')
    {members members' : List (String × α)} (h : members.Perm members') :
    (extend members blocks.flatten).Perm (extend members' blocks'.flatten) := by
  induction hblocks generalizing members members' with
  | nil => exact h
  | @cons xs ys blocks blocks' hfirst _ ih =>
    obtain ⟨hperm, hnodup⟩ := hfirst
    rw [List.flatten_cons, List.flatten_cons, extend_append, extend_append]
    apply ih
    have hnodup' : (ys.map Prod.fst).Nodup := (hperm.map _).nodup_iff.mp hnodup
    rw [extend_of_nodup members hnodup, extend_of_nodup members' hnodup']
    simp only [h.any_eq]
    exact h.append (hperm.filter _)

theorem isNone_findInheritedMethod? (e : EffectiveMembers) (signature : String) :
    (e.findInheritedMethod? signature).isNone =
      !e.methods.any fun x => x.1 == signature && x.2.owner != e.owner := by
  rw [Bool.eq_iff_iff]
  simp [findInheritedMethod?]

theorem isNone_findInheritedField? (e : EffectiveMembers) (name : String) :
    (e.findInheritedField? name).isNone =
      !e.fields.any fun x => x.1 == name && x.2.owner != e.owner := by
  rw [Bool.eq_iff_iff]
  simp [findInheritedField?]

end EffectiveMembers

namespace Codebase

open Lineage

variable {cb cb' : Codebase} {c d : ClassDecl}

theorem Reorders.walkFrom
    (h : cb.Reorders cb') {links : ClassDecl → List String}
    (hlinks : ∀ c d : ClassDecl, c.Reorders d → links d = links c) (hcd : c.Reorders d) :
    List.Forall₂ Encounter.Reorders (walkFrom cb links c) (walkFrom cb' links d) := by
  rw [Lineage.walkFrom, Lineage.walkFrom, hlinks c d hcd, hcd.qualifiedName]
  exact walk_reorders h hlinks _ _

theorem Reorders.lineage (h : cb.Reorders cb') (hcd : c.Reorders d) :
    List.Forall₂ Encounter.Reorders (cb.lineage c) (cb'.lineage d) := by
  apply h.walkFrom _ hcd
  rintro c d ⟨⟩
  rfl

theorem Reorders.superclasses (h : cb.Reorders cb') (hcd : c.Reorders d) :
    List.Forall₂ Encounter.Reorders (cb.superclasses c) (cb'.superclasses d) := by
  apply h.walkFrom _ hcd
  rintro c d ⟨⟩
  rfl

theorem Reorders.supertypes (h : cb.Reorders cb') (hcd : c.Reorders d) :
    List.Forall₂ ClassDecl.Reorders (cb.supertypes c) (cb'.supertypes d) :=
  classes_reorder (h.lineage hcd)

theorem Reorders.allInterfaces (h : cb.Reorders cb') (hcd : c.Reorders d) :
    cb'.allInterfaces d = cb.allInterfaces c := by
  have hsupertypes := h.supertypes hcd
  have hbehind : ((cb'.supertypes d).flatMap fun s =>
        s.interfaces.map TypeRef.name ++ if s.kind = .interface then [s.qualifiedName] else []) =
      (cb.supertypes c).flatMap fun s =>
        s.interfaces.map TypeRef.name ++ if s.kind = .interface then [s.qualifiedName] else [] := by
    generalize cb.supertypes c = cs, cb'.supertypes d = ds at hsupertypes
    induction hsupertypes with
    | nil => rfl
    | cons hfirst _ ih =>
      rw [List.flatMap_cons, List.flatMap_cons, ih]
      cases hfirst
      rfl
  rw [Codebase.allInterfaces, Codebase.allInterfaces, hbehind]
  cases hcd
  rfl

theorem Reorders.classesIn (h : cb.Reorders cb') (p : Package) :
    List.Forall₂ ClassDecl.Reorders (cb.classesIn p) (cb'.classesIn p) := by
  rw [Codebase.classesIn, Codebase.classesIn]
  induction p.classNames.items with
  | nil => exact .nil
  | cons name names ih =>
    rw [List.filterMap_cons, List.filterMap_cons]
    cases hc : cb.class? name with
    | none => simpa only [h.class?_eq_none hc] using ih
    | some c =>
      obtain ⟨d, hd, hcd⟩ := h.class?_eq_some hc
      simpa only [hd] using .cons hcd ih

theorem Reorders.visiblePackages (h : cb.Reorders cb') :
    Comparison.visiblePackages cb' = Comparison.visiblePackages cb := by
  have hvisible : ∀ p, (cb'.classesIn p).any ClassDecl.isVisible =
      (cb.classesIn p).any ClassDecl.isVisible := by
    intro p
    have hclasses := h.classesIn p
    generalize cb.classesIn p = cs, cb'.classesIn p = ds at hclasses
    induction hclasses with
    | nil => rfl
    | cons hfirst _ ih => rw [List.any_cons, List.any_cons, ih, hfirst.isVisible]
  simp only [Comparison.visiblePackages, h.packages, hvisible]

theorem Reorders.visibleClass_eq_some
    (h : cb.Reorders cb') {name : String}
    (hc : (cb.class? name).filter ClassDecl.isVisible = some c) :
    ∃ d, (cb'.class? name).filter ClassDecl.isVisible = some d ∧ c.Reorders d := by
  obtain ⟨hclass, hvisible⟩ := Option.filter_eq_some_iff.mp hc
  obtain ⟨d, hd, hcd⟩ := h.class?_eq_some hclass
  exact ⟨d, Option.filter_eq_some_iff.mpr ⟨hd, hcd.isVisible.trans hvisible⟩, hcd⟩

theorem Reorders.visibleClass_eq_none
    (h : cb.Reorders cb') {name : String}
    (hc : (cb.class? name).filter ClassDecl.isVisible = none) :
    (cb'.class? name).filter ClassDecl.isVisible = none := by
  cases hclass : cb.class? name with
  | none => rw [h.class?_eq_none hclass, Option.filter_none]
  | some c =>
    obtain ⟨d, hd, hcd⟩ := h.class?_eq_some hclass
    rw [hclass] at hc
    simpa [hd, hcd.isVisible] using hc

/-- The declared classes above a class are classes of the codebase. -/
theorem mem_classes_of_mem_supertypes {s : ClassDecl} (hs : s ∈ cb.supertypes c) :
    s ∈ cb.classes.items := by
  obtain ⟨name, -, hclass⟩ := mem_supertypes_iff.mp hs
  exact Catalog.mem_of_find? hclass

/-- Own and inherited members with distinct keys are extended alike in any order. -/
theorem Reorders.extend_perm
    {α : Type} (h : cb.Reorders cb') (hcd : c.Reorders d)
    {members : ClassDecl → List (String × α)} {inherited : α → Bool}
    (hmembers : ∀ c d : ClassDecl, c.Reorders d → (members c).Perm (members d))
    (hunique : ∀ c ∈ cb.classes.items, ((members c).map Prod.fst).Nodup) :
    (EffectiveMembers.extend (members c) <|
        (cb.supertypes c).flatMap fun s => (members s).filter fun x => inherited x.2).Perm
      (EffectiveMembers.extend (members d) <|
        (cb'.supertypes d).flatMap fun s => (members s).filter fun x => inherited x.2) := by
  rw [List.flatMap_def, List.flatMap_def]
  refine EffectiveMembers.extend_flatten_perm ?_ (hmembers c d hcd)
  rw [List.forall₂_map_left_iff, List.forall₂_map_right_iff]
  have hsupertypes := (List.forall₂_and_left _ _).mpr
    ⟨fun s hs => hunique s (mem_classes_of_mem_supertypes hs), h.supertypes hcd⟩
  refine hsupertypes.imp fun s t hst => ⟨(hmembers s t hst.2).filter _, ?_⟩
  exact hst.1.sublist (List.filter_sublist.map _)

theorem Reorders.effectiveMethods_perm
    (h : cb.Reorders cb') (hcd : c.Reorders d) (hunique : cb.HasUniqueSignatures) :
    (cb.effectiveMembers c).methods.Perm (cb'.effectiveMembers d).methods := by
  apply h.extend_perm hcd
  · rintro c d ⟨-, hmethods, -⟩
    exact hmethods.map _
  · intro c hc
    simpa [ClassDecl.signedMethods, Function.comp_def] using (hunique c hc).2

theorem Reorders.effectiveFields_perm
    (h : cb.Reorders cb') (hcd : c.Reorders d) (hunique : cb.HasUniqueFields) :
    (cb.effectiveMembers c).fields.Perm (cb'.effectiveMembers d).fields := by
  apply h.extend_perm hcd
  · rintro c d ⟨-, -, hfields⟩
    exact hfields.map _
  · intro c hc
    simpa [ClassDecl.namedFields, Function.comp_def] using hunique c hc

theorem Reorders.isNone_findInheritedMethod?
    (h : cb.Reorders cb') (hcd : c.Reorders d) (hunique : cb.HasUniqueSignatures)
    (signature : String) :
    ((cb'.effectiveMembers d).findInheritedMethod? signature).isNone =
      ((cb.effectiveMembers c).findInheritedMethod? signature).isNone := by
  have howner : (cb'.effectiveMembers d).owner = (cb.effectiveMembers c).owner := hcd.qualifiedName
  rw [EffectiveMembers.isNone_findInheritedMethod?, EffectiveMembers.isNone_findInheritedMethod?,
    howner, (h.effectiveMethods_perm hcd hunique).any_eq]

theorem Reorders.isNone_findInheritedField?
    (h : cb.Reorders cb') (hcd : c.Reorders d) (hunique : cb.HasUniqueFields) (name : String) :
    ((cb'.effectiveMembers d).findInheritedField? name).isNone =
      ((cb.effectiveMembers c).findInheritedField? name).isNone := by
  have howner : (cb'.effectiveMembers d).owner = (cb.effectiveMembers c).owner := hcd.qualifiedName
  rw [EffectiveMembers.isNone_findInheritedField?, EffectiveMembers.isNone_findInheritedField?,
    howner, (h.effectiveFields_perm hcd hunique).any_eq]

end Codebase

/-! ## Findings in another order -/

namespace Finding

/-- The findings are the same but for their order, in which unresolved references keep theirs. -/
def Alike (fs gs : List Finding) : Prop :=
  fs.Perm gs ∧ (fs.filter fun f => f.unresolved?.isSome) = gs.filter fun f => f.unresolved?.isSome

theorem Alike.refl (fs : List Finding) : Alike fs fs :=
  ⟨.refl fs, rfl⟩

theorem Alike.append {fs gs fs' gs' : List Finding} (h : Alike fs gs) (h' : Alike fs' gs') :
    Alike (fs ++ fs') (gs ++ gs') :=
  ⟨h.1.append h'.1, by rw [List.filter_append, List.filter_append, h.2, h'.2]⟩

theorem alike_flatMap {f g : String → List Finding} {names : List String}
    (h : ∀ name ∈ names, Alike (f name) (g name)) : Alike (names.flatMap f) (names.flatMap g) := by
  refine ⟨.flatMap_left names fun name hname => (h name hname).1, ?_⟩
  rw [List.filter_flatMap, List.filter_flatMap]
  exact List.flatMap_congr fun name hname => (h name hname).2

/-- Findings without unresolved references are alike in any order. -/
theorem alike_of_perm {fs gs : List Finding} (h : fs.Perm gs)
    (hresolved : ∀ f ∈ fs, f.unresolved? = none) : Alike fs gs := by
  have hnone : ∀ hs : List Finding, (∀ f ∈ hs, f.unresolved? = none) →
      (hs.filter fun f => f.unresolved?.isSome) = [] := by
    intro hs hhs
    rw [List.filter_eq_nil_iff]
    intro f hf
    simp [hhs f hf]
  exact ⟨h, by rw [hnone fs hresolved, hnone gs fun f hf => hresolved f (h.mem_iff.mpr hf)]⟩

/-- Dropping repeated references leaves everything else, and of the references what it leaves of
them alone. -/
theorem dropRepeated_perm (met : List Unresolved) (fs : List Finding) :
    (dropRepeated met fs).Perm
      ((fs.filter fun f => !f.unresolved?.isSome) ++
        dropRepeated met (fs.filter fun f => f.unresolved?.isSome)) := by
  induction fs generalizing met with
  | nil => exact .refl _
  | cons f fs ih =>
    cases hf : f.unresolved? with
    | none => simpa [dropRepeated, hf] using ih met
    | some reference =>
      by_cases hmet : reference ∈ met
      · simpa [dropRepeated, hf, hmet] using ih met
      · simpa [dropRepeated, hf, hmet] using ((ih _).cons f).trans List.perm_middle.symm

theorem Alike.dropRepeated_perm {fs gs : List Finding} (h : Alike fs gs) (met : List Unresolved) :
    (dropRepeated met fs).Perm (dropRepeated met gs) := by
  refine (Finding.dropRepeated_perm met fs).trans
    (.trans ?_ (Finding.dropRepeated_perm met gs).symm)
  rw [h.2]
  exact (h.1.filter _).append_right _

end Finding

namespace Comparison

open Change (when ofAccess ofStatic ofDeprecation)
open Finding (Alike)

/-! ### Only classes have unresolved references -/

section Unresolved

variable (cmp : Comparison) (c d : ClassDecl) (location : Location) (item : Item)
  (reference : Unresolved)

theorem unresolved_notMem_compareMethods (m n : Method) :
    ⟨location, item, .unresolved reference⟩ ∉ cmp.compareMethods c d m n := by
  have hmodifiers := Change.unresolved_notMem (all_isPlain_methodModifierChanges c m n) reference
  have hparameters : ∀ p q, .unresolved reference ∉ parameterChanges p q := fun p q =>
    Change.unresolved_notMem (all_isPlain_parameterChanges p q) reference
  have hthrows := Change.unresolved_notMem (all_isPlain_throwsChanges m n) reference
  have hdefault := Change.unresolved_notMem
    (all_isPlain_defaultChanges m.defaultValue n.defaultValue) reference
  cases hold : m.returnType <;> cases hnew : n.returnType <;>
    simp [compareMethods, hmodifiers, hparameters, hthrows, hdefault, hold, hnew,
      unresolved_notMem_typeChanges]

theorem unresolved_notMem_compareFields (f g : Field) :
    ⟨location, item, .unresolved reference⟩ ∉ cmp.compareFields c d f g := by
  have hmodifiers := Change.unresolved_notMem
    (all_isPlain_fieldModifierChanges f.modifiers g.modifiers) reference
  have hvalue := Change.unresolved_notMem (all_isPlain_valueChanges f g) reference
  have hdeprecation := Change.unresolved_notMem
    (all_isPlain_modifiers f.modifiers g.modifiers).2.2 reference
  simp [compareFields, hmodifiers, hvalue, hdeprecation, unresolved_notMem_typeChanges]

theorem unresolved_notMem_methods (pairing : Pairing) (removed added : List Method) :
    ⟨location, item, .unresolved reference⟩ ∉
      cmp.pairFindings c d pairing ++ removed.map (removedMethod c) ++
        added.flatMap (addedMethod d) := by
  have hadded : ∀ m, ⟨location, item, .unresolved reference⟩ ∉ addedMethod d m := by
    intro m hm
    cases unresolved?_of_mem_addedMethod hm
  simp [pairFindings, unresolved_notMem_compareMethods, removedMethod, hadded]

theorem unresolved_notMem_fieldFindings :
    ⟨location, item, .unresolved reference⟩ ∉ cmp.fieldFindings c d := by
  simp only [fieldFindings, List.mem_append, List.mem_flatMap, List.mem_map, not_or, not_exists,
    not_and]
  refine ⟨fun f _ hfound => ?_, fun f _ hadded => ?_⟩
  · split at hfound
    · exact unresolved_notMem_compareFields _ _ _ _ _ _ _ _ hfound
    · split at hfound <;> simp [removedField] at hfound
  · simp [addedField] at hadded

end Unresolved

theorem unresolved?_eq_none_of_notMem
    {fs : List Finding}
    (h : ∀ location item reference, ⟨location, item, .unresolved reference⟩ ∉ fs)
    {f : Finding} (hf : f ∈ fs) : f.unresolved? = none := by
  obtain ⟨location, item, change⟩ := f
  cases change with
  | unresolved reference => exact absurd hf (h location item reference)
  | _ => rfl

/-! ### Comparing classes with members in another order -/

/-- The comparisons are of codebases that differ in the order of members alone. -/
structure Reorders (x y : Comparison) : Prop where
  old : x.old.Reorders y.old
  new : x.new.Reorders y.new
  reference : y.reference = x.reference

theorem declarationChanges_reorders
    {c c' d d' : ClassDecl} (hc : c.Reorders c') (hd : d.Reorders d') :
    declarationChanges c' d' = declarationChanges c d := by
  have hany : c'.constructors.any Method.isVisible = c.constructors.any Method.isVisible := by
    obtain ⟨hconstructors, -, -⟩ := hc
    exact hconstructors.any_eq.symm
  simp only [declarationChanges, hany]
  cases hc
  cases hd
  rfl

section Reordered

variable {x y : Comparison} (h : x.Reorders y) {c c' d d' : ClassDecl} (hc : c.Reorders c')
  (hd : d.Reorders d')

include h hc hd

theorem compareMethods_reorders (m n : Method) :
    y.compareMethods c' d' m n = x.compareMethods c d m n := by
  cases hc
  cases hd
  simp only [compareMethods, typeChanges, nullnessChanges, h.reference]
  rfl

theorem compareFields_reorders (f g : Field) :
    y.compareFields c' d' f g = x.compareFields c d f g := by
  cases hc
  cases hd
  simp only [compareFields, typeChanges, nullnessChanges, h.reference]
  rfl

/-- What is found about methods that are paired, gone or new. -/
theorem methods_alike
    {old old' new new' removed removed' added added' : List Method}
    (hdefinite : Pairing.IsDefinite old new) (hold : old.Perm old') (hnew : new.Perm new')
    (hremoved : removed.Perm removed') (hadded : added.Perm added') :
    Alike
      (x.pairFindings c d (Pairing.between c old d new) ++ removed.map (removedMethod c) ++
        added.flatMap (addedMethod d))
      (y.pairFindings c' d' (Pairing.between c' old' d' new') ++ removed'.map (removedMethod c') ++
        added'.flatMap (addedMethod d')) := by
  have hpairs : (x.pairFindings c d (Pairing.between c old d new)).Perm
      (y.pairFindings c' d' (Pairing.between c' old' d' new')) := by
    simp only [pairFindings, compareMethods_reorders h hc hd]
    cases hc
    cases hd
    exact Pairing.flatMap_matched_perm c d hdefinite hold hnew fun m n => x.compareMethods c d m n
  apply Finding.alike_of_perm
  · cases hc
    cases hd
    exact (hpairs.append (hremoved.map _)).append (hadded.flatMap fun _ _ => .refl _)
  · exact fun f hf => unresolved?_eq_none_of_notMem
      (fun location item reference =>
        unresolved_notMem_methods _ _ _ location item reference _ _ _) hf

theorem constructorFindings_alike
    (hdefinite : Pairing.IsDefinite (c.constructors.filter Method.isVisible)
      (d.constructors.filter Method.isVisible)) :
    Alike (x.constructorFindings c d) (y.constructorFindings c' d') := by
  have hold : (c.constructors.filter Method.isVisible).Perm
      (c'.constructors.filter Method.isVisible) := by
    obtain ⟨hconstructors, -, -⟩ := hc
    exact hconstructors.filter _
  have hnew : (d.constructors.filter Method.isVisible).Perm
      (d'.constructors.filter Method.isVisible) := by
    obtain ⟨hconstructors, -, -⟩ := hd
    exact hconstructors.filter _
  apply methods_alike h hc hd hdefinite hold hnew
  · cases hc
    cases hd
    exact Pairing.removed_perm c d hdefinite hold hnew
  · cases hc
    cases hd
    exact Pairing.added_perm c d hdefinite hold hnew

theorem methodFindings_alike
    (hunique : x.old.HasUniqueSignatures) (hunique' : x.new.HasUniqueSignatures)
    (hdefinite : Pairing.IsDefinite (c.methods.filter Method.isVisible)
      (d.methods.filter Method.isVisible)) :
    Alike (x.methodFindings c d) (y.methodFindings c' d') := by
  have hold : (c.methods.filter Method.isVisible).Perm (c'.methods.filter Method.isVisible) := by
    obtain ⟨-, hmethods, -⟩ := hc
    exact hmethods.filter _
  have hnew : (d.methods.filter Method.isVisible).Perm (d'.methods.filter Method.isVisible) := by
    obtain ⟨-, hmethods, -⟩ := hd
    exact hmethods.filter _
  have hbefore := h.old.isNone_findInheritedMethod? hc hunique
  have hafter := h.new.isNone_findInheritedMethod? hd hunique'
  simp only [methodFindings, hbefore, hafter]
  apply methods_alike h hc hd hdefinite hold hnew
  · cases hc
    cases hd
    exact (Pairing.removed_perm c d hdefinite hold hnew).filter _
  · cases hc
    cases hd
    exact (Pairing.added_perm c d hdefinite hold hnew).filter _

/-- Where no two fields share a name, each is compared with the same field in any order. -/
theorem fieldFindings_alike
    (hunique : x.old.HasUniqueFields) (hunique' : x.new.HasUniqueFields)
    (hfields : (d.fields.map Field.name).Nodup) :
    Alike (x.fieldFindings c d) (y.fieldFindings c' d') := by
  have hold : (c.fields.filter Field.isVisible).Perm (c'.fields.filter Field.isVisible) := by
    obtain ⟨-, -, hfields⟩ := hc
    exact hfields.filter _
  have hnew : (d.fields.filter Field.isVisible).Perm (d'.fields.filter Field.isVisible) := by
    obtain ⟨-, -, hfields⟩ := hd
    exact hfields.filter _
  have hfind : ∀ name, ((d.fields.filter Field.isVisible).find? fun g => g.name == name) =
      (d'.fields.filter Field.isVisible).find? fun g => g.name == name := by
    intro name
    apply find?_eq_of_perm hnew
    have hvisible : ((d.fields.filter Field.isVisible).map Field.name).Nodup :=
      hfields.sublist (List.filter_sublist.map _)
    have hcount := List.nodup_iff_count_le_one.mp hvisible name
    rwa [List.count, List.countP_map] at hcount
  have hbefore := h.old.isNone_findInheritedField? hc hunique
  have hafter := h.new.isNone_findInheritedField? hd hunique'
  apply Finding.alike_of_perm
  · simp only [fieldFindings, ← Option.not_isNone, hbefore, hafter, ← hfind, ← hold.any_eq,
      compareFields_reorders h hc hd]
    cases hc
    cases hd
    exact (hold.flatMap fun _ _ => .refl _).append ((hnew.filter _).map _)
  · exact fun f hf => unresolved?_eq_none_of_notMem
      (fun location item reference =>
        unresolved_notMem_fieldFindings _ _ _ location item reference) hf

theorem superclassChanges_reorders : y.superclassChanges c' d' = x.superclassChanges c d := by
  have hold : y.old.superclassChain c' = x.old.superclassChain c :=
    Lineage.map_name_eq_of_reorders (h.old.superclasses hc)
  have hnew : y.new.superclassChain d' = x.new.superclassChain d :=
    Lineage.map_name_eq_of_reorders (h.new.superclasses hd)
  simp only [superclassChanges, hold, hnew]
  cases hc
  cases hd
  rfl

theorem compareClasses_alike
    (hunique : x.old.HasUniqueSignatures) (hunique' : x.new.HasUniqueSignatures)
    (hfields : x.old.HasUniqueFields) (hfields' : x.new.HasUniqueFields)
    (hmem : d ∈ x.new.classes.items)
    (hconstructors : Pairing.IsDefinite (c.constructors.filter Method.isVisible)
      (d.constructors.filter Method.isVisible))
    (hmethods : Pairing.IsDefinite (c.methods.filter Method.isVisible)
      (d.methods.filter Method.isVisible)) :
    Alike (x.compareClasses c d) (y.compareClasses c' d') := by
  have hchain : y.new.unresolvedSuperclasses d' = x.new.unresolvedSuperclasses d :=
    Lineage.unresolved_eq_of_reorders (h.new.superclasses hd)
  have hunresolved : y.new.unresolved d' = x.new.unresolved d :=
    Lineage.unresolved_eq_of_reorders (h.new.lineage hd)
  have hinterfaces : y.interfaceChanges c' d' = x.interfaceChanges c d := by
    rw [interfaceChanges, interfaceChanges, h.old.allInterfaces hc, h.new.allInterfaces hd]
  have hplace : Location.ofClass d' = Location.ofClass d ∧ d'.kind = d.kind := by
    cases hd
    exact ⟨rfl, rfl⟩
  rw [compareClasses, compareClasses, declarationChanges_reorders hc hd, hchain,
    superclassChanges_reorders h hc hd, hunresolved, hinterfaces, hplace.1, hplace.2]
  refine ((Alike.append (.refl _) ?_).append ?_).append ?_
  · exact constructorFindings_alike h hc hd hconstructors
  · exact methodFindings_alike h hc hd hunique hunique' hmethods
  · exact fieldFindings_alike h hc hd hfields hfields' (hfields' d hmem)

end Reordered

/-- In classes of one name, written types that both have are those of one visible constructor, or of
one visible method, in each. -/
def IsDefinite (cmp : Comparison) : Prop :=
  ∀ name c d, (cmp.old.class? name).filter ClassDecl.isVisible = some c →
    (cmp.new.class? name).filter ClassDecl.isVisible = some d →
    Pairing.IsDefinite (c.constructors.filter Method.isVisible)
        (d.constructors.filter Method.isVisible) ∧
      Pairing.IsDefinite (c.methods.filter Method.isVisible) (d.methods.filter Method.isVisible)

section Report

variable {x y : Comparison} (h : x.Reorders y) (hunique : x.old.HasUniqueSignatures)
  (hunique' : x.new.HasUniqueSignatures) (hfields : x.old.HasUniqueFields)
  (hfields' : x.new.HasUniqueFields) (hdefinite : x.IsDefinite)

include h hunique hunique' hfields hfields' hdefinite

theorem classFindings_alike (name : String) :
    Alike (x.classFindings name) (y.classFindings name) := by
  rw [classFindings, classFindings]
  cases hold : (x.old.class? name).filter ClassDecl.isVisible with
  | none =>
    rw [h.old.visibleClass_eq_none hold]
    cases hnew : (x.new.class? name).filter ClassDecl.isVisible with
    | none =>
      rw [h.new.visibleClass_eq_none hnew]
      exact .refl _
    | some d =>
      obtain ⟨d', hd', hd⟩ := h.new.visibleClass_eq_some hnew
      rw [hd']
      cases hd
      exact .refl _
  | some c =>
    obtain ⟨c', hc', hc⟩ := h.old.visibleClass_eq_some hold
    rw [hc']
    cases hnew : (x.new.class? name).filter ClassDecl.isVisible with
    | none =>
      rw [h.new.visibleClass_eq_none hnew]
      cases hc
      exact .refl _
    | some d =>
      obtain ⟨d', hd', hd⟩ := h.new.visibleClass_eq_some hnew
      have hpairs := hdefinite name c d hold hnew
      have hmem := Catalog.mem_of_find? (Option.filter_eq_some_iff.mp hnew).1
      rw [hd']
      exact compareClasses_alike h hc hd hunique hunique' hfields hfields' hmem hpairs.1 hpairs.2

theorem packageFindings_alike (name : String) :
    Alike (x.packageFindings name) (y.packageFindings name) := by
  have hclasses : Alike
      (((classNames x.old name).union (classNames x.new name)).items.flatMap x.classFindings)
      (((classNames x.old name).union (classNames x.new name)).items.flatMap y.classFindings) :=
    Finding.alike_flatMap fun name _ =>
      classFindings_alike h hunique hunique' hfields hfields' hdefinite name
  have hold : classNames y.old name = classNames x.old name := by
    simp only [classNames, Codebase.package?, h.old.packages]
  have hnew : classNames y.new name = classNames x.new name := by
    simp only [classNames, Codebase.package?, h.new.packages]
  rw [packageFindings, packageFindings, h.old.visiblePackages, h.new.visiblePackages, hold, hnew]
  cases (visiblePackages x.old).contains name <;> cases (visiblePackages x.new).contains name
  · exact hclasses
  · exact .refl _
  · exact .refl _
  · exact hclasses

/-- The findings do not depend on the order of members, but for their own order. -/
theorem findings_perm_of_reorders : x.findings.Perm y.findings := by
  rw [findings, findings, h.old.visiblePackages, h.new.visiblePackages]
  apply Alike.dropRepeated_perm
  exact Finding.alike_flatMap fun name _ =>
    packageFindings_alike h hunique hunique' hfields hfields' hdefinite name

end Report

/-- A report does not depend on the order of constructors, methods and fields inside classes, as
long as written types that both of two compared classes have are those of one member in each. -/
theorem report_perm_of_reorders
    {x y : Comparison} (h : x.Reorders y) (hunique : x.old.HasUniqueSignatures)
    (hunique' : x.new.HasUniqueSignatures) (hfields : x.old.HasUniqueFields)
    (hfields' : x.new.HasUniqueFields) (hdefinite : x.IsDefinite) (registry : Registry)
    (mode : Mode) :
    (x.report registry mode).entries.Perm (y.report registry mode).entries := by
  have hfindings := findings_perm_of_reorders h hunique hunique' hfields hfields' hdefinite
  simp only [report_eq, Report.ofEntries]
  refine (List.mergeSort_perm _ _).trans (.trans ?_ (List.mergeSort_perm _ _).symm)
  exact (hfindings.filter _).map _

/-- A class with a type above it that is not declared and with the given methods. -/
def bankClass (methods : List Method) : ClassDecl :=
  { loopClass with methods }

def bankOnly (methods : List Method) : Codebase :=
  { loopOnly with classes := ⟨[bankClass methods], List.pairwise_singleton _ _⟩ }

theorem bankOnly_reorders {methods methods' : List Method} (h : methods.Perm methods') :
    (bankOnly methods).Reorders (bankOnly methods') :=
  ⟨rfl, .cons (.intro (.refl _) h (.refl _)) .nil⟩

theorem bankOnly_hasUniqueSignatures
    {methods : List Method} (h : (methods.map (bankClass methods).signatureOf).Nodup) :
    (bankOnly methods).HasUniqueSignatures := by
  intro c hc
  cases List.mem_singleton.mp hc
  exact ⟨List.nodup_nil, h⟩

theorem bankOnly_hasUniqueFields (methods : List Method) : (bankOnly methods).HasUniqueFields := by
  intro c hc
  cases List.mem_singleton.mp hc
  exact loopOnly_hasUniqueFields loopClass List.mem_cons_self

def bankComparison (old new : List Method) : Comparison :=
  { old := bankOnly old, new := bankOnly new }

/-- The method `<T extends BOUND> RESULT NAME(T)`. -/
def boundedNamed (name bound result : String) : Method :=
  { boundedMethod bound with name, returnType := some (TypeRef.named result) }

/-- Two methods, written differently, of which the first has the given result type. -/
def bankMethods (result : String) : List Method :=
  [boundedNamed "get" "b.First" result, boundedNamed "put" "b.Second" "long"]

/-- One method changes its result type, and both sides list their methods the other way round. -/
theorem bank_report_perm :
    (bankComparison (bankMethods "int") (bankMethods "long")).IsDefinite ∧
      ((bankComparison (bankMethods "int") (bankMethods "long")).report {} .current).entries.Perm
        ((bankComparison (bankMethods "int").reverse (bankMethods "long").reverse).report {}
          .current).entries := by
  have hdefinite : (bankComparison (bankMethods "int") (bankMethods "long")).IsDefinite := by
    intro name c d hc hd
    obtain rfl : c = bankClass (bankMethods "int") :=
      List.mem_singleton.mp (Catalog.mem_of_find? (Option.filter_eq_some_iff.mp hc).1)
    obtain rfl : d = bankClass (bankMethods "long") :=
      List.mem_singleton.mp (Catalog.mem_of_find? (Option.filter_eq_some_iff.mp hd).1)
    unfold Pairing.IsDefinite
    decide
  have hreorders : (bankComparison (bankMethods "int") (bankMethods "long")).Reorders
      (bankComparison (bankMethods "int").reverse (bankMethods "long").reverse) :=
    ⟨bankOnly_reorders (List.reverse_perm _).symm,
      bankOnly_reorders (List.reverse_perm _).symm, rfl⟩
  refine ⟨hdefinite, report_perm_of_reorders hreorders ?_ ?_ ?_ ?_ hdefinite {} .current⟩
  · exact bankOnly_hasUniqueSignatures (by decide)
  · exact bankOnly_hasUniqueSignatures (by decide)
  · exact bankOnly_hasUniqueFields _
  · exact bankOnly_hasUniqueFields _

/-- Two methods that are written alike and told apart by their bounds. -/
def overloads : List Method :=
  [boundedNamed "put" "b.First" "int", boundedNamed "put" "b.Second" "long"]

/-- The overloads pair crosswise if one side lists them the other way round: where nothing changed,
changes of result types are reported. -/
theorem overloads_report_not_perm :
    (bankOnly overloads).HasUniqueSignatures ∧ (bankOnly overloads).HasUniqueFields ∧
      (bankOnly overloads).Reorders (bankOnly overloads.reverse) ∧
      ¬ ((bankComparison overloads overloads).report {} .current).entries.Perm
        ((bankComparison overloads overloads.reverse).report {} .current).entries := by
  have hfields := bankOnly_hasUniqueFields overloads
  refine ⟨bankOnly_hasUniqueSignatures (by decide), hfields,
    bankOnly_reorders (List.reverse_perm overloads).symm, fun hperm => ?_⟩
  let cmp := bankComparison overloads overloads.reverse
  let f : Finding := ⟨Location.ofMember (bankClass overloads) "put(T)", .method, .type "int" "long"⟩
  have hpaired : f ∈ cmp.pairFindings (bankClass overloads) (bankClass overloads.reverse)
      (Pairing.between (bankClass overloads) overloads (bankClass overloads.reverse)
        overloads.reverse) := by
    decide
  have hclass : f ∈ cmp.compareClasses (bankClass overloads) (bankClass overloads.reverse) := by
    simp only [compareClasses, methodFindings, List.mem_append]
    exact .inl (.inr (.inl (.inl hpaired)))
  have hfound : f ∈ cmp.findings := by
    have hlisted : cmp.IsListed "a.Loop" := ⟨"a", by decide, by decide, .inl (by decide)⟩
    refine mem_findings_of_isListed hlisted rfl ?_
    have hold : (cmp.old.class? "a.Loop").filter ClassDecl.isVisible = some (bankClass overloads) :=
      rfl
    have hnew : (cmp.new.class? "a.Loop").filter ClassDecl.isVisible =
        some (bankClass overloads.reverse) :=
      rfl
    rwa [classFindings, hold, hnew]
  have hreported := hperm.mem_iff.mpr (mem_report_iff.mpr ⟨f, hfound, rfl, rfl⟩)
  obtain ⟨g, hg, -, hentry⟩ := mem_report_iff.mp hreported
  have hissue : g.issue = f.issue := congrArg Entry.issue hentry
  rw [unresolved_of_mem_findings_self hfields hg] at hissue
  cases hissue

end Comparison

end ApiSurface
