import ApiSurface.Lineage.Members
import ApiSurface.Proofs.Ancestry
import Mathlib.Data.List.Find

/-!
# Inheritance

Superclasses and interfaces are visited depth first: a supertype, then everything above it that has
not been met, then the next supertype in the list.  A class lists its own members and, of those it
inherits under a signature or a name, the first one in this order.  The method that is overridden is
the one that would be inherited in its stead.
-/

namespace ApiSurface
namespace Lineage

/-! ## The order of a walk -/

/-- Visiting the supertypes of the given names depth first, past the names met before: the
classes in the order in which they are visited, and the names met in the end. -/
inductive DepthFirst (cb : Codebase) :
    (met names : List String) → (visited : List ClassDecl) → (met' : List String) → Prop where
  | done (met : List String) : DepthFirst cb met [] [] met
  | again {met names met' : List String} {name : String} {visited : List ClassDecl}
      (known : name ∈ met) (others : DepthFirst cb met names visited met') :
      DepthFirst cb met (name :: names) visited met'
  | undeclared {met names met' : List String} {name : String} {visited : List ClassDecl}
      (fresh : name ∉ met) (none : cb.class? name = none)
      (others : DepthFirst cb (name :: met) names visited met') :
      DepthFirst cb met (name :: names) visited met'
  | descend {met names met' met'' : List String} {name : String} {c : ClassDecl}
      {above visited : List ClassDecl} (fresh : name ∉ met) (declared : cb.class? name = some c)
      (first : DepthFirst cb (name :: met) c.supertypeNames above met')
      (others : DepthFirst cb met' names visited met'') :
      DepthFirst cb met (name :: names) (c :: above ++ visited) met''

/-- Declarations under names met before are never looked at. -/
theorem walk_congr
    {cb cb' : Codebase} {links : ClassDecl → List String} {met : List String}
    (h : ∀ name, name ∉ met → cb'.class? name = cb.class? name)
    (pending : List (String × String)) :
    walk cb' links met pending = walk cb links met pending := by
  fun_induction walk cb links met pending with
  | case1 met => rw [walk]
  | case2 met owner first pending hmet ih =>
    rw [walk_cons_of_mem hmet, ih h]
  | case3 met owner first pending hmet c hc ih =>
    have hfresh : first ∉ met := by simpa using hmet
    rw [walk_cons_of_declared hmet ((h first hfresh).trans hc), ih]
    exact fun name hname => h name fun hmem => hname (List.mem_cons_of_mem _ hmem)
  | case4 met owner first pending hmet hc ih =>
    have hfresh : first ∉ met := by simpa using hmet
    rw [walk_cons_of_undeclared hmet ((h first hfresh).trans hc), ih]
    exact fun name hname => h name fun hmem => hname (List.mem_cons_of_mem _ hmem)

/-- A walk visits what is above its first names depth first, then goes on with what is pending. -/
theorem exists_depthFirst_walk
    (cb : Codebase) (met : List String) (owner : String) (names : List String)
    (pending : List (String × String)) :
    ∃ visited met', DepthFirst cb met names visited met' ∧
      (unmet cb met').length ≤ (unmet cb met).length ∧
      (walk cb ClassDecl.supertypeNames met
          (names.map (fun name => (owner, name)) ++ pending)).filterMap Encounter.class? =
        visited ++
          (walk cb ClassDecl.supertypeNames met' pending).filterMap Encounter.class? := by
  match names with
  | [] => exact ⟨[], met, .done met, Nat.le_refl _, rfl⟩
  | name :: names =>
    by_cases hmet : name ∈ met
    · obtain ⟨visited, met', hothers, hunmet, hwalk⟩ :=
        exists_depthFirst_walk cb met owner names pending
      refine ⟨visited, met', .again hmet hothers, hunmet, ?_⟩
      rw [List.map_cons, List.cons_append, walk_cons_of_mem (by simpa using hmet), hwalk]
    · cases hclass : cb.class? name with
      | none =>
        obtain ⟨visited, met', hothers, hunmet, hwalk⟩ :=
          exists_depthFirst_walk cb (name :: met) owner names pending
        rw [unmet_cons_of_undeclared hclass] at hunmet
        refine ⟨visited, met', .undeclared hmet hclass hothers, hunmet, ?_⟩
        rw [List.map_cons, List.cons_append, walk_cons_of_undeclared (by simpa using hmet) hclass,
          ← hwalk]
        split <;> rfl
      | some c =>
        have hless := length_unmet_lt hclass (by simpa using hmet)
        obtain ⟨above, met', habove, hunmet', hwalk'⟩ :=
          exists_depthFirst_walk cb (name :: met) c.qualifiedName c.supertypeNames
            (names.map (fun name => (owner, name)) ++ pending)
        obtain ⟨visited, met'', hothers, hunmet'', hwalk''⟩ :=
          exists_depthFirst_walk cb met' owner names pending
        refine ⟨c :: above ++ visited, met'', .descend hmet hclass habove hothers, by omega, ?_⟩
        rw [List.map_cons, List.cons_append, walk_cons_of_declared (by simpa using hmet) hclass]
        simp only [List.filterMap_cons, Encounter.class?, hwalk', hwalk'', List.cons_append,
          List.append_assoc]
termination_by ((unmet cb met).length, names.length)
decreasing_by
  · exact Prod.Lex.right _ (by simp)
  · rw [unmet_cons_of_undeclared hclass]
    exact Prod.Lex.right _ (by simp)
  · exact Prod.Lex.left _ _ hless
  · exact Prod.Lex.left _ _ (by omega)

end Lineage

namespace EffectiveMembers

/-! ## Extending members -/

variable {α : Type}

theorem prefix_extend (members xs : List (String × α)) : members <+: extend members xs := by
  induction xs generalizing members with
  | nil => exact List.prefix_refl members
  | cons x xs ih =>
    rw [extend]
    split
    · exact ih members
    · exact (List.prefix_append members [x]).trans (ih (members ++ [x]))

/-- Keys that occur once each still do after an extension. -/
theorem nodup_extend
    {members : List (String × α)} (h : (members.map Prod.fst).Nodup) (xs : List (String × α)) :
    ((extend members xs).map Prod.fst).Nodup := by
  induction xs generalizing members with
  | nil => exact h
  | cons x xs ih =>
    rw [extend]
    split
    · exact ih h
    · rename_i hany
      refine ih ?_
      rw [List.map_append, List.map_singleton, List.nodup_append_comm]
      refine List.nodup_cons.mpr ⟨fun hmem => hany ?_, h⟩
      simpa using hmem

/-- A member is found under a key if it was there before, else as the first candidate. -/
theorem find?_extend (members xs : List (String × α)) (key : String) :
    (extend members xs).find? (fun x => x.1 == key) =
      (members.find? fun x => x.1 == key).or (xs.find? fun x => x.1 == key) := by
  induction xs generalizing members with
  | nil => simp [extend]
  | cons x xs ih =>
    rw [extend]
    by_cases hkey : x.1 = key
    · have hfirst : (x :: xs).find? (fun y => y.1 == key) = some x := by simp [hkey]
      rw [hfirst]
      split
      · rename_i hany
        have hsome : (members.find? fun y => y.1 == key).isSome = true := by
          rw [List.find?_isSome]
          simpa [hkey] using hany
        obtain ⟨y, hy⟩ := Option.isSome_iff_exists.mp hsome
        rw [ih, hy, Option.some_or, Option.some_or]
      · rename_i hany
        have hnone : (members.find? fun y => y.1 == key) = none := by
          refine List.find?_eq_none.mpr fun y hy heq => hany ?_
          exact List.any_eq_true.mpr ⟨y, hy, by rwa [hkey]⟩
        rw [ih, List.find?_append, hnone]
        simp [hkey]
    · have hskip : (x :: xs).find? (fun y => y.1 == key) = xs.find? fun y => y.1 == key := by
        simp [hkey]
      rw [hskip]
      split
      · exact ih members
      · rw [ih, List.find?_append]
        simp [hkey]

/-- The first member under a key that one of the classes hands on. -/
def first? (members : ClassDecl → List (String × α)) (isInherited : α → Bool)
    (classes : List ClassDecl) (key : String) : Option α :=
  classes.findSome? fun s =>
    ((members s).find? fun x => isInherited x.2 && x.1 == key).map Prod.snd

section Inherited

variable {members : ClassDecl → List (String × α)} {isInherited : α → Bool}

theorem first?_eq_find?_flatMap (classes : List ClassDecl) (key : String) :
    first? members isInherited classes key =
      ((classes.flatMap fun s => (members s).filter fun x => isInherited x.2).find? fun x =>
        x.1 == key).map Prod.snd := by
  induction classes with
  | nil => rfl
  | cons s classes ih =>
    have hfilter : ((members s).filter fun x => isInherited x.2).find? (fun x => x.1 == key) =
        (members s).find? fun x => isInherited x.2 && x.1 == key := by
      simp only [List.find?_filter, Bool.decide_and, Bool.decide_eq_true]
    rw [first?, List.findSome?_cons, ← first?, ih, List.flatMap_cons, List.find?_append, hfilter]
    cases (members s).find? fun x => isInherited x.2 && x.1 == key <;> rfl

/-- What some class hands on is found. -/
theorem isSome_first?
    {classes : List ClassDecl} {s : ClassDecl} (hs : s ∈ classes) {x : String × α}
    (hx : x ∈ members s) (hinherited : isInherited x.2 = true) :
    (first? members isInherited classes x.1).isSome = true := by
  rw [first?, List.findSome?_isSome_iff]
  refine ⟨s, hs, ?_⟩
  rw [Option.isSome_map, List.find?_isSome]
  exact ⟨x, hx, by simp [hinherited]⟩

end Inherited

end EffectiveMembers

/-- The first method with an erased signature that one of the classes hands on. -/
def firstMethod? (classes : List ClassDecl) (signature : String) : Option Method :=
  classes.findSome? fun s =>
    s.methods.find? fun m => m.isInherited && s.signatureOf m == signature

/-- The first field with a name that one of the classes hands on. -/
def firstField? (classes : List ClassDecl) (name : String) : Option Field :=
  classes.findSome? fun s => s.fields.find? fun f => f.isInherited && f.name == name

theorem firstMethod?_eq_first? (classes : List ClassDecl) (signature : String) :
    firstMethod? classes signature =
      EffectiveMembers.first? ClassDecl.signedMethods Method.isInherited classes signature := by
  simp [firstMethod?, EffectiveMembers.first?, ClassDecl.signedMethods, List.find?_map,
    Function.comp_def]

theorem firstField?_eq_first? (classes : List ClassDecl) (name : String) :
    firstField? classes name =
      EffectiveMembers.first? ClassDecl.namedFields Field.isInherited classes name := by
  simp [firstField?, EffectiveMembers.first?, ClassDecl.namedFields, List.find?_map,
    Function.comp_def]

namespace Codebase

open Lineage

/-- The supertypes of a class are listed depth first. -/
theorem exists_depthFirst_supertypes (cb : Codebase) (c : ClassDecl) :
    ∃ met, DepthFirst cb [c.qualifiedName] c.supertypeNames (cb.supertypes c) met := by
  obtain ⟨visited, met, hvisited, -, hwalk⟩ :=
    exists_depthFirst_walk cb [c.qualifiedName] c.qualifiedName c.supertypeNames []
  rw [List.append_nil, walk, List.filterMap_nil, List.append_nil] at hwalk
  exact ⟨met, by rwa [supertypes, lineage, walkFrom, hwalk]⟩

/-- A method is found if the class has it, else as the first one that is inherited. -/
theorem findMethod?_effectiveMembers (cb : Codebase) (c : ClassDecl) (signature : String) :
    (cb.effectiveMembers c).findMethod? signature =
      (c.findMethod? signature).or (firstMethod? (cb.supertypes c) signature) := by
  rw [EffectiveMembers.findMethod?, effectiveMembers, EffectiveMembers.find?_extend, Option.map_or,
    firstMethod?_eq_first?, EffectiveMembers.first?_eq_find?_flatMap]
  simp [ClassDecl.findMethod?, ClassDecl.signedMethods, List.find?_map, Function.comp_def]

theorem find?_fields_effectiveMembers (cb : Codebase) (c : ClassDecl) (name : String) :
    ((cb.effectiveMembers c).fields.find? fun x => x.1 == name).map Prod.snd =
      (c.findField? name).or (firstField? (cb.supertypes c) name) := by
  rw [effectiveMembers, EffectiveMembers.find?_extend, Option.map_or, firstField?_eq_first?,
    EffectiveMembers.first?_eq_find?_flatMap]
  simp [ClassDecl.findField?, ClassDecl.namedFields, List.find?_map, Function.comp_def]

/-- What the effective members of a class are: its own ones and, under every signature and name
that a supertype hands on, the own one or else the first one depth first. -/
structure ListsMembers (cb : Codebase) (c : ClassDecl) : Prop where
  /-- The supertypes stand in depth-first order, superclasses before interfaces. -/
  depth_first : ∃ met, DepthFirst cb [c.qualifiedName] c.supertypeNames (cb.supertypes c) met
  own_methods : c.signedMethods <+: (cb.effectiveMembers c).methods
  own_fields : c.namedFields <+: (cb.effectiveMembers c).fields
  methods_once : ((cb.effectiveMembers c).methods.map Prod.fst).Nodup
  fields_once : ((cb.effectiveMembers c).fields.map Prod.fst).Nodup
  /-- Every method that a supertype hands on has its signature listed. -/
  method_listed : ∀ s, cb.IsAbove c s → ∀ m ∈ s.methods, m.modifiers.isStatic = false →
    m.modifiers.access ≠ .priv → m.isRemoved = false →
      ((cb.effectiveMembers c).findMethod? (s.signatureOf m)).isSome = true
  /-- What is listed under a signature is the own method, else the first that is handed on. -/
  method_chosen : ∀ signature, (cb.effectiveMembers c).findMethod? signature =
    (c.findMethod? signature).or (firstMethod? (cb.supertypes c) signature)
  /-- Every field that a supertype hands on has its name listed. -/
  field_listed : ∀ s, cb.IsAbove c s → ∀ f ∈ s.fields, f.modifiers.access ≠ .priv →
    f.isRemoved = false → f.name ∈ (cb.effectiveMembers c).fields.map Prod.fst
  /-- What is listed under a name is the own field, else the first that is handed on. -/
  field_chosen : ∀ name, ((cb.effectiveMembers c).fields.find? fun x => x.1 == name).map Prod.snd =
    (c.findField? name).or (firstField? (cb.supertypes c) name)

theorem isSome_firstMethod?
    {cb : Codebase} {c s : ClassDecl} (hs : cb.IsAbove c s) {m : Method} (hm : m ∈ s.methods)
    (hinherited : m.isInherited = true) :
    (firstMethod? (cb.supertypes c) (s.signatureOf m)).isSome = true := by
  rw [firstMethod?_eq_first?]
  exact EffectiveMembers.isSome_first? (x := (s.signatureOf m, m))
    (mem_supertypes_iff_isAbove.mpr hs) (List.mem_map_of_mem hm) hinherited

theorem isSome_firstField?
    {cb : Codebase} {c s : ClassDecl} (hs : cb.IsAbove c s) {f : Field} (hf : f ∈ s.fields)
    (hinherited : f.isInherited = true) :
    (firstField? (cb.supertypes c) f.name).isSome = true := by
  rw [firstField?_eq_first?]
  exact EffectiveMembers.isSome_first? (x := (f.name, f))
    (mem_supertypes_iff_isAbove.mpr hs) (List.mem_map_of_mem hf) hinherited

theorem listsMembers
    (cb : Codebase) {c : ClassDecl} (hmethods : (c.methods.map c.signatureOf).Nodup)
    (hfields : (c.fields.map Field.name).Nodup) : cb.ListsMembers c where
  depth_first := exists_depthFirst_supertypes cb c
  own_methods := EffectiveMembers.prefix_extend _ _
  own_fields := EffectiveMembers.prefix_extend _ _
  methods_once := EffectiveMembers.nodup_extend
    (by simpa [ClassDecl.signedMethods, Function.comp_def] using hmethods) _
  fields_once := EffectiveMembers.nodup_extend
    (by simpa [ClassDecl.namedFields, Function.comp_def] using hfields) _
  method_listed s hs m hm hstatic haccess hremoved := by
    have hinherited : m.isInherited = true := by
      simpa [Method.isInherited, hstatic, haccess, Method.isRemoved] using hremoved
    rw [findMethod?_effectiveMembers, Option.isSome_or, isSome_firstMethod? hs hm hinherited,
      Bool.or_true]
  method_chosen := findMethod?_effectiveMembers cb c
  field_listed s hs f hf haccess hremoved := by
    have hinherited : f.isInherited = true := by
      simpa [Field.isInherited, haccess, Field.isRemoved] using hremoved
    have hfound : (((cb.effectiveMembers c).fields.find? fun x => x.1 == f.name).map
        Prod.snd).isSome = true := by
      rw [find?_fields_effectiveMembers, Option.isSome_or, isSome_firstField? hs hf hinherited,
        Bool.or_true]
    rw [Option.isSome_map, List.find?_isSome] at hfound
    obtain ⟨x, hx, hkey⟩ := hfound
    exact List.mem_map.mpr ⟨x, hx, by simpa using hkey⟩
  field_chosen := find?_fields_effectiveMembers cb c

/-! ## Overriding -/

/-- Where nothing is removed, the overridden method is the first one that is inherited. -/
theorem overridden?_eq_firstMethod?
    {cb : Codebase} (hkept : ∀ s ∈ cb.classes.items, ∀ n ∈ s.methods, n.isRemoved = false)
    (c : ClassDecl) {m : Method} (hmethod : m.isConstructor = false)
    (hstatic : m.modifiers.isStatic = false) :
    cb.overridden? c m = firstMethod? (cb.supertypes c) (c.signatureOf m) := by
  have hsame : ∀ s ∈ cb.supertypes c,
      (s.methods.find? fun n => !n.modifiers.isStatic && n.modifiers.access != .priv &&
        s.signatureOf n == c.signatureOf m) =
      s.methods.find? fun n => n.isInherited && s.signatureOf n == c.signatureOf m := by
    intro s hs
    refine List.find?_congr fun n hn => ?_
    have hclass : s ∈ cb.classes.items :=
      Catalog.mem_of_find? (mem_supertypes_iff_isAbove.mp hs).1
    have hlifecycle : (n.exposure.lifecycle != .removed) = true := by
      simpa [Method.isRemoved] using hkept s hclass n hn
    rw [Method.isInherited, hlifecycle, Bool.and_true]
  rw [overridden?, hmethod, hstatic, if_neg (by simp), firstMethod?]
  generalize cb.supertypes c = supertypes at hsame
  induction supertypes with
  | nil => rfl
  | cons s supertypes ih =>
    obtain ⟨hs, hothers⟩ := List.forall_mem_cons.mp hsame
    rw [List.findSome?_cons, List.findSome?_cons, hs, ih hothers]

/-- The supertypes of a class do not depend on what is declared under its own name. -/
theorem supertypes_congr
    {cb cb' : Codebase} {c : ClassDecl}
    (h : ∀ name, name ≠ c.qualifiedName → cb'.class? name = cb.class? name) :
    cb'.supertypes c = cb.supertypes c := by
  rw [supertypes, supertypes, lineage, lineage, walkFrom, walkFrom,
    walk_congr fun name hname => h name (by simpa using hname)]

end Codebase

def ClassDecl.without (c : ClassDecl) (m : Method) : ClassDecl :=
  { c with methods := c.methods.erase m }

/-- Where signatures are unique, a class without a method has none of its signature. -/
theorem ClassDecl.findMethod?_without
    {c : ClassDecl} (hmethods : (c.methods.map c.signatureOf).Nodup) {m : Method}
    (hm : m ∈ c.methods) : (c.without m).findMethod? (c.signatureOf m) = none := by
  refine List.find?_eq_none.mpr fun n hn hsignature => ?_
  obtain ⟨hne, hmem⟩ := (List.Nodup.mem_erase_iff hmethods.of_map).mp hn
  exact hne (List.inj_on_of_nodup_map hmethods hmem hm (beq_iff_eq.mp hsignature))

namespace Codebase

open Lineage

/-- A class with unique members lists its own and, of those it inherits, the first ones.  Where
nothing is removed, a method overrides what would be listed if the class did not declare it,
whatever else changes about the declaration of the class. -/
theorem listsMembers_and_overridden?
    (cb : Codebase) (c : ClassDecl) (hmethods : (c.methods.map c.signatureOf).Nodup)
    (hfields : (c.fields.map Field.name).Nodup) :
    cb.ListsMembers c ∧
    ((∀ s ∈ cb.classes.items, ∀ n ∈ s.methods, n.isRemoved = false) →
      ∀ m ∈ c.methods, m.isConstructor = false → m.modifiers.isStatic = false →
        ∀ cb' : Codebase, (∀ name, name ≠ c.qualifiedName → cb'.class? name = cb.class? name) →
          cb.overridden? c m =
            (cb'.effectiveMembers (c.without m)).findMethod? (c.signatureOf m)) := by
  refine ⟨cb.listsMembers hmethods hfields, fun hkept m hm hmethod hstatic cb' hcb' => ?_⟩
  have hsupertypes : cb'.supertypes (c.without m) = cb.supertypes c := supertypes_congr hcb'
  rw [findMethod?_effectiveMembers, ClassDecl.findMethod?_without hmethods hm, hsupertypes,
    Option.none_or, overridden?_eq_firstMethod? hkept c hmethod hstatic]

/-! ## A hedge among shrubs and plants -/

def rootMethod (owner parameter : String) : Method :=
  { name := "root", owner, modifiers := { access := .pub }, returnType := some (.named "void")
    parameters := [{ type := .named parameter }] }

/-- An interface in a circle with the class that implements it. -/
def plant : ClassDecl :=
  { ClassDecl.declare "a" "Plant" .interface with
    interfaces := [.named "a.Hedge"], methods := [rootMethod "a.Plant" "b.Soil"] }

/-- A class whose variable is bounded by soil. -/
def shrub : ClassDecl :=
  { ClassDecl.declare "a" "Shrub" .ordinary with
    typeParameters := [{ name := "T", bounds := [.named "b.Soil"] }]
    interfaces := [.named "a.Plant"], methods := [rootMethod "a.Shrub" "T"] }

/-- A class with soil of its own in the stead of the variable. -/
def hedge : ClassDecl :=
  { ClassDecl.declare "a" "Hedge" .ordinary with
    superclass := some (.named "a.Shrub"), interfaces := [.named "a.Plant", .named "a.Weed"]
    methods := [rootMethod "a.Hedge" "b.Soil"] }

def hedgerow : Codebase :=
  { packages := ⟨[{ name := "a", classNames := ⟨["a.Hedge", "a.Plant", "a.Shrub"], by decide⟩ }],
      by decide⟩
    classes := ⟨[hedge, plant, shrub], by decide⟩ }

theorem supertypes_hedge : hedgerow.supertypes hedge = [shrub, plant] := by
  have hnames : hedge.supertypeNames.map (fun name => ("a.Hedge", name)) =
      [("a.Hedge", "a.Shrub"), ("a.Hedge", "a.Plant"), ("a.Hedge", "a.Weed")] := by decide
  rw [supertypes, lineage, walkFrom, show hedge.qualifiedName = "a.Hedge" by decide, hnames,
    walk_cons_of_declared (c := shrub) (by decide) (by decide)]
  rw [show shrub.supertypeNames = ["java.lang.Object", "a.Plant"] by decide, List.map_cons,
    List.cons_append, walk_cons_of_undeclared (by decide) (by decide), List.map_singleton,
    List.singleton_append, walk_cons_of_declared (c := plant) (by decide) (by decide)]
  rw [show plant.supertypeNames = ["a.Hedge"] by decide, List.map_singleton,
    List.singleton_append, walk_cons_of_mem (by decide), walk_cons_of_mem (by decide),
    walk_cons_of_undeclared (by decide) (by decide), walk]
  rfl

/-- The method of the shrub is nearer than that of the plant, and both erase to the one of the
hedge. -/
theorem hedge_overrides_shrub :
    (hedge.methods.map hedge.signatureOf).Nodup ∧ (hedge.fields.map Field.name).Nodup ∧
    (hedgerow.effectiveMembers (hedge.without (rootMethod "a.Hedge" "b.Soil"))).findMethod?
      "root(b.Soil)" = some (rootMethod "a.Shrub" "T") := by
  have hmethods : (hedge.methods.map hedge.signatureOf).Nodup := by decide
  have hfields : (hedge.fields.map Field.name).Nodup := by decide
  have hoverridden : hedgerow.overridden? hedge (rootMethod "a.Hedge" "b.Soil") =
      some (rootMethod "a.Shrub" "T") := by
    rw [overridden?, supertypes_hedge]
    decide
  refine ⟨hmethods, hfields, Eq.trans ?_ hoverridden⟩
  exact ((listsMembers_and_overridden? hedgerow hedge hmethods hfields).2 (by decide)
    (rootMethod "a.Hedge" "b.Soil") (by decide) rfl rfl hedgerow fun _ _ => rfl).symm

end Codebase
end ApiSurface
