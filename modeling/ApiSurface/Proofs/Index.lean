import ApiSurface.Codebase
import ApiSurface.Proofs.Catalog
import Mathlib.Tactic.Conv

/-!
# Adding members, classes and packages

A member is added behind those of its class unless one like it is there.  A codebase that is built
by adding packages and classes lists each class in its own package and nowhere else.  If in addition
no package is empty, the packages follow from the classes.
-/

namespace ApiSurface

/-! ## Adding members -/

/-- Something is added unless something like it is found. -/
theorem ite_find?_eq_ok
    {α β : Type} {p : α → Bool} {xs : List α} {fault : Fault} {b b' : β} :
    (if (xs.find? p).isSome then Except.error fault else .ok b) = .ok b' ↔
      (∀ x ∈ xs, p x = false) ∧ b' = b := by
  split
  · rename_i htaken
    constructor
    · nofun
    · rintro ⟨hfree, -⟩
      obtain ⟨x, hx, hp⟩ := List.find?_isSome.mp htaken
      rw [hfree x hx] at hp
      cases hp
  · rename_i hfree
    rw [Except.ok.injEq, eq_comm, and_iff_right]
    intro x hx
    rw [Bool.eq_false_iff]
    exact fun hp => hfree (List.find?_isSome.mpr ⟨x, hx, hp⟩)

namespace ClassDecl

variable {c d : ClassDecl}

theorem addConstructor_eq_ok {m : Method} :
    c.addConstructor m = .ok d ↔
      (∀ m' ∈ c.constructors, c.signatureOf m' ≠ c.signatureOf m) ∧
        d = { c with constructors := c.constructors ++ [m] } := by
  rw [addConstructor, findConstructor?, ite_find?_eq_ok]
  simp

theorem addMethod_eq_ok {m : Method} :
    c.addMethod m = .ok d ↔
      (∀ m' ∈ c.methods, c.signatureOf m' ≠ c.signatureOf m) ∧
        d = { c with methods := c.methods ++ [m] } := by
  rw [addMethod, findMethod?, ite_find?_eq_ok]
  simp

theorem addField_eq_ok {x : Field} :
    c.addField x = .ok d ↔
      (∀ x' ∈ c.fields, x'.name ≠ x.name) ∧ d = { c with fields := c.fields ++ [x] } := by
  rw [addField, findField?, ite_find?_eq_ok]
  simp

end ClassDecl

/-! ## Packages list their classes -/

namespace Codebase

theorem mem_classesIn_iff
    {cb : Codebase} {p : Package} {c : ClassDecl} :
    c ∈ cb.classesIn p ↔
      c.qualifiedName ∈ p.classNames.items ∧ cb.class? c.qualifiedName = some c := by
  rw [classesIn, List.mem_filterMap]
  constructor
  · rintro ⟨name, hname, hc⟩
    have hkey : c.qualifiedName = name := Catalog.key_of_find? hc
    exact ⟨hkey ▸ hname, hkey ▸ hc⟩
  · rintro ⟨hname, hc⟩
    exact ⟨c.qualifiedName, hname, hc⟩

theorem class?_eq_some_iff {cb : Codebase} {name : String} {c : ClassDecl} :
    cb.class? name = some c ↔ c ∈ cb.classes.items ∧ c.qualifiedName = name :=
  Catalog.find?_eq_some_iff

theorem class?_isSome_iff {cb : Codebase} {name : String} :
    (cb.class? name).isSome ↔ ∃ c ∈ cb.classes.items, c.qualifiedName = name := by
  rw [class?, Catalog.find?, List.find?_isSome]
  simp

/-- Classes of a package stand in the order of their names. -/
theorem pairwise_classesIn (cb : Codebase) (p : Package) :
    (cb.classesIn p).Pairwise fun c d => c.qualifiedName < d.qualifiedName := by
  rw [classesIn, List.pairwise_filterMap]
  refine p.classNames.ordered.imp ?_
  intro a b hab c hc d hd
  rw [(class?_eq_some_iff.mp hc).2, (class?_eq_some_iff.mp hd).2]
  exact hab

theorem packageOrNew_name (cb : Codebase) (name : String) : (cb.packageOrNew name).name = name := by
  rw [packageOrNew]
  cases h : cb.package? name with
  | none => rfl
  | some p => exact Catalog.key_of_find? h

/-- A package lists exactly its own classes, and each class has its package. -/
structure IsIndexed (cb : Codebase) : Prop where
  listed : ∀ p ∈ cb.packages.items, ∀ name, name ∈ p.classNames.items ↔
    ∃ c ∈ cb.classes.items, c.package = p.name ∧ c.qualifiedName = name
  packaged : ∀ c ∈ cb.classes.items, ∃ p ∈ cb.packages.items, p.name = c.package

/-- Changing classes under their names changes nothing about where they are listed. -/
theorem IsIndexed.map
    {cb : Codebase} (h : cb.IsIndexed) {f : ClassDecl → ClassDecl}
    (hname : ∀ c, (f c).qualifiedName = c.qualifiedName)
    (hpackage : ∀ c, (f c).package = c.package) :
    IsIndexed { cb with classes := cb.classes.map f hname } := by
  refine ⟨fun p hp name => ?_, fun c hc => ?_⟩
  · rw [h.listed p hp]
    simp only [Catalog.mem_map_iff, exists_exists_and_eq_and, hname, hpackage]
  · obtain ⟨d, hd, rfl⟩ := List.mem_map.mp hc
    rw [hpackage]
    exact h.packaged d hd

theorem isIndexed_empty : IsIndexed ∅ :=
  ⟨fun _ hp => absurd hp List.not_mem_nil, fun _ hc => absurd hc List.not_mem_nil⟩

/-- Changes that keep names, packages and what the packages list keep the index. -/
theorem isIndexed_map
    {cb : Codebase} {f : Package → Package} {g : ClassDecl → ClassDecl}
    (hf : ∀ p, (f p).name = p.name) (hg : ∀ c, (g c).qualifiedName = c.qualifiedName)
    (hnames : ∀ p, (f p).classNames = p.classNames) (hpackage : ∀ c, (g c).package = c.package) :
    IsIndexed { packages := cb.packages.map f hf, classes := cb.classes.map g hg } ↔
      cb.IsIndexed := by
  have hlisted : ∀ package name, (∃ c ∈ (cb.classes.map g hg).items, c.package = package ∧
      c.qualifiedName = name) ↔
      ∃ c ∈ cb.classes.items, c.package = package ∧ c.qualifiedName = name := by
    intro package name
    simp only [Catalog.mem_map_iff, exists_exists_and_eq_and, hg, hpackage]
  have hpackaged : ∀ package, (∃ p ∈ (cb.packages.map f hf).items, p.name = package) ↔
      ∃ p ∈ cb.packages.items, p.name = package := by
    intro package
    simp only [Catalog.mem_map_iff, exists_exists_and_eq_and, hf]
  constructor
  · rintro ⟨h, h'⟩
    refine ⟨fun p hp name => ?_, fun c hc => ?_⟩
    · have hsame := h (f p) (List.mem_map_of_mem hp) name
      rw [hnames, hf, hlisted] at hsame
      exact hsame
    · have hfound := h' (g c) (List.mem_map_of_mem hc)
      rw [hpackaged, hpackage] at hfound
      exact hfound
  · rintro ⟨h, h'⟩
    refine ⟨fun p hp name => ?_, fun c hc => ?_⟩
    · obtain ⟨q, hq, rfl⟩ := List.mem_map.mp hp
      rw [hnames, hf, hlisted]
      exact h q hq name
    · obtain ⟨d, hd, rfl⟩ := List.mem_map.mp hc
      rw [hpackaged, hpackage]
      exact h' d hd

/-- Each class of an indexed codebase is among the classes of its package. -/
theorem IsIndexed.mem_classesIn_iff
    {cb : Codebase} (h : cb.IsIndexed) {p : Package} (hp : p ∈ cb.packages.items) {c : ClassDecl} :
    c ∈ cb.classesIn p ↔ c ∈ cb.classes.items ∧ c.package = p.name := by
  rw [Codebase.mem_classesIn_iff, class?_eq_some_iff, h.listed p hp]
  constructor
  · rintro ⟨⟨d, hd, hpackage, hname⟩, hc, -⟩
    rw [← Catalog.eq_of_key_eq hd hc hname]
    exact ⟨hd, hpackage⟩
  · rintro ⟨hc, hpackage⟩
    exact ⟨⟨c, hc, hpackage, rfl⟩, hc, rfl⟩

theorem IsIndexed.mem_packageOrNew_iff
    {cb : Codebase} (h : cb.IsIndexed) (package name : String) :
    name ∈ (cb.packageOrNew package).classNames.items ↔
      ∃ c ∈ cb.classes.items, c.package = package ∧ c.qualifiedName = name := by
  rw [packageOrNew]
  cases hfound : cb.package? package with
  | none =>
    constructor
    · nofun
    · rintro ⟨c, hc, hpackage, -⟩
      obtain ⟨p, hp, hname⟩ := h.packaged c hc
      exact absurd (hname.trans hpackage) (Catalog.find?_eq_none_iff.mp hfound p hp)
  | some p =>
    have hname : p.name = package := Catalog.key_of_find? hfound
    rw [← hname]
    exact h.listed p (Catalog.mem_of_find? hfound) name

theorem IsIndexed.addPackage
    {cb : Codebase} (h : cb.IsIndexed) (package : String) : (cb.addPackage package).IsIndexed := by
  constructor
  · intro p hp name
    rcases Catalog.mem_insert_iff.mp hp with rfl | ⟨hp, -⟩
    · rw [h.mem_packageOrNew_iff, packageOrNew_name]
      rfl
    · exact h.listed p hp name
  · intro c hc
    obtain ⟨p, hp, hname⟩ := h.packaged c hc
    by_cases hsame : package = p.name
    · refine ⟨cb.packageOrNew package, Catalog.mem_insert_iff.mpr (.inl rfl), ?_⟩
      rw [packageOrNew_name, hsame, hname]
    · refine ⟨p, Catalog.mem_insert_iff.mpr (.inr ⟨hp, ?_⟩), hname⟩
      rwa [packageOrNew_name]

/-- The package of a class with the class among its classes. -/
def listing (cb : Codebase) (c : ClassDecl) : Package :=
  { cb.packageOrNew c.package with
    classNames := (cb.packageOrNew c.package).classNames.insert c.qualifiedName }

theorem listing_name (cb : Codebase) (c : ClassDecl) : (cb.listing c).name = c.package :=
  packageOrNew_name cb c.package

theorem addClass_eq (cb : Codebase) (c : ClassDecl) :
    cb.addClass c = if (cb.class? c.qualifiedName).isSome then
        .error (.duplicate c.package c.qualifiedName)
      else .ok
        { packages := cb.packages.insert (cb.listing c), classes := cb.classes.insert c } :=
  rfl

theorem addClass_eq_ok {cb d : Codebase} {c : ClassDecl} :
    cb.addClass c = .ok d ↔ cb.class? c.qualifiedName = none ∧
      d = { packages := cb.packages.insert (cb.listing c), classes := cb.classes.insert c } := by
  rw [addClass_eq]
  cases cb.class? c.qualifiedName with
  | none => simp [eq_comm]
  | some c' => simp

theorem mem_classes_of_addClass
    {cb d : Codebase} {c : ClassDecl} (h : cb.addClass c = .ok d) {x : ClassDecl} :
    x ∈ d.classes.items ↔ x = c ∨ x ∈ cb.classes.items := by
  obtain ⟨hfree, rfl⟩ := addClass_eq_ok.mp h
  rw [Catalog.mem_insert_iff]
  have hother : ∀ x ∈ cb.classes.items, c.qualifiedName ≠ x.qualifiedName := fun x hx hname =>
    Catalog.find?_eq_none_iff.mp hfree x hx hname.symm
  exact or_congr_right ⟨And.left, fun hx => ⟨hx, hother x hx⟩⟩

theorem IsIndexed.addClass
    {cb d : Codebase} (h : cb.IsIndexed) {c : ClassDecl} (hadd : cb.addClass c = .ok d) :
    d.IsIndexed := by
  have hclasses : ∀ x, x ∈ d.classes.items ↔ x = c ∨ x ∈ cb.classes.items :=
    fun x => mem_classes_of_addClass hadd
  obtain ⟨-, rfl⟩ := addClass_eq_ok.mp hadd
  constructor
  · intro p hp name
    simp only [hclasses, or_and_right, exists_or, exists_eq_left]
    rcases Catalog.mem_insert_iff.mp hp with rfl | ⟨hp, hother⟩
    · rw [listing_name, listing, NameSet.mem_insert_iff, h.mem_packageOrNew_iff]
      simp [eq_comm]
    · rw [listing_name] at hother
      simp [h.listed p hp name, hother]
  · intro x hx
    by_cases hsame : c.package = x.package
    · exact ⟨cb.listing c, Catalog.mem_insert_iff.mpr (.inl rfl), (listing_name cb c).trans hsame⟩
    · have hold : x ∈ cb.classes.items := by
        rcases (hclasses x).mp hx with rfl | hx
        · exact absurd rfl hsame
        · exact hx
      obtain ⟨p, hp, hname⟩ := h.packaged x hold
      refine ⟨p, Catalog.mem_insert_iff.mpr (.inr ⟨hp, ?_⟩), hname⟩
      rw [listing_name, hname]
      exact hsame

/-- Adding a package first makes no difference to adding a class of it. -/
theorem addClass_addPackage (cb : Codebase) (c : ClassDecl) :
    (cb.addPackage c.package).addClass c = cb.addClass c := by
  have hfound : (cb.addPackage c.package).packageOrNew c.package = cb.packageOrNew c.package := by
    conv_lhs => rw [packageOrNew, package?, Codebase.addPackage]
    simp only
    rw [Catalog.find?_insert, if_pos (packageOrNew_name cb c.package)]
    rfl
  have hlisting : (cb.addPackage c.package).listing c = cb.listing c := by
    rw [listing, listing, hfound]
  have hpackages : ((cb.addPackage c.package).packages.insert (cb.listing c)) =
      cb.packages.insert (cb.listing c) := by
    refine Catalog.insert_insert cb.packages ?_
    rw [packageOrNew_name, listing_name]
  rw [addClass_eq, addClass_eq, hlisting, hpackages]
  rfl

end Codebase

/-! ## All classes in order -/

/-- Whether a class comes before another one by package and then by name. -/
def ClassDecl.precedes (o c : ClassDecl) : Bool :=
  decide (o.package < c.package) ||
    (o.package == c.package && decide (o.qualifiedName < c.qualifiedName))

theorem ClassDecl.precedes_iff {o c : ClassDecl} :
    o.precedes c = true ↔
      o.package < c.package ∨ (o.package = c.package ∧ o.qualifiedName < c.qualifiedName) := by
  simp [precedes]

theorem ClassDecl.not_precedes_self (c : ClassDecl) : ¬ c.precedes c = true := by
  rw [precedes_iff]
  rintro (h | ⟨-, h⟩)
  · exact String.lt_irrefl _ h
  · exact String.lt_irrefl _ h

theorem ClassDecl.not_precedes_of_precedes
    {o c : ClassDecl} (h : o.precedes c = true) : ¬ c.precedes o = true := by
  rw [precedes_iff] at h ⊢
  rintro (h' | ⟨hsame, h'⟩)
  · rcases h with h | ⟨hsame, -⟩
    · exact String.lt_irrefl _ (String.lt_trans h h')
    · exact String.lt_irrefl _ (hsame ▸ h')
  · rcases h with h | ⟨-, h⟩
    · exact String.lt_irrefl _ (hsame ▸ h)
    · exact String.lt_irrefl _ (String.lt_trans h h')

namespace Codebase

/-- All classes are listed by package and then by name. -/
theorem IsIndexed.pairwise_allClasses
    {cb : Codebase} (h : cb.IsIndexed) :
    cb.allClasses.Pairwise fun o c => o.precedes c = true := by
  have hpackage : ∀ p ∈ cb.packages.items, ∀ c ∈ cb.classesIn p, c.package = p.name :=
    fun p hp c hc => ((h.mem_classesIn_iff hp).mp hc).2
  rw [allClasses, List.pairwise_flatMap]
  constructor
  · intro p hp
    refine (cb.pairwise_classesIn p).imp_of_mem ?_
    intro o c ho hc hlt
    exact ClassDecl.precedes_iff.mpr
      (.inr ⟨(hpackage p hp o ho).trans (hpackage p hp c hc).symm, hlt⟩)
  · refine cb.packages.ordered.imp_of_mem ?_
    intro p q hp hq hlt o ho c hc
    rw [ClassDecl.precedes_iff, hpackage p hp o ho, hpackage q hq c hc]
    exact .inl hlt

theorem IsIndexed.mem_allClasses_iff {cb : Codebase} (h : cb.IsIndexed) {c : ClassDecl} :
    c ∈ cb.allClasses ↔ c ∈ cb.classes.items := by
  rw [allClasses, List.mem_flatMap]
  constructor
  · rintro ⟨p, hp, hc⟩
    exact ((h.mem_classesIn_iff hp).mp hc).1
  · intro hc
    obtain ⟨p, hp, hname⟩ := h.packaged c hc
    exact ⟨p, hp, (h.mem_classesIn_iff hp).mpr ⟨hc, hname.symm⟩⟩

theorem IsIndexed.nodup_allClasses {cb : Codebase} (h : cb.IsIndexed) : cb.allClasses.Nodup := by
  refine h.pairwise_allClasses.imp ?_
  rintro o c hprecedes rfl
  exact o.not_precedes_self hprecedes

theorem IsIndexed.length_allClasses {cb : Codebase} (h : cb.IsIndexed) :
    cb.allClasses.length = cb.classCount := by
  have hnodup : cb.classes.items.Nodup := by
    refine cb.classes.ordered.imp ?_
    rintro c d hlt rfl
    exact String.lt_irrefl _ hlt
  have hperm : cb.allClasses.Perm cb.classes.items :=
    (List.perm_ext_iff_of_nodup h.nodup_allClasses hnodup).mpr fun c => h.mem_allClasses_iff
  exact hperm.length_eq

/-! ## Packages that follow from the classes -/

/-- Packages tell nothing but their names and their classes, of which they have some. -/
structure IsDerived (cb : Codebase) : Prop extends cb.IsIndexed where
  plain : ∀ p ∈ cb.packages.items, p = { name := p.name, classNames := p.classNames }
  inhabited : ∀ p ∈ cb.packages.items, ∃ name, name ∈ p.classNames.items

theorem isDerived_empty : IsDerived ∅ :=
  ⟨isIndexed_empty, fun _ hp => absurd hp List.not_mem_nil, fun _ hp => absurd hp List.not_mem_nil⟩

/-- A codebase that says nothing about its packages is determined by its classes. -/
theorem IsDerived.eq_of_classes_eq
    {a b : Codebase} (ha : a.IsDerived) (hb : b.IsDerived) (h : a.classes = b.classes) : a = b := by
  have hsub : ∀ {x y : Codebase}, x.IsDerived → y.IsDerived → x.classes = y.classes →
      ∀ p ∈ x.packages.items, p ∈ y.packages.items := by
    intro x y hx hy hclasses p hp
    obtain ⟨name, hname⟩ := hx.inhabited p hp
    obtain ⟨c, hc, hpackage, -⟩ := (hx.listed p hp name).mp hname
    rw [hclasses] at hc
    obtain ⟨q, hq, hqname⟩ := hy.packaged c hc
    have hsame : p.name = q.name := hpackage.symm.trans hqname.symm
    have hnames : p.classNames = q.classNames := by
      refine Catalog.eq_of_mem_iff fun n => ?_
      rw [hx.listed p hp, hy.listed q hq, hclasses, hsame]
    rw [hx.plain p hp, hsame, hnames, ← hy.plain q hq]
    exact hq
  have hpackages : a.packages = b.packages :=
    Catalog.eq_of_mem_iff fun p => ⟨hsub ha hb h p, hsub hb ha h.symm p⟩
  cases a
  cases b
  cases h
  cases hpackages
  rfl

theorem IsDerived.addClass
    {cb d : Codebase} (h : cb.IsDerived) {c : ClassDecl} (hadd : cb.addClass c = .ok d) :
    d.IsDerived := by
  refine ⟨h.toIsIndexed.addClass hadd, ?_, ?_⟩
  · obtain ⟨-, rfl⟩ := addClass_eq_ok.mp hadd
    have hplain : ∃ names,
        cb.packageOrNew c.package = { name := c.package, classNames := names } := by
      rw [packageOrNew]
      cases hfound : cb.package? c.package with
      | none => exact ⟨∅, rfl⟩
      | some p =>
        have hname : p.name = c.package := Catalog.key_of_find? hfound
        exact ⟨p.classNames, hname ▸ h.plain p (Catalog.mem_of_find? hfound)⟩
    intro p hp
    rcases Catalog.mem_insert_iff.mp hp with rfl | ⟨hp, -⟩
    · obtain ⟨names, hnames⟩ := hplain
      rw [listing, hnames]
    · exact h.plain p hp
  · obtain ⟨-, rfl⟩ := addClass_eq_ok.mp hadd
    intro p hp
    rcases Catalog.mem_insert_iff.mp hp with rfl | ⟨hp, -⟩
    · exact ⟨c.qualifiedName, NameSet.mem_insert_iff.mpr (.inl rfl)⟩
    · exact h.inhabited p hp

end Codebase
end ApiSurface
