import ApiSurface.Proofs.RoundTrip.Codebase

/-!
# Codebases that are restored

What a view shows of a codebase is a codebase again, which says nothing of states and tags.
Classes are written by package and then by name, so inside a nested class the type variables of
those classes around it are in scope that come before it in this order.  The codebase is read back
as it is shown exactly if in each class the written form of each type name stands for the name.
-/

namespace ApiSurface

/-! ## Codebases without states and tags -/

/-- The class without exposure and tags, and its members likewise. -/
def ClassDecl.bare (c : ClassDecl) : ClassDecl :=
  { c with
    constructors := c.constructors.map Method.bare
    methods := c.methods.map Method.bare
    fields := c.fields.map Field.bare
    exposure := {}
    tags := {} }

theorem ClassDecl.bare_qualifiedName (c : ClassDecl) : c.bare.qualifiedName = c.qualifiedName :=
  rfl

theorem ClassDecl.published_qualifiedName
    (c : ClassDecl) (view : Signature.View) (order : MemberOrder) :
    (c.published view order).qualifiedName = c.qualifiedName :=
  rfl

/-- The package without exposure and tags. -/
def Package.bare (p : Package) : Package :=
  { p with exposure := {}, tags := {} }

theorem Package.bare_name (p : Package) : p.bare.name = p.name :=
  rfl

/-- The codebase without exposure and tags of any item. -/
def Codebase.bare (cb : Codebase) : Codebase :=
  { packages := cb.packages.map Package.bare Package.bare_name
    classes := cb.classes.map ClassDecl.bare ClassDecl.bare_qualifiedName }

theorem Codebase.isIndexed_bare {cb : Codebase} : cb.bare.IsIndexed ↔ cb.IsIndexed :=
  isIndexed_map _ _ (fun _ => rfl) fun _ => rfl

/-- The package with nothing but the names of its classes in a view. -/
def Package.published (view : Signature.View) (cb : Codebase) (p : Package) : Package :=
  { name := p.name
    classNames := p.classNames.filter fun name => (cb.class? name).any view.showsClass }

theorem Package.published_name (view : Signature.View) (cb : Codebase) (p : Package) :
    (p.published view cb).name = p.name :=
  rfl

/-- The part of a codebase that a view shows, without exposure and tags: the classes in the view
with their members in order, and the packages that have one. -/
def Codebase.published (view : Signature.View) (order : MemberOrder) (cb : Codebase) : Codebase :=
  { packages := (cb.packages.filter fun p => (cb.classesIn p).any view.showsClass).map
      (Package.published view cb) (Package.published_name view cb)
    classes := (cb.classes.filter view.showsClass).map (ClassDecl.published view order)
      fun c => c.published_qualifiedName view order }

theorem Codebase.mem_classes_published
    {cb : Codebase} {view : Signature.View} {order : MemberOrder} {c : ClassDecl} :
    c ∈ (cb.published view order).classes.items ↔
      ∃ d ∈ cb.classes.items, view.showsClass d = true ∧ d.published view order = c := by
  have hitems : (cb.published view order).classes.items =
      (cb.classes.items.filter view.showsClass).map (ClassDecl.published view order) := rfl
  rw [hitems, List.mem_map]
  simp only [List.mem_filter, and_assoc]

theorem Codebase.mem_packages_published
    {cb : Codebase} {view : Signature.View} {order : MemberOrder} {p : Package} :
    p ∈ (cb.published view order).packages.items ↔
      ∃ q ∈ cb.packages.items, (∃ c ∈ cb.classesIn q, view.showsClass c = true) ∧
        q.published view cb = p := by
  have hitems : (cb.published view order).packages.items =
      (cb.packages.items.filter fun p => (cb.classesIn p).any view.showsClass).map
        (Package.published view cb) := rfl
  rw [hitems, List.mem_map]
  simp only [List.mem_filter, and_assoc, List.any_eq_true]

theorem Codebase.isDerived_published
    {cb : Codebase} (h : cb.IsIndexed) (view : Signature.View) (order : MemberOrder) :
    (cb.published view order).IsDerived := by
  have hlisted : ∀ q ∈ cb.packages.items, ∀ name,
      name ∈ (q.published view cb).classNames.items ↔
        ∃ c ∈ cb.classes.items, c.package = q.name ∧ c.qualifiedName = name ∧
          view.showsClass c = true := by
    intro q hq name
    rw [Package.published, Catalog.mem_filter_iff, h.listed q hq, Option.any_eq_true]
    constructor
    · rintro ⟨⟨c, hc, hpackage, hname⟩, d, hd, hshown⟩
      have hfound : cb.class? name = some c := class?_eq_some_iff.mpr ⟨hc, hname⟩
      rw [hfound] at hd
      cases hd
      exact ⟨c, hc, hpackage, hname, hshown⟩
    · rintro ⟨c, hc, hpackage, hname, hshown⟩
      exact ⟨⟨c, hc, hpackage, hname⟩, c, class?_eq_some_iff.mpr ⟨hc, hname⟩, hshown⟩
  refine ⟨⟨?_, ?_⟩, ?_, ?_⟩
  · intro p hp name
    obtain ⟨q, hq, -, rfl⟩ := mem_packages_published.mp hp
    rw [hlisted q hq]
    constructor
    · rintro ⟨c, hc, hpackage, hname, hshown⟩
      exact ⟨_, mem_classes_published.mpr ⟨c, hc, hshown, rfl⟩, hpackage, hname⟩
    · rintro ⟨c, hc, hpackage, hname⟩
      obtain ⟨d, hd, hshown, rfl⟩ := mem_classes_published.mp hc
      exact ⟨d, hd, hpackage, hname, hshown⟩
  · intro c hc
    obtain ⟨d, hd, hshown, rfl⟩ := mem_classes_published.mp hc
    obtain ⟨q, hq, hname⟩ := h.packaged d hd
    have hmem : d ∈ cb.classesIn q := (h.mem_classesIn_iff hq).mpr ⟨hd, hname.symm⟩
    exact ⟨_, mem_packages_published.mpr ⟨q, hq, ⟨d, hmem, hshown⟩, rfl⟩, hname⟩
  · intro p hp
    obtain ⟨q, -, -, rfl⟩ := mem_packages_published.mp hp
    rfl
  · intro p hp
    obtain ⟨q, hq, ⟨c, hc, hshown⟩, rfl⟩ := mem_packages_published.mp hp
    obtain ⟨hmem, hpackage⟩ := (h.mem_classesIn_iff hq).mp hc
    exact ⟨c.qualifiedName, (hlisted q hq _).mpr ⟨c, hmem, hpackage, rfl, hshown⟩⟩

/-! ## The order of the text -/

/-- The codebase with no classes but those in a view that come before a class. -/
def Codebase.before (view : Signature.View) (cb : Codebase) (c : ClassDecl) : Codebase :=
  { cb with classes := cb.classes.filter fun o => view.showsClass o && o.precedes c }

namespace Signature

theorem WriteSettings.pairwise_writtenClasses
    (s : WriteSettings) {cb : Codebase} (h : cb.IsIndexed) :
    (s.writtenClasses cb).Pairwise fun o c => o.precedes c = true := by
  have hfilter : s.writtenClasses cb = cb.allClasses.filter s.view.showsClass :=
    List.filter_flatMap.symm
  rw [hfilter]
  exact h.pairwise_allClasses.filter s.view.showsClass

/-- What is read adds to the classes and takes none away. -/
theorem Source.mem_classes_of_rereadClasses
    {src : Source} {s : WriteSettings} {cb d : Codebase} {classes : List ClassDecl}
    (h : src.rereadClasses s cb classes = .ok d) {c : ClassDecl} (hc : c ∈ cb.classes.items) :
    c ∈ d.classes.items := by
  refine Source.keeps_of_foldlM (P := fun cb => c ∈ cb.classes.items) ?_ hc h
  intro b x b' hb hadd
  obtain ⟨y, -, hadd⟩ := bind_eq_ok.mp hadd
  exact (Codebase.mem_classes_of_addClass hadd).mpr (.inr hb)

section

variable {common : Option CommonPackages} {src : Source} {s : WriteSettings} {cb : Codebase}
  (hindexed : cb.IsIndexed)

include hindexed

/-- Inside a class, what has been read of the classes before it is in scope. -/
theorem inside_eq_before
    {d : Codebase} {classes others : List ClassDecl} {c : ClassDecl}
    (hclasses : s.writtenClasses cb = classes ++ c :: others)
    (hd : ∀ x, x ∈ d.classes.items ↔ ∃ o ∈ classes, o.published s.view s.order = x) :
    src.inside s d c = src.inside s (cb.before s.view c) c := by
  have hordered := s.pairwise_writtenClasses hindexed
  rw [hclasses, List.pairwise_append, List.pairwise_cons] at hordered
  obtain ⟨-, ⟨hothers, -⟩, hfront⟩ := hordered
  have hbefore : ∀ o, o ∈ (cb.before s.view c).classes.items ↔ o ∈ classes := by
    intro o
    rw [Codebase.before, Catalog.mem_filter_iff, Bool.and_eq_true, ← and_assoc,
      ← WriteSettings.mem_writtenClasses_iff hindexed, hclasses, List.mem_append, List.mem_cons]
    constructor
    · rintro ⟨ho | rfl | ho, hprecedes⟩
      · exact ho
      · exact absurd hprecedes o.not_precedes_self
      · exact absurd hprecedes (ClassDecl.not_precedes_of_precedes (hothers o ho))
    · intro ho
      exact ⟨.inl ho, hfront o ho c List.mem_cons_self⟩
  have hfound : ∀ name, d.class? name =
      ((cb.before s.view c).class? name).map (ClassDecl.published s.view s.order) := by
    intro name
    refine Option.ext fun x => ?_
    rw [Codebase.class?_eq_some_iff, hd, Option.map_eq_some_iff]
    constructor
    · rintro ⟨⟨o, ho, rfl⟩, hname⟩
      exact ⟨o, Codebase.class?_eq_some_iff.mpr ⟨(hbefore o).mpr ho, hname⟩, rfl⟩
    · rintro ⟨o, ho, rfl⟩
      obtain ⟨ho, hname⟩ := Codebase.class?_eq_some_iff.mp ho
      exact ⟨⟨o, (hbefore o).mp ho, rfl⟩, hname⟩
  have henclosing : d.enclosing c =
      ((cb.before s.view c).enclosing c).map (ClassDecl.published s.view s.order) :=
    Codebase.enclosing_map (f := ClassDecl.published s.view s.order) (fun _ => ⟨rfl, rfl⟩) hfound c
  rw [Source.inside, Source.inside, henclosing, List.flatMap_map]
  rfl

/-- Once the classes before a class have been read, its name is still free. -/
theorem class?_eq_none_of_before
    {d : Codebase} {classes others : List ClassDecl} {c : ClassDecl}
    (hclasses : s.writtenClasses cb = classes ++ c :: others)
    (hd : ∀ x, x ∈ d.classes.items ↔ ∃ o ∈ classes, o.published s.view s.order = x) :
    d.class? c.qualifiedName = none := by
  have hwritten : ∀ o ∈ classes ++ c :: others, o ∈ cb.classes.items := by
    intro o ho
    rw [← hclasses] at ho
    exact ((WriteSettings.mem_writtenClasses_iff hindexed).mp ho).1
  have hordered := s.pairwise_writtenClasses hindexed
  rw [hclasses, List.pairwise_append] at hordered
  refine Catalog.find?_eq_none_iff.mpr fun x hx hname => ?_
  obtain ⟨o, ho, rfl⟩ := (hd x).mp hx
  obtain rfl : o = c :=
    Catalog.eq_of_key_eq (hwritten o (by simp [ho])) (hwritten c (by simp)) hname
  exact o.not_precedes_self (hordered.2.2 o ho o List.mem_cons_self)

/-- From the classes that have been read on, the others are read back exactly if all names in them
are restored. -/
theorem rereadClasses_eq_published_iff
    (h : ∀ c ∈ s.writtenClasses cb,
      IsDeclaredClass common c ∧ (s.compatible = false → HasImplicitRoot c))
    {d : Codebase} (hderived : d.IsDerived)
    {classes others : List ClassDecl} (hclasses : s.writtenClasses cb = classes ++ others)
    (hd : ∀ x, x ∈ d.classes.items ↔ ∃ o ∈ classes, o.published s.view s.order = x) :
    src.rereadClasses s d others = .ok (cb.published s.view s.order) ↔
      ∀ c ∈ others, (src.inside s (cb.before s.view c) c).RestoresClass s c := by
  have hmem : ∀ x, x ∈ (cb.published s.view s.order).classes.items ↔
      ∃ o ∈ s.writtenClasses cb, o.published s.view s.order = x := by
    intro x
    simp only [Codebase.mem_classes_published, WriteSettings.mem_writtenClasses_iff hindexed,
      and_assoc]
  induction others generalizing d classes with
  | nil =>
    rw [List.append_nil] at hclasses
    have hsame : d = cb.published s.view s.order := by
      refine hderived.eq_of_classes_eq (Codebase.isDerived_published hindexed _ _)
        (Catalog.eq_of_mem_iff fun x => ?_)
      rw [hd, hmem, hclasses]
    simp [Source.rereadClasses, hsame, pure_eq_ok]
  | cons c others ih =>
    have hc : c ∈ s.writtenClasses cb := by simp [hclasses]
    have hinside : src.inside s d c = src.inside s (cb.before s.view c) c :=
      inside_eq_before hindexed hclasses hd
    have hclass : (src.inside s (cb.before s.view c) c).rereadClass s c =
        .ok (c.published s.view s.order) ↔ _ :=
      rereadClass_eq_ok_iff (h c hc).1 (h c hc).2
    -- The published class may be added, and then the classes up to this one have been read.
    have hfree : d.class? c.qualifiedName = none := class?_eq_none_of_before hindexed hclasses hd
    obtain ⟨e, hadd⟩ : ∃ e, d.addClass (c.published s.view s.order) = .ok e :=
      ⟨_, Codebase.addClass_eq_ok.mpr ⟨hfree, rfl⟩⟩
    have he : ∀ x, x ∈ e.classes.items ↔ ∃ o ∈ classes ++ [c], o.published s.view s.order = x := by
      intro x
      rw [Codebase.mem_classes_of_addClass hadd, hd]
      simp only [List.mem_append, List.mem_singleton, or_and_right, exists_or, exists_eq_left]
      rw [or_comm, eq_comm (a := x)]
    have hrest : s.writtenClasses cb = (classes ++ [c]) ++ others := by simpa using hclasses
    rw [List.forall_mem_cons]
    refine Iff.trans ?_ (and_congr hclass (ih (hderived.addClass hadd) hrest he))
    rw [Source.rereadClasses, List.foldlM_cons, hinside]
    constructor
    · intro hread
      obtain ⟨e', hstep, hread⟩ := bind_eq_ok.mp hread
      obtain ⟨x, hx, hadd'⟩ := bind_eq_ok.mp hstep
      have hkept : x ∈ (cb.published s.view s.order).classes.items :=
        Source.mem_classes_of_rereadClasses hread
          ((Codebase.mem_classes_of_addClass hadd').mpr (.inl rfl))
      have hsame : x = c.published s.view s.order := by
        refine Catalog.eq_of_key_eq hkept ((hmem _).mpr ⟨c, hc, rfl⟩) ?_
        obtain ⟨hpackage, hname⟩ := Source.name_of_rereadClass hx
        rw [ClassDecl.published_qualifiedName, ClassDecl.qualifiedName, ClassDecl.qualifiedName,
          hpackage, hname]
      subst hsame
      rw [hadd] at hadd'
      cases hadd'
      exact ⟨hx, hread⟩
    · rintro ⟨hx, hread⟩
      rw [hx, ok_bind, hadd]
      exact hread

end

end Signature
end ApiSurface
