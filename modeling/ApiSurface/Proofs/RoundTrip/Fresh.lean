import ApiSurface.Proofs.RoundTrip.Text

/-!
# What the live view shows of a codebase that was read

Every item of a codebase that was read is on the surface.  So the live view shows everything, and
what it shows differs from the codebase in the order of members and in packages without classes
alone.
-/

namespace ApiSurface

def ClassDecl.sorted (order : MemberOrder) (c : ClassDecl) : ClassDecl :=
  { c with
    constructors := order.sortMethods c.constructors
    methods := order.sortMethods c.methods
    fields := order.sortFields c.fields }

theorem ClassDecl.sorted_qualifiedName (order : MemberOrder) (c : ClassDecl) :
    (c.sorted order).qualifiedName = c.qualifiedName :=
  rfl

/-- The codebase with members in order and without packages that have no classes. -/
def Codebase.tidy (order : MemberOrder) (cb : Codebase) : Codebase :=
  { packages := cb.packages.filter fun p => !p.classNames.items.isEmpty
    classes := cb.classes.map (ClassDecl.sorted order) (ClassDecl.sorted_qualifiedName order) }

theorem Codebase.mem_classes_tidy {cb : Codebase} {order : MemberOrder} {c : ClassDecl} :
    c ∈ (cb.tidy order).classes.items ↔ ∃ d ∈ cb.classes.items, d.sorted order = c :=
  List.mem_map

theorem ClassDecl.IsFresh.published_eq_sorted
    {c : ClassDecl} (h : c.IsFresh) (order : MemberOrder) :
    c.published .live order = c.sorted order := by
  have hmethods : ∀ ms : List Method, (∀ m ∈ ms, m.IsFresh) →
      ((order.sortMethods ms).filter Signature.View.live.showsMethod).map Method.bare =
        order.sortMethods ms := by
    intro ms hms
    have hsorted : ∀ m ∈ order.sortMethods ms, m.IsFresh :=
      fun m hm => hms m (List.mem_mergeSort.mp hm)
    rw [List.filter_eq_self.mpr, Signature.map_eq_self_iff]
    · exact fun m hm => (hsorted m hm).1
    · intro m hm
      rw [← (hsorted m hm).1, Signature.View.showsMethod, Method.bare, (hsorted m hm).2]
      rfl
  have hfields :
      ((order.sortFields c.fields).filter Signature.View.live.showsField).map Field.bare =
      order.sortFields c.fields := by
    have hsorted : ∀ x ∈ order.sortFields c.fields, x.IsFresh :=
      fun x hx => h.fields x (List.mem_mergeSort.mp hx)
    rw [List.filter_eq_self.mpr, Signature.map_eq_self_iff]
    · exact fun x hx => (hsorted x hx).1
    · intro x hx
      rw [← (hsorted x hx).1, Signature.View.showsField, Field.bare, (hsorted x hx).2]
      rfl
  rw [ClassDecl.published, hmethods _ h.constructors, hmethods _ h.methods, hfields, sorted,
    h.exposure, h.tags]

theorem Codebase.isDerived_tidy
    {cb : Codebase} (h : cb.IsFresh) (hindexed : cb.IsIndexed) (order : MemberOrder) :
    (cb.tidy order).IsDerived := by
  have hclasses : ∀ package name, (∃ c ∈ (cb.tidy order).classes.items, c.package = package ∧
      c.qualifiedName = name) ↔
      ∃ c ∈ cb.classes.items, c.package = package ∧ c.qualifiedName = name := by
    intro package name
    simp only [mem_classes_tidy, exists_exists_and_eq_and]
    rfl
  refine ⟨⟨fun p hp name => ?_, fun c hc => ?_⟩, fun p hp => ?_, fun p hp => ?_⟩
  · rw [hclasses, hindexed.listed p (Catalog.mem_filter_iff.mp hp).1]
  · obtain ⟨d, hd, rfl⟩ := mem_classes_tidy.mp hc
    obtain ⟨p, hp, hname⟩ := hindexed.packaged d hd
    refine ⟨p, Catalog.mem_filter_iff.mpr ⟨hp, ?_⟩, hname⟩
    have hlisted : d.qualifiedName ∈ p.classNames.items :=
      (hindexed.listed p hp _).mpr ⟨d, hd, hname.symm, rfl⟩
    simpa using List.ne_nil_of_mem hlisted
  · exact h.packages p (Catalog.mem_filter_iff.mp hp).1
  · have hne := (Catalog.mem_filter_iff.mp hp).2
    exact List.exists_mem_of_ne_nil _ (by simpa using hne)

/-- The live view shows all of a codebase that was read. -/
theorem Codebase.published_eq_tidy
    {cb : Codebase} (h : cb.IsFresh) (hindexed : cb.IsIndexed) (order : MemberOrder) :
    cb.published .live order = cb.tidy order := by
  refine (isDerived_published hindexed .live order).eq_of_classes_eq
    (isDerived_tidy h hindexed order)
    (Catalog.eq_of_mem_iff fun c => ?_)
  rw [mem_classes_published, mem_classes_tidy]
  constructor
  · rintro ⟨d, hd, -, rfl⟩
    exact ⟨d, hd, ((h.classes d hd).published_eq_sorted order).symm⟩
  · rintro ⟨d, hd, rfl⟩
    refine ⟨d, hd, ?_, (h.classes d hd).published_eq_sorted order⟩
    rw [Signature.View.showsClass, ClassDecl.isVisible, (h.classes d hd).exposure]
    rfl

end ApiSurface
