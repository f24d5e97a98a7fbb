import ApiSurface.Proofs.Reading.Class

/-!
# Classes that are restored

A class is written without what only its exposure and tags say, and its members are written in
order.  It is read back as written exactly if the written form of each type name stands, where it is
read, for the name.
-/

namespace ApiSurface

/-- The class without exposure and tags, with the members of a view in order. -/
def ClassDecl.published (view : Signature.View) (order : MemberOrder) (c : ClassDecl) : ClassDecl :=
  { c with
    constructors := ((order.sortMethods c.constructors).filter view.showsMethod).map Method.bare
    methods := ((order.sortMethods c.methods).filter view.showsMethod).map Method.bare
    fields := ((order.sortFields c.fields).filter view.showsField).map Field.bare
    exposure := {}
    tags := {} }

def Method.types (m : Method) : List TypeRef :=
  m.typeParameters.flatMap TypeParameter.bounds ++ m.returnType.toList ++
    m.parameters.map Parameter.type ++ m.throws

/-- Items are added one by one exactly if each can be told apart from those before it. -/
theorem foldlM_add_eq_ok
    {α β : Type} (add : β → α → Except Fault β) (put : List α → β) (R : α → α → Prop)
    (hadd : ∀ ys x b, add (put ys) x = .ok b ↔ (∀ y ∈ ys, R y x) ∧ b = put (ys ++ [x]))
    (xs ys : List α) (b : β) :
    xs.foldlM add (put ys) = .ok b ↔
      xs.Pairwise R ∧ (∀ y ∈ ys, ∀ x ∈ xs, R y x) ∧ b = put (ys ++ xs) := by
  induction xs generalizing ys with
  | nil =>
    rw [List.foldlM_nil, List.append_nil]
    simp [pure, Except.pure, eq_comm]
  | cons x xs ih =>
    rw [List.foldlM_cons, bind_eq_ok]
    constructor
    · rintro ⟨b', hb', h⟩
      obtain ⟨hfree, rfl⟩ := (hadd ys x b').mp hb'
      obtain ⟨hpairwise, hbefore, rfl⟩ := (ih (ys ++ [x])).mp h
      refine ⟨List.pairwise_cons.mpr ⟨hbefore x (by simp), hpairwise⟩, ?_, by simp⟩
      intro y hy z hz
      rcases List.mem_cons.mp hz with rfl | hz
      · exact hfree y hy
      · exact hbefore y (List.mem_append_left _ hy) z hz
    · rintro ⟨hpairwise, hbefore, rfl⟩
      obtain ⟨hfirst, hpairwise⟩ := List.pairwise_cons.mp hpairwise
      refine ⟨put (ys ++ [x]),
        (hadd ys x _).mpr ⟨fun y hy => hbefore y hy x List.mem_cons_self, rfl⟩,
        (ih (ys ++ [x])).mpr ⟨hpairwise, ?_, by simp⟩⟩
      intro y hy z hz
      rcases List.mem_append.mp hy with hy | hy
      · exact hbefore y hy z (List.mem_cons_of_mem x hz)
      · rw [List.mem_singleton.mp hy]
        exact hfirst z hz

namespace Signature

namespace Source

/-- The methods that are read where those of a list are written. -/
def rereadMethods (src : Source) (s : WriteSettings) (methods : List Method) : List Method :=
  (s.writtenMethods methods).map fun m => rereadMethod (src.restoredBehind s m.typeParameters) m

/-- The fields that are read where those of a list are written. -/
def rereadFields (src : Source) (s : WriteSettings) (fields : List Field) : List Field :=
  (s.writtenFields fields).map (rereadField (src.restored s))

/-- All members that a class is written with are added exactly if they can be told apart. -/
theorem rereadMembers_eq_ok
    {src : Source} {s : WriteSettings} {c d e : ClassDecl} (hconstructors : d.constructors = [])
    (hmethods : d.methods = []) (hfields : d.fields = []) :
    src.rereadMembers s c d = .ok e ↔
      (src.rereadMethods s c.constructors).Pairwise
        (fun m m' => d.signatureOf m ≠ d.signatureOf m') ∧
        (src.rereadMethods s c.methods).Pairwise (fun m m' => d.signatureOf m ≠ d.signatureOf m') ∧
        (src.rereadFields s c.fields).Pairwise (fun x x' => x.name ≠ x'.name) ∧
        e = { d with
          constructors := src.rereadMethods s c.constructors
          methods := src.rereadMethods s c.methods
          fields := src.rereadFields s c.fields } := by
  let told (m m' : Method) : Prop := d.signatureOf m ≠ d.signatureOf m'
  have hconstructor := foldlM_add_eq_ok ClassDecl.addConstructor
    (fun ms => { d with constructors := ms }) told
    (fun _ _ _ => ClassDecl.addConstructor_eq_ok) (src.rereadMethods s c.constructors) []
  have hmethod := foldlM_add_eq_ok ClassDecl.addMethod
    (fun ms => { d with constructors := src.rereadMethods s c.constructors, methods := ms }) told
    (fun _ _ _ => ClassDecl.addMethod_eq_ok) (src.rereadMethods s c.methods) []
  have hfield := foldlM_add_eq_ok ClassDecl.addField
    (fun xs => { d with
      constructors := src.rereadMethods s c.constructors
      methods := src.rereadMethods s c.methods
      fields := xs }) (fun x x' => x.name ≠ x'.name)
    (fun _ _ _ => ClassDecl.addField_eq_ok) (src.rereadFields s c.fields) []
  simp only [rereadMethods, rereadFields, List.foldlM_map, List.not_mem_nil, false_imp_iff,
    implies_true, true_and, List.nil_append] at hconstructor hmethod hfield
  obtain ⟨package, name, kind, modifiers, ps, superclass, interfaces, annotations, constructors,
    methods, fields, exposure, tags⟩ := d
  cases hconstructors
  cases hmethods
  cases hfields
  constructor
  · intro h
    obtain ⟨d₁, h₁, h⟩ := bind_eq_ok.mp h
    obtain ⟨hpairwise₁, rfl⟩ := (hconstructor d₁).mp h₁
    obtain ⟨d₂, h₂, h₃⟩ := bind_eq_ok.mp h
    obtain ⟨hpairwise₂, rfl⟩ := (hmethod d₂).mp h₂
    obtain ⟨hpairwise₃, rfl⟩ := (hfield e).mp h₃
    exact ⟨hpairwise₁, hpairwise₂, hpairwise₃, rfl⟩
  · rintro ⟨hpairwise₁, hpairwise₂, hpairwise₃, rfl⟩
    exact bind_eq_ok.mpr ⟨_, (hconstructor _).mpr ⟨hpairwise₁, rfl⟩,
      bind_eq_ok.mpr ⟨_, (hmethod _).mpr ⟨hpairwise₂, rfl⟩, (hfield _).mpr ⟨hpairwise₃, rfl⟩⟩⟩

end Source

/-! ## The head of a class -/

/-- A superclass that is not written is the one that the name implies. -/
def HasImplicitRoot (c : ClassDecl) : Prop :=
  ∀ t ∈ c.superclass, t.name = TypeRef.object → t.arguments = [] →
    (ClassDecl.declare c.package c.name c.kind).superclass = some t

/-- What is read in the place of a superclass. -/
def WriteSettings.rereadSuperclass (s : WriteSettings) (f : String → String) (t : TypeRef) :
    TypeRef :=
  if s.writesSuperclass t then reread f t else t

/-- What is read behind `extends` is the superclass, which is known where nothing is written. -/
theorem extend_superclass
    {s : WriteSettings} {d : ClassDecl} {superclass : Option TypeRef}
    (hkind : d.kind.isInterfaceLike = false) (himplied : superclass = none → d.superclass = none)
    (hroot : ∀ t ∈ superclass, s.writesSuperclass t = false → d.superclass = some t)
    (f : String → String) :
    Source.extend d ((superclass.toList.filter s.writesSuperclass).map (reread f)) =
      { d with superclass := superclass.map (s.rereadSuperclass f) } := by
  cases superclass with
  | none =>
    have hsame : d = { d with superclass := none } := by rw [← himplied rfl]
    simpa [Source.extend, hkind] using hsame
  | some t =>
    cases hwrites : s.writesSuperclass t with
    | true => simp [Source.extend, hkind, hwrites, WriteSettings.rereadSuperclass]
    | false =>
      have hsame : d = { d with superclass := some t } := by rw [← hroot t rfl hwrites]
      simpa [Source.extend, hkind, hwrites, WriteSettings.rereadSuperclass] using hsame

theorem rereadShell_eq
    {common : Option CommonPackages} {s : WriteSettings} {c : ClassDecl}
    (h : IsDeclaredClass common c)
    (hroot : s.compatible = false → HasImplicitRoot c) (f : String → String) :
    s.rereadShell f c =
      { c with
        typeParameters := c.typeParameters.map (rereadVariable f)
        superclass := c.superclass.map (s.rereadSuperclass f)
        interfaces := c.interfaces.map (reread f)
        constructors := []
        methods := []
        fields := []
        exposure := {}
        tags := {} } := by
  have hmodifiers : ∀ kept : Modifiers, kept.isAbstract = true →
      { kept with isAbstract := true } = kept := by
    rintro kept hkept
    rw [← hkept]
  have hroot : ∀ t ∈ c.superclass, s.writesSuperclass t = false →
      (ClassDecl.declare c.package c.name c.kind).superclass = some t := by
    intro t ht hwrites
    obtain ⟨⟨hmodern, hname⟩, harguments⟩ :
        (s.compatible = false ∧ t.name = TypeRef.object) ∧ t.arguments = [] := by
      simpa [WriteSettings.writesSuperclass] using hwrites
    exact hroot hmodern t ht hname harguments
  obtain
    ⟨package, name, kind, modifiers, ps, superclass, interfaces, annotations, _, _, _, _, _⟩ := c
  have habstract := h.abstracted
  have hnone := h.rootless
  have himplied := h.implied
  simp only at habstract hnone himplied hroot
  cases kind with
  | interface =>
    obtain rfl := hnone rfl
    cases hcompatible : s.compatible with
    | false =>
      simp [WriteSettings.rereadShell, WriteSettings.extendedTypes, WriteSettings.implementedTypes,
        Source.extend, ClassDecl.declare, ClassDecl.withModifiers, ClassKind.isInterfaceLike,
        hcompatible, hmodifiers _ (habstract rfl)]
    | true =>
      simp [WriteSettings.rereadShell, WriteSettings.extendedTypes, WriteSettings.implementedTypes,
        Source.extend, ClassDecl.declare, ClassDecl.withModifiers, ClassKind.isInterfaceLike,
        hcompatible, hmodifiers _ (habstract rfl)]
  | annotationType =>
    obtain rfl := hnone rfl
    simp [WriteSettings.rereadShell, WriteSettings.extendedTypes, WriteSettings.implementedTypes,
      WriteSettings.writesAbstract, Source.extend, ClassDecl.declare, ClassDecl.withModifiers,
      ClassKind.isInterfaceLike, hmodifiers _ (habstract rfl)]
  | ordinary =>
    rw [WriteSettings.rereadShell, WriteSettings.extendedTypes, extend_superclass]
    · simp [WriteSettings.implementedTypes, WriteSettings.writesAbstract, ClassDecl.declare,
        ClassDecl.withModifiers, ClassKind.isInterfaceLike]
    · rfl
    · exact himplied
    · exact hroot
  | enumeration =>
    rw [WriteSettings.rereadShell, WriteSettings.extendedTypes, extend_superclass]
    · simp [WriteSettings.implementedTypes, WriteSettings.writesAbstract, ClassDecl.declare,
        ClassDecl.withModifiers, ClassKind.isInterfaceLike]
    · rfl
    · exact himplied
    · exact hroot

/-! ## Names are restored -/

/-- A function that is the identity on the names of a type. -/
def Restores (f : String → String) (t : TypeRef) : Prop :=
  ∀ n ∈ t.names, n ≠ "?" → f n = n

theorem map_reread_eq_self_iff
    {common : Option CommonPackages} {f : String → String} {ts : List TypeRef}
    (h : ∀ t ∈ ts, IsLegibleType common t) :
    ts.map (reread f) = ts ↔ ∀ t ∈ ts, Restores f t := by
  rw [map_eq_self_iff]
  exact forall₂_congr fun t ht => reread_eq_self_iff (h t ht)

theorem map_rereadVariable_eq_self_iff
    {common : Option CommonPackages} {f : String → String} {ps : List TypeParameter}
    (h : ∀ p ∈ ps, IsLegibleVariable common p) :
    ps.map (rereadVariable f) = ps ↔ ∀ t ∈ ps.flatMap TypeParameter.bounds, Restores f t := by
  have hvariable : ∀ p ∈ ps, rereadVariable f p = p ↔ ∀ t ∈ p.bounds, Restores f t := by
    intro p hp
    rw [← map_reread_eq_self_iff (h p hp).bounds]
    obtain ⟨name, bounds⟩ := p
    simp [rereadVariable]
  rw [map_eq_self_iff, forall₂_congr hvariable]
  simp only [List.mem_flatMap, forall_exists_index, and_imp]
  exact ⟨fun h t p hp ht => h p hp t ht, fun h p hp t ht => h t p hp ht⟩

/-- A method is read back exactly if the names of its types are restored. -/
theorem rereadMethod_eq_bare_iff
    {common : Option CommonPackages} {f : String → String} {m : Method}
    (h : IsLegibleMethod common m) :
    rereadMethod f m = m.bare ↔ ∀ t ∈ m.types, Restores f t := by
  have hreturn : m.returnType.map (reread f) = m.returnType ↔
      ∀ t ∈ m.returnType.toList, Restores f t := by
    cases hresult : m.returnType with
    | none => simp
    | some t =>
      have ht := reread_eq_self_iff (f := f) (h.returnType t hresult).legible
      simpa [Restores] using ht
  have hparameters : m.parameters.map (rereadParameter f) = m.parameters ↔
      ∀ t ∈ m.parameters.map Parameter.type, Restores f t := by
    have hparameter : ∀ p ∈ m.parameters, rereadParameter f p = p ↔ Restores f p.type := by
      intro p hp
      rw [Restores, ← reread_eq_self_iff (h.parameters p hp).type.legible]
      obtain ⟨type, name, value, varargs, annotations⟩ := p
      simp [rereadParameter]
    rw [map_eq_self_iff, forall₂_congr hparameter]
    simp
  have hthrows := map_reread_eq_self_iff (f := f) fun t ht => (h.throws t ht).1
  have hvariables := map_rereadVariable_eq_self_iff (f := f) h.typeParameters
  have hparts : rereadMethod f m = m.bare ↔ m.returnType.map (reread f) = m.returnType ∧
      m.typeParameters.map (rereadVariable f) = m.typeParameters ∧
      m.parameters.map (rereadParameter f) = m.parameters ∧
      m.throws.map (reread f) = m.throws := by
    simp [rereadMethod, Method.bare]
  rw [hparts, hreturn, hvariables, hparameters, hthrows, Method.types]
  simp only [List.forall_mem_append]
  tauto

theorem rereadField_eq_bare_iff
    {common : Option CommonPackages} {f : String → String} {x : Field}
    (h : IsLegibleField common x) : rereadField f x = x.bare ↔ Restores f x.type := by
  rw [Restores, ← reread_eq_self_iff h.type.legible]
  simp [rereadField, Field.bare]

/-- The names of all types that a class is written with are restored where they are read. -/
structure Source.RestoresClass (src : Source) (s : WriteSettings) (c : ClassDecl) : Prop where
  bounds : ∀ t ∈ c.typeParameters.flatMap TypeParameter.bounds, Restores (src.restored s) t
  superclass : ∀ t ∈ c.superclass, s.writesSuperclass t = true → Restores (src.restored s) t
  interfaces : ∀ t ∈ c.interfaces, Restores (src.restored s) t
  constructors : ∀ m ∈ s.writtenMethods c.constructors, ∀ t ∈ m.types,
    Restores (src.restoredBehind s m.typeParameters) t
  methods : ∀ m ∈ s.writtenMethods c.methods, ∀ t ∈ m.types,
    Restores (src.restoredBehind s m.typeParameters) t
  fields : ∀ x ∈ s.writtenFields c.fields, Restores (src.restored s) x.type

theorem rereadMethods_eq_iff
    {common : Option CommonPackages} {src : Source} {s : WriteSettings} {methods : List Method}
    (h : ∀ m ∈ methods, IsLegibleMethod common m) :
    src.rereadMethods s methods = (s.writtenMethods methods).map Method.bare ↔
      ∀ m ∈ s.writtenMethods methods, ∀ t ∈ m.types,
        Restores (src.restoredBehind s m.typeParameters) t := by
  rw [Source.rereadMethods, List.map_inj_left]
  exact forall₂_congr fun m hm =>
    rereadMethod_eq_bare_iff (h m (WriteSettings.mem_of_mem_writtenMethods hm))

theorem rereadFields_eq_iff
    {common : Option CommonPackages} {src : Source} {s : WriteSettings} {fields : List Field}
    (h : ∀ x ∈ fields, IsLegibleField common x) :
    src.rereadFields s fields = (s.writtenFields fields).map Field.bare ↔
      ∀ x ∈ s.writtenFields fields, Restores (src.restored s) x.type := by
  rw [Source.rereadFields, List.map_inj_left]
  exact forall₂_congr fun x hx =>
    rereadField_eq_bare_iff (h x (WriteSettings.mem_of_mem_writtenFields hx))

theorem map_rereadSuperclass_eq_self_iff
    {common : Option CommonPackages} {s : WriteSettings} {f : String → String}
    {superclass : Option TypeRef} (h : ∀ t ∈ superclass, IsLegibleType common t) :
    superclass.map (s.rereadSuperclass f) = superclass ↔
      ∀ t ∈ superclass, s.writesSuperclass t = true → Restores f t := by
  cases superclass with
  | none => simp
  | some t =>
    have ht := reread_eq_self_iff (f := f) (h t rfl)
    by_cases hwrites : s.writesSuperclass t = true
    · simpa [WriteSettings.rereadSuperclass, hwrites, Restores] using ht
    · simp [WriteSettings.rereadSuperclass, hwrites]

/-- Items that are told apart stay apart when some of them are sorted and changed. -/
theorem pairwise_map_filter_mergeSort
    {α β : Type} {key : α → β} {xs : List α} (h : xs.Pairwise fun x y => key x ≠ key y)
    (le : α → α → Bool) (shown : α → Bool) {g : α → α} (hg : ∀ x, key (g x) = key x) :
    (((xs.mergeSort le).filter shown).map g).Pairwise fun x y => key x ≠ key y := by
  have hsorted : (xs.mergeSort le).Pairwise fun x y => key x ≠ key y :=
    ((List.mergeSort_perm xs le).pairwise_iff fun hne => hne.symm).mpr h
  rw [List.pairwise_map]
  simpa only [hg] using hsorted.filter shown

/-- A class is read back as it is published exactly if all names are restored. -/
theorem rereadClass_eq_ok_iff
    {common : Option CommonPackages} {src : Source} {s : WriteSettings} {c : ClassDecl}
    (h : IsDeclaredClass common c) (hroot : s.compatible = false → HasImplicitRoot c) :
    src.rereadClass s c = .ok (c.published s.view s.order) ↔ src.RestoresClass s c := by
  have hbounds := map_rereadVariable_eq_self_iff (f := src.restored s) h.typeParameters
  have hsuperclass := map_rereadSuperclass_eq_self_iff (s := s) (f := src.restored s)
    fun t ht => (h.superclass t ht).1
  have hinterfaces := map_reread_eq_self_iff (f := src.restored s) fun t ht => (h.interfaces t ht).1
  have hconstructors : src.rereadMethods s c.constructors = _ ↔ _ :=
    rereadMethods_eq_iff fun m hm => (h.constructors m hm).legible
  have hmethods : src.rereadMethods s c.methods = _ ↔ _ :=
    rereadMethods_eq_iff fun m hm => (h.methods m hm).legible
  have hfields : src.rereadFields s c.fields = _ ↔ _ :=
    rereadFields_eq_iff fun x hx => (h.fields x hx).legible
  rw [Source.rereadClass, rereadShell_eq h hroot, Source.rereadMembers_eq_ok rfl rfl rfl]
  constructor
  · rintro ⟨-, -, -, hequal⟩
    simp only [ClassDecl.published, ClassDecl.mk.injEq, true_and, and_true] at hequal
    obtain ⟨hbounds', hsuperclass', hinterfaces', hconstructors', hmethods', hfields'⟩ := hequal
    exact ⟨hbounds.mp hbounds'.symm, hsuperclass.mp hsuperclass'.symm,
      hinterfaces.mp hinterfaces'.symm, hconstructors.mp hconstructors'.symm,
      hmethods.mp hmethods'.symm, hfields.mp hfields'.symm⟩
  · intro hrestores
    rw [hbounds.mpr hrestores.bounds, hsuperclass.mpr hrestores.superclass,
      hinterfaces.mpr hrestores.interfaces, hconstructors.mpr hrestores.constructors,
      hmethods.mpr hrestores.methods, hfields.mpr hrestores.fields]
    exact ⟨pairwise_map_filter_mergeSort h.constructorsApart _ _ fun _ => rfl,
      pairwise_map_filter_mergeSort h.methodsApart _ _ fun _ => rfl,
      pairwise_map_filter_mergeSort h.fieldsApart _ _ fun _ => rfl, rfl⟩

end Signature
end ApiSurface
