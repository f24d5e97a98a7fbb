import ApiSurface.Proofs.RoundTrip.Class

/-!
# Classes that were read

The members of a class that was read are told apart, since adding one that is not fails.  The class
also has what its kind implies: interfaces and annotation types are abstract and have no superclass,
and where an ordinary class has none, its name does not imply one.
-/

namespace ApiSurface

/-! ## Classes as any text declares them -/

/-- The class and its members are on the surface and have no tags. -/
structure ClassDecl.IsFresh (c : ClassDecl) : Prop where
  constructors : ∀ m ∈ c.constructors, m.IsFresh
  methods : ∀ m ∈ c.methods, m.IsFresh
  fields : ∀ x ∈ c.fields, x.IsFresh
  exposure : c.exposure = {}
  tags : c.tags = {}

/-- A class, as any text declares it. -/
structure ClassDecl.IsRegular (c : ClassDecl) : Prop where
  annotations : ∀ a ∈ c.annotations, a.nullness? = none
  typeParameters : ∀ p ∈ c.typeParameters, ∀ t ∈ p.bounds, t.IsRegularThroughout
  supertypes : ∀ t ∈ c.superclass.toList ++ c.interfaces,
    t.IsRegularThroughout ∧ Signature.IsNonNull t
  constructors : ∀ m ∈ c.constructors, m.IsRegular c.qualifiedName ∧ m.returnType = none
  methods : ∀ m ∈ c.methods, m.IsRegular c.qualifiedName ∧ m.returnType.isSome = true
  fields : ∀ x ∈ c.fields, x.IsRegular c.qualifiedName
  constructorsApart : c.constructors.Pairwise fun m m' => c.signatureOf m ≠ c.signatureOf m'
  methodsApart : c.methods.Pairwise fun m m' => c.signatureOf m ≠ c.signatureOf m'
  fieldsApart : c.fields.Pairwise fun x x' => x.name ≠ x'.name
  abstracted : c.kind.isInterfaceLike = true → c.modifiers.isAbstract = true
  rootless : c.kind.isInterfaceLike = true → c.superclass = none

namespace Signature

open Scan (IsName)

/-- A class that was read and can be written. -/
structure IsDeclaredClass (common : Option CommonPackages) (c : ClassDecl) : Prop
    extends IsReadClass common c where
  preamble : ∀ a ∈ c.annotations, IsReadAnnotation common a
  constructorsApart : c.constructors.Pairwise fun m m' => c.signatureOf m ≠ c.signatureOf m'
  methodsApart : c.methods.Pairwise fun m m' => c.signatureOf m ≠ c.signatureOf m'
  fieldsApart : c.fields.Pairwise fun x x' => x.name ≠ x'.name
  abstracted : c.kind.isInterfaceLike = true → c.modifiers.isAbstract = true
  rootless : c.kind.isInterfaceLike = true → c.superclass = none
  implied : c.superclass = none → (ClassDecl.declare c.package c.name c.kind).superclass = none

/-- All that is known of a class that was read. -/
structure IsGivenClass (common : Option CommonPackages) (c : ClassDecl) : Prop where
  fresh : c.IsFresh
  regular : c.IsRegular
  implied : c.superclass = none → (ClassDecl.declare c.package c.name c.kind).superclass = none
  legible : AreProper common → IsReadClass common c
  preamble : AreProper common → ∀ a ∈ c.annotations, IsReadAnnotation common a

theorem IsGivenClass.declared
    {common : Option CommonPackages} {c : ClassDecl} (h : IsGivenClass common c)
    (hproper : AreProper common) : IsDeclaredClass common c :=
  { h.legible hproper, h.regular with
    preamble := h.preamble hproper
    implied := h.implied }

theorem pairwise_concat
    {α : Type} {R : α → α → Prop} {xs : List α} {x : α} (h : xs.Pairwise R)
    (hx : ∀ y ∈ xs, R y x) : (xs ++ [x]).Pairwise R := by
  refine List.pairwise_append.mpr ⟨h, List.pairwise_singleton R x, ?_⟩
  intro y hy z hz
  rw [List.mem_singleton.mp hz]
  exact hx y hy

theorem forall_mem_concat
    {α : Type} {P : α → Prop} {xs : List α} {x : α} (h : ∀ y ∈ xs, P y) (hx : P x) :
    ∀ y ∈ xs ++ [x], P y := by
  intro y hy
  rcases List.mem_append.mp hy with hy | hy
  · exact h y hy
  · rw [List.mem_singleton.mp hy]
    exact hx

/-! ## Members are added -/

section

variable {common : Option CommonPackages} {c d : ClassDecl} (h : IsGivenClass common c)

include h

theorem IsGivenClass.addConstructor
    {m : Method} (hm : IsGivenConstructor common c.name c.qualifiedName m)
    (hadd : c.addConstructor m = .ok d) : IsGivenClass common d ∧ d.package = c.package := by
  obtain ⟨hfree, rfl⟩ := ClassDecl.addConstructor_eq_ok.mp hadd
  refine ⟨?_, rfl⟩
  exact {
    fresh := { h.fresh with constructors := forall_mem_concat h.fresh.constructors hm.fresh }
    regular := { h.regular with
      constructors := forall_mem_concat h.regular.constructors ⟨hm.regular, hm.returnType⟩
      constructorsApart := pairwise_concat h.regular.constructorsApart hfree }
    implied := h.implied
    legible := fun hproper =>
      have hc := h.legible hproper
      { hc with constructors := forall_mem_concat hc.constructors (hm.legible hproper hc.name) }
    preamble := h.preamble }

theorem IsGivenClass.addMethod
    {m : Method} (hm : IsGivenMethod common c.qualifiedName m) (hadd : c.addMethod m = .ok d) :
    IsGivenClass common d ∧ d.package = c.package := by
  obtain ⟨hfree, rfl⟩ := ClassDecl.addMethod_eq_ok.mp hadd
  refine ⟨?_, rfl⟩
  exact {
    fresh := { h.fresh with methods := forall_mem_concat h.fresh.methods hm.fresh }
    regular := { h.regular with
      methods := forall_mem_concat h.regular.methods ⟨hm.regular, hm.returnType⟩
      methodsApart := pairwise_concat h.regular.methodsApart hfree }
    implied := h.implied
    legible := fun hproper =>
      have hc := h.legible hproper
      { hc with methods := forall_mem_concat hc.methods (hm.legible hproper) }
    preamble := h.preamble }

theorem IsGivenClass.addField
    {x : Field} (hx : IsGivenField common c.qualifiedName x) (hadd : c.addField x = .ok d) :
    IsGivenClass common d ∧ d.package = c.package := by
  obtain ⟨hfree, rfl⟩ := ClassDecl.addField_eq_ok.mp hadd
  refine ⟨?_, rfl⟩
  exact {
    fresh := { h.fresh with fields := forall_mem_concat h.fresh.fields hx.fresh }
    regular := { h.regular with
      fields := forall_mem_concat h.regular.fields hx.regular
      fieldsApart := pairwise_concat h.regular.fieldsApart hfree }
    implied := h.implied
    legible := fun hproper =>
      have hc := h.legible hproper
      { hc with fields := forall_mem_concat hc.fields (hx.legible hproper) }
    preamble := h.preamble }

end

/-! ## The head of a class -/

theorem isLegibleType_implicitSuperclass (common : Option CommonPackages) :
    IsLegibleType common ClassDecl.implicitSuperclass ∧ IsNonNull ClassDecl.implicitSuperclass :=
  ⟨.named (by simp [AreTypeAnnotations]) (show IsName TypeRef.object by decide) (fun _ _ => rfl)
    (by simp), .inl rfl⟩

theorem isRegularThroughout_implicitSuperclass :
    ClassDecl.implicitSuperclass.IsRegularThroughout :=
  (TypeRef.isRegularThroughout_array_named (show TypeRef.object ≠ "?" by decide)
    (List.forall_mem_nil _) 0).withNullability .nonNull

namespace Source

theorem eq_of_mem_superclass_declared
    {package name : String} {kind : ClassKind} {p : Preamble} {t : TypeRef}
    (ht : t ∈ (declared package name kind p).superclass) : t = ClassDecl.implicitSuperclass := by
  simp only [declared, ClassDecl.declare, ClassDecl.withModifiers] at ht
  split at ht
  · exact (Option.some.inj ht).symm
  · cases ht

/-- A class without members and without types behind `extends` and `implements`. -/
theorem isRegular_declared
    (package name : String) (kind : ClassKind) (p : Preamble) {ps : List TypeParameter}
    (hps : ∀ p ∈ ps, ∀ t ∈ p.bounds, t.IsRegularThroughout) :
    { declared package name kind p with typeParameters := ps }.IsRegular where
  annotations := forall_mem_withoutNullness p.annotations
  typeParameters := hps
  supertypes := by
    intro t ht
    rcases List.mem_append.mp ht with ht | ht
    · rw [eq_of_mem_superclass_declared (p := p) (Option.mem_toList.mp ht)]
      exact ⟨isRegularThroughout_implicitSuperclass, .inl rfl⟩
    · exact absurd ht List.not_mem_nil
  constructors := List.forall_mem_nil _
  methods := List.forall_mem_nil _
  fields := List.forall_mem_nil _
  constructorsApart := .nil
  methodsApart := .nil
  fieldsApart := .nil
  abstracted := fun hkind => by
    have hkind : kind.isInterfaceLike = true := hkind
    simp [declared, ClassDecl.declare, ClassDecl.withModifiers, hkind]
  rootless := fun hkind => by
    have hordinary : kind ≠ .ordinary := by
      rintro rfl
      cases hkind
    simp [declared, ClassDecl.declare, ClassDecl.withModifiers, hordinary]

theorem isGivenClass_declared
    {common : Option CommonPackages} (package : String) {name : String} (hname : IsName name)
    (kind : ClassKind) {p : Preamble} (hp : AreProper common → IsReadPreamble common p)
    {ps : List TypeParameter} (hps : ∀ p ∈ ps, IsGivenVariable common p) :
    IsGivenClass common { declared package name kind p with typeParameters := ps } where
  fresh := ⟨List.forall_mem_nil _, List.forall_mem_nil _, List.forall_mem_nil _, rfl, rfl⟩
  regular := isRegular_declared package name kind p fun p hp => (hps p hp).regular
  implied := id
  legible := fun hproper => {
    name := hname
    annotations := areTypeAnnotations_of_isReadPreamble (hp hproper)
    typeParameters := fun p hp => (hps p hp).legible hproper
    superclass := by
      intro t ht
      rw [eq_of_mem_superclass_declared (p := p) ht]
      exact isLegibleType_implicitSuperclass common
    interfaces := List.forall_mem_nil _
    constructors := List.forall_mem_nil _
    methods := List.forall_mem_nil _
    fields := List.forall_mem_nil _ }
  preamble := fun hproper a ha => hp hproper a (List.mem_filter.mp ha).1

end Source

section

variable {common : Option CommonPackages} {c : ClassDecl} {types : List TypeRef}
  (h : IsGivenClass common c) (htypes : ∀ t ∈ types, IsGivenType common t ∧ IsNonNull t)

include h htypes

theorem IsGivenClass.implement :
    IsGivenClass common { c with interfaces := c.interfaces ++ types } where
  fresh := { h.fresh with }
  regular := { h.regular with
    supertypes := by
      rw [← List.append_assoc]
      exact List.forall_mem_append.mpr
        ⟨h.regular.supertypes, fun t ht => ⟨(htypes t ht).1.regular, (htypes t ht).2⟩⟩ }
  implied := h.implied
  legible := fun hproper => { h.legible hproper with
    interfaces := List.forall_mem_append.mpr ⟨(h.legible hproper).interfaces,
      fun t ht => ⟨(htypes t ht).1.legible hproper, (htypes t ht).2⟩⟩ }
  preamble := h.preamble

theorem IsGivenClass.extend : IsGivenClass common (Source.extend c types) := by
  rw [Source.extend.eq_def]
  split
  · exact h.implement htypes
  · rename_i hkind
    cases types with
    | nil => exact h
    | cons first others =>
      obtain ⟨hfirst, hothers⟩ := List.forall_mem_cons.mp htypes
      have hboth := h.implement hothers
      have hinterfaces := (List.forall_mem_append.mp hboth.regular.supertypes).2
      exact {
        fresh := { h.fresh with }
        regular := { hboth.regular with
          supertypes := List.forall_mem_cons.mpr ⟨⟨hfirst.1.regular, hfirst.2⟩, hinterfaces⟩
          rootless := fun h => absurd h hkind }
        implied := fun hnone => absurd hnone (Option.some_ne_none first)
        legible := fun hproper => { hboth.legible hproper with
          superclass := fun t ht => Option.some.inj ht ▸ ⟨hfirst.1.legible hproper, hfirst.2⟩ }
        preamble := h.preamble }

end

/-! ## Reading classes -/

namespace Source

variable {src : Source}

/-- Reading a member keeps what is known of the class. -/
theorem yields_member (c : ClassDecl) :
    Yields AnyShape (src.readMember c) fun d =>
      IsGivenClass src.settings.common c →
        IsGivenClass src.settings.common d ∧ d.package = c.package := by
  intro ts
  rw [readMember]
  split
  · refine (yields_constructor c ts.tail).tail.bind fun m ts => gives_bind fun d hadd => ?_
    exact gives_ok fun _ hm hc => hc.addConstructor hm hadd
  split
  · refine (yields_method c ts.tail).tail.bind fun m ts => gives_bind fun d hadd => ?_
    exact gives_ok fun _ hm hc => hc.addMethod hm hadd
  split
  · refine (yields_field c false ts.tail).tail.bind fun x ts => gives_bind fun d hadd => ?_
    exact gives_ok fun _ hx hc => hc.addField hx.1 hadd
  split
  · refine (yields_field c true ts.tail).tail.bind fun x ts => gives_bind fun d hadd => ?_
    exact gives_ok fun _ hx hc => hc.addField hx.1 hadd
  · exact gives_error _

theorem yields_members (rounds : Nat) (c : ClassDecl) :
    Yields AnyShape (src.readMembers rounds c) fun d =>
      IsGivenClass src.settings.common c →
        IsGivenClass src.settings.common d ∧ d.package = c.package := by
  induction rounds generalizing c with
  | zero => exact fun ts => gives_error _
  | succ rounds ih =>
    intro ts
    rw [readMembers]
    split
    · exact Gives.tail (gives_ok fun _ hc => ⟨hc, rfl⟩)
    · refine (yields_member c ts).bind fun d ts => (ih d ts).imp fun e _ he hd hc => ?_
      obtain ⟨hd, hpackage⟩ := hd hc
      exact ⟨(he hd).1, (he hd).2.trans hpackage⟩

theorem gives_kind (ts : List Token) :
    Gives AnyShape ts (src.readKind ts) fun _ _ => True := by
  have hok : ∀ kind (ts : List Token),
      Gives AnyShape ts (.ok ((kind : ClassKind), ts)) fun _ _ => True :=
    fun _ _ => gives_ok fun _ => trivial
  rw [readKind]
  repeat' split
  · exact (hok _ _).tail
  · exact (hok _ _).tail
  · exact (hok _ _).tail
  · exact (hok _ _).tail.tail
  · exact gives_error _

theorem yields_class (cb : Codebase) (package : String) :
    Yields AnyShape (src.readClass cb package) fun c =>
      IsGivenClass src.settings.common c ∧ c.package = package := by
  intro ts
  refine (gives_preamble ts).bind fun p ts => ?_
  refine (gives_kind ts).bind fun kind ts => ?_
  refine (gives_expectName _ ts).bind fun name ts => ?_
  refine (gives_typeParameters ts).loosen.bind fun typeParameters ts => ?_
  refine (yields_supertypesAfter "extends" ts).bind fun extended ts => ?_
  refine (yields_supertypesAfter "implements" ts).bind fun implemented ts => ?_
  refine gives_expectMark (fun _ _ => trivial) fun ts => ?_
  refine (yields_members _ _ ts).imp fun c _ hc himplemented hextended hvariables hname _ hp => ?_
  have hhead := isGivenClass_declared package hname.1 kind hp.1 hvariables.1
  obtain ⟨hc, hpackage⟩ := hc ((hhead.extend hextended).implement himplemented)
  exact ⟨hc, hpackage.trans (extend_name _ extended).1⟩

end Source

end Signature
end ApiSurface
