import ApiSurface.Proofs.RoundTrip.Legacy

/-!
# Texts of the oldest version are read back

A codebase that was read is written in the oldest version with less than it has, and what is written
is read back.  Two things stand in the way.  Supertypes have nothing between them, so a wildcard or
a type named as the word in front of the next list is not taken for one more.  And a word in front
of a declaration may be taken for a modifier: the name of a class with constructors, and the name of
a type behind an annotation that looked like the start of an annotation type, which is left out.
-/

namespace ApiSurface

/-- The class can be told from its text in the oldest version: no word in front of a member is taken
for a modifier, and each interface is taken for one. -/
structure ClassDecl.FitsLegacy (c : ClassDecl) : Prop where
  named : c.constructors ≠ [] → Modifiers.isKeyword c.name = false
  interfaces : ∀ t ∈ c.interfaces, t.name ≠ "?" ∧ t.name ≠ "implements"
  methods : ∀ m ∈ c.methods, m.typeParameters = [] →
    ∀ t ∈ m.returnType, Modifiers.isKeyword t.name = false
  fields : ∀ x ∈ c.fields, Modifiers.isKeyword x.type.name = false

instance (c : ClassDecl) : Decidable c.FitsLegacy :=
  decidable_of_iff
    ((c.constructors ≠ [] → Modifiers.isKeyword c.name = false) ∧
      (∀ t ∈ c.interfaces, t.name ≠ "?" ∧ t.name ≠ "implements") ∧
      (∀ m ∈ c.methods, m.typeParameters = [] →
        ∀ t ∈ m.returnType, Modifiers.isKeyword t.name = false) ∧
      ∀ x ∈ c.fields, Modifiers.isKeyword x.type.name = false)
    ⟨fun ⟨h₁, h₂, h₃, h₄⟩ => ⟨h₁, h₂, h₃, h₄⟩, fun ⟨h₁, h₂, h₃, h₄⟩ => ⟨h₁, h₂, h₃, h₄⟩⟩

/-! ## What is left can be written -/

theorem ClassDecl.IsFresh.legacy {c : ClassDecl} (h : c.IsFresh) : c.legacy.IsFresh where
  constructors := List.forall_mem_map.mpr fun m hm =>
    ⟨congrArg (Method.legacy c.rulesOutOverriding) (h.constructors m hm).1, (h.constructors m hm).2⟩
  methods := List.forall_mem_map.mpr fun m hm =>
    ⟨congrArg (Method.legacy c.rulesOutOverriding) (h.methods m hm).1, (h.methods m hm).2⟩
  fields := List.forall_mem_map.mpr fun x hx =>
    ⟨congrArg Field.legacy (h.fields x hx).1, (h.fields x hx).2⟩
  exposure := h.exposure
  tags := h.tags

theorem Codebase.IsFresh.legacy {cb : Codebase} (h : cb.IsFresh) : cb.legacy.IsFresh := by
  refine ⟨fun c hc => ?_, h.packages⟩
  obtain ⟨d, hd, rfl⟩ := mem_classes_legacy.mp hc
  exact (h.classes d hd).legacy

namespace Signature

section

variable {common : Option CommonPackages}

theorem areTypeAnnotations_nil : AreTypeAnnotations common [] :=
  fun _ ha => absurd ha List.not_mem_nil

theorem IsLegibleType.legacy {t : TypeRef} (h : IsLegibleType common t) :
    IsLegibleType common t.legacy := by
  induction h with
  | bare _ =>
    simp only [TypeRef.legacy, TypeRef.legacyList, TypeRef.legacyBound, ite_self]
    exact .bare areTypeAnnotations_nil
  | upper _ _ ih =>
    simp only [TypeRef.legacy, TypeRef.legacyList, TypeRef.legacyBound, ite_self]
    exact .upper areTypeAnnotations_nil ih
  | lower _ _ ih =>
    simp only [TypeRef.legacy, TypeRef.legacyList, TypeRef.legacyBound, ite_self]
    exact .lower areTypeAnnotations_nil ih
  | named _ hname hprimitive _ ih =>
    rw [TypeRef.legacy, TypeRef.legacyList_eq_map]
    refine .named areTypeAnnotations_nil hname (fun hzero hmem => ?_) (List.forall_mem_map.mpr ih)
    rw [if_pos (by simp [hzero, hmem])]
    exact hprimitive hzero hmem

theorem endsBare_legacy {t : TypeRef} (h : IsLegibleType common t) :
    endsBare t.legacy = endsBare t := by
  induction h with
  | bare _ => rfl
  | upper _ _ ih => simp only [TypeRef.legacy, TypeRef.legacyBound, endsBare, boundEndsBare, ih]
  | lower _ _ ih => simp only [TypeRef.legacy, TypeRef.legacyBound, endsBare, boundEndsBare, ih]
  | named _ _ _ _ _ => rfl

theorem isLegibleType_legacyNonNull {t : TypeRef} (h : IsLegibleType common t) :
    IsLegibleType common t.legacyNonNull ∧ IsNonNull t.legacyNonNull :=
  ⟨h.legacy.withNullability .nonNull, isNonNull_withNullability h.legacy⟩

theorem IsMemberType.legacy {t : TypeRef} (h : IsMemberType common t) :
    IsMemberType common t.legacy :=
  ⟨h.legible.legacy, t.legacy_annotations⟩

theorem IsLegibleVariable.legacy {p : TypeParameter} (h : IsLegibleVariable common p) :
    IsLegibleVariable common p.legacy :=
  ⟨h.name, List.forall_mem_map.mpr fun t ht => (h.bounds t ht).legacy⟩

theorem IsLegibleParameter.legacy {p : Parameter} (h : IsLegibleParameter common p) :
    IsLegibleParameter common p.legacy where
  type := h.type.legacy
  annotations := areTypeAnnotations_nil
  varargs := by simpa [Parameter.legacy] using h.varargs
  name := nofun
  defaultValue := nofun

theorem IsLegibleMethod.legacy
    {m : Method} (h : IsLegibleMethod common m) (implied : Bool) :
    IsLegibleMethod common (m.legacy implied) where
  name := h.name
  annotations := areTypeAnnotations_nil
  typeParameters := List.forall_mem_map.mpr fun p hp => (h.typeParameters p hp).legacy
  returnType := by
    intro t ht
    obtain ⟨u, hu, rfl⟩ := Option.map_eq_some_iff.mp ht
    exact (h.returnType u hu).legacy
  apart := by
    intro t ht hbare
    obtain ⟨u, hu, rfl⟩ := Option.map_eq_some_iff.mp ht
    rw [endsBare_legacy (h.returnType u hu).legible] at hbare
    exact h.apart u hu hbare
  parameters := List.forall_mem_map.mpr fun p hp => (h.parameters p hp).legacy
  throws := List.forall_mem_map.mpr fun t ht => isLegibleType_legacyNonNull (h.throws t ht).1
  defaultValue := nofun

theorem IsLegibleField.legacy {x : Field} (h : IsLegibleField common x) :
    IsLegibleField common x.legacy where
  name := h.name
  annotations := areTypeAnnotations_nil
  type := by
    simp only [Field.legacy]
    split
    · exact h.type.legacy.withNullability .nonNull
    · exact h.type.legacy
  apart := by
    have hbare : endsBare x.legacy.type = endsBare x.type := by
      simp only [Field.legacy]
      split
      · rw [TypeRef.legacyNonNull, endsBare_withNullability, endsBare_legacy h.type.legible]
      · exact endsBare_legacy h.type.legible
    rw [hbare]
    exact h.apart
  value := h.value
  nonNull := by
    intro hconstant
    have hconstant : x.isEnumConstant = true := hconstant
    simp only [Field.legacy, hconstant, if_true]
    exact (isLegibleType_legacyNonNull h.type.legible).2

end

theorem isReadConstructor_legacy
    {common : Option CommonPackages} {name owner : String} {m : Method}
    (h : IsReadConstructor common name owner m) (implied : Bool) :
    IsReadConstructor common name owner (m.legacy implied) where
  legible := h.legible.legacy implied
  name := h.name
  owner := h.owner
  returnType := by simp [Method.legacy, h.returnType]
  defaultValue := rfl
  synthetic := h.synthetic
  annotations := nofun

theorem isReadMethod_legacy
    {owner : String} {m : Method} (h : IsReadMethod none owner m)
    (hfront : m.typeParameters = [] → ∀ t ∈ m.returnType, Modifiers.isKeyword t.name = false)
    (implied : Bool) : IsReadMethod none owner (m.legacy implied) where
  legible := h.legible.legacy implied
  owner := h.owner
  returnType := by simpa [Method.legacy] using h.returnType
  synthetic := h.synthetic
  front := by
    intro _ hnone _ t ht
    obtain ⟨u, hu, rfl⟩ := Option.map_eq_some_iff.mp ht
    rw [TypeRef.legacy_name]
    exact hfront (List.map_eq_nil_iff.mp hnone) u hu

theorem isReadField_legacy
    {owner : String} {x : Field} (h : IsReadField none owner x)
    (hfront : Modifiers.isKeyword x.type.name = false) : IsReadField none owner x.legacy where
  legible := h.legible.legacy
  owner := h.owner
  synthetic := h.synthetic
  front := by
    intro _ _
    rw [Field.legacy_typeName]
    exact hfront

/-- What is left of a class is as if it was read. -/
theorem isDeclaredClass_legacy
    {c : ClassDecl} (h : IsDeclaredClass none c) (hfits : c.FitsLegacy) :
    IsDeclaredClass none c.legacy where
  name := h.name
  annotations := areTypeAnnotations_nil
  typeParameters := List.forall_mem_map.mpr fun p hp => (h.typeParameters p hp).legacy
  superclass := by
    intro t ht
    obtain ⟨u, hu, rfl⟩ := Option.map_eq_some_iff.mp ht
    exact isLegibleType_legacyNonNull (h.superclass u hu).1
  interfaces := List.forall_mem_map.mpr fun t ht =>
    isLegibleType_legacyNonNull (h.interfaces t ht).1
  constructors := List.forall_mem_map.mpr fun m hm =>
    isReadConstructor_legacy (h.constructors m hm) _
  methods := List.forall_mem_map.mpr fun m hm =>
    isReadMethod_legacy (h.methods m hm) (hfits.methods m hm) _
  fields := List.forall_mem_map.mpr fun x hx =>
    isReadField_legacy (h.fields x hx) (hfits.fields x hx)
  preamble := nofun
  constructorsApart := by
    refine List.pairwise_map.mpr (h.constructorsApart.imp fun hne => ?_)
    simpa only [ClassDecl.signatureOf, ClassDecl.legacy, Method.signatureIn_legacy] using hne
  methodsApart := by
    refine List.pairwise_map.mpr (h.methodsApart.imp fun hne => ?_)
    simpa only [ClassDecl.signatureOf, ClassDecl.legacy, Method.signatureIn_legacy] using hne
  fieldsApart := List.pairwise_map.mpr h.fieldsApart
  abstracted := h.abstracted
  rootless := by
    intro hkind
    simp [ClassDecl.legacy, h.rootless hkind]
  implied := fun hnone => h.implied (Option.map_eq_none_iff.mp hnone)

/-! ## What is written is read back -/

section

variable {s : WriteSettings} (homitted : s.omitted = none) {c : ClassDecl} (hfits : c.FitsLegacy)

include homitted hfits

theorem isPlainClass_legacy (h : IsDeclaredClass none c) : IsPlainClass s c.legacy := by
  have htypeName : ∀ name, s.typeName name = name := by
    intro name
    rw [WriteSettings.typeName, homitted]
  have hannotations : ∀ a ∈ ([] : List Annotation),
      a.isDeprecated = false ∧ s.annotationName a.name ≠ "interface" := List.forall_mem_nil _
  obtain ⟨hlasting, hwritten⟩ := forall₂_and.mp hannotations
  refine ⟨hlasting, hwritten, rfl, rfl, rfl, List.forall_mem_map.mpr fun m hm => ?_,
    List.forall_mem_map.mpr fun m hm => ?_, List.forall_mem_map.mpr fun x hx => ?_⟩
  · have hread := h.constructors m hm
    refine ⟨hlasting, hwritten, rfl, rfl, rfl, fun _ => ?_⟩
    have hreturn : (m.legacy c.rulesOutOverriding).returnType = none := by
      simp [Method.legacy, hread.returnType]
    have hname : (m.legacy c.rulesOutOverriding).name = c.name := hread.name
    rw [WriteSettings.frontWord, hreturn, hname]
    exact hfits.named (List.ne_nil_of_mem hm)
  · refine ⟨hlasting, hwritten, rfl, rfl, rfl, fun hnone => ?_⟩
    obtain ⟨t, ht⟩ := Option.isSome_iff_exists.mp (h.methods m hm).returnType
    have hreturn : (m.legacy c.rulesOutOverriding).returnType = some t.legacy := by
      simp [Method.legacy, ht]
    rw [WriteSettings.frontWord, hreturn]
    simp only [htypeName, TypeRef.legacy_name]
    exact hfits.methods m hm (List.map_eq_nil_iff.mp hnone) t ht
  · refine ⟨hlasting, hwritten, rfl, rfl, rfl, ?_⟩
    rw [htypeName, Field.legacy_typeName]
    exact hfits.fields x hx

theorem laysOut_legacy : s.LaysOut c.legacy := by
  have hfinal : ∀ m : Method, s.impliesFinal c.legacy = true →
      (m.legacy c.rulesOutOverriding).modifiers.isFinal = false := by
    intro m himplied
    have himplied : (s.compatible && c.rulesOutOverriding) = true := himplied
    rw [Bool.and_eq_true] at himplied
    simp [Method.legacy, himplied.2]
  refine ⟨fun _ => List.forall_mem_map.mpr fun t ht => ?_,
    fun himplied => List.forall_mem_map.mpr fun m _ => hfinal m himplied,
    fun himplied => List.forall_mem_map.mpr fun m _ => hfinal m himplied⟩
  obtain ⟨hwildcard, hword⟩ := hfits.interfaces t ht
  refine ⟨?_, ?_, ?_⟩
  · rwa [TypeRef.legacyNonNull_name]
  · rw [TypeRef.legacyNonNull, withNullability_annotations, TypeRef.legacy_annotations]
  · rwa [WriteSettings.typeName, homitted, TypeRef.legacyNonNull_name]

end

theorem isReadCodebase_legacy
    {cb : Codebase} (h : IsReadCodebase none cb) (hfits : ∀ c ∈ cb.classes.items, c.FitsLegacy) :
    IsReadCodebase none cb.legacy := by
  refine ⟨h.indexed.legacy, fun c hc => ?_, h.packages⟩
  obtain ⟨d, hd, rfl⟩ := Codebase.mem_classes_legacy.mp hc
  exact isDeclaredClass_legacy (h.classes d hd) (hfits d hd)

theorem isAbridged_v1 (order : MemberOrder) : (Format.v1.settings none .live order).IsAbridged :=
  ⟨rfl, rfl, rfl, rfl, rfl⟩

/-- A text of the oldest version is read back as what it tells. -/
theorem read_codebaseText_v1
    {cb : Codebase} (h : IsReadCodebase none cb) (hfresh : cb.IsFresh)
    (hfits : ∀ c ∈ cb.classes.items, c.FitsLegacy) (order : MemberOrder) (file : String) :
    read { file } ((Format.v1.settings none .live order).codebaseText cb) =
      .ok (cb.legacy.tidy order) := by
  let s := (Format.v1.settings none .live order).unabridged
  have hagree : Agree s { Format.v1.readSettings none with file } := ⟨rfl, rfl, rfl, rfl, rfl⟩
  have hwritten : ∀ c ∈ s.writtenClasses cb.legacy, ∃ d ∈ cb.classes.items, d.legacy = c :=
    fun c hc => Codebase.mem_classes_legacy.mp
      ((WriteSettings.mem_writtenClasses_iff h.indexed.legacy).mp hc).1
  have hplain : ∀ c ∈ s.writtenClasses cb.legacy, IsPlainClass s c := by
    intro c hc
    obtain ⟨d, hd, rfl⟩ := hwritten c hc
    exact isPlainClass_legacy rfl (hfits d hd) (h.classes d hd)
  have hlayout : ∀ c ∈ s.writtenClasses cb.legacy, s.LaysOut c := by
    intro c hc
    obtain ⟨d, hd, rfl⟩ := hwritten c hc
    exact laysOut_legacy rfl (hfits d hd)
  rw [← WriteSettings.codebaseText_legacy (isAbridged_v1 order) h.indexed rfl,
    ← Codebase.published_eq_tidy hfresh.legacy h.indexed.legacy]
  exact read_eq_published_of_isPlainClass rfl hagree (isReadCodebase_legacy h hfits) hplain hlayout
    nofun

/-- What a text of the oldest version tells has the same text. -/
theorem codebaseText_v1_tidy
    {cb : Codebase} (h : cb.IsIndexed) (hfresh : cb.IsFresh) (order : MemberOrder) :
    (Format.v1.settings none .live order).codebaseText (cb.legacy.tidy order) =
      (Format.v1.settings none .live order).codebaseText cb := by
  have hagain : (cb.legacy.tidy order).legacy = cb.legacy.tidy order := by
    refine Codebase.legacy_eq_self fun c hc => ?_
    obtain ⟨d, hd, rfl⟩ := Codebase.mem_classes_tidy.mp hc
    obtain ⟨e, -, rfl⟩ := Codebase.mem_classes_legacy.mp hd
    rw [ClassDecl.legacy_sorted, ClassDecl.legacy_legacy]
  have hindexed : (cb.legacy.tidy order).IsIndexed :=
    (Codebase.isDerived_tidy hfresh.legacy h.legacy order).toIsIndexed
  rw [← WriteSettings.codebaseText_legacy (isAbridged_v1 order) hindexed rfl, hagain,
    ← Codebase.published_eq_tidy hfresh.legacy h.legacy]
  exact (WriteSettings.codebaseText_published rfl h.legacy).trans
    (WriteSettings.codebaseText_legacy (isAbridged_v1 order) h rfl)

/-- A codebase that was read is written in the oldest version and read back with members in order
and without packages that have no classes, as the version tells its classes, and what is read back
has the same text. -/
theorem read_write_v1
    {options : ReadOptions} (hcommon : options.common = none) {text : String} {cb : Codebase}
    (hread : read options text = .ok cb) (hfits : ∀ c ∈ cb.classes.items, c.FitsLegacy)
    (order : MemberOrder) (file : String) :
    ∃ written, write { format := .v1, order } cb = .ok written ∧
      read { file } written = .ok (cb.legacy.tidy order) ∧
      write { format := .v1, order } (cb.legacy.tidy order) = .ok written := by
  have hwrite : ∀ cb, write { format := .v1, order } cb =
      .ok ((Format.v1.settings none .live order).codebaseText cb) := fun _ => rfl
  have hcb : IsReadCodebase none cb := by
    rw [← hcommon]
    exact isReadCodebase_of_read (by simp [hcommon]) hread
  have hfresh := isFresh_of_read hread
  refine ⟨_, hwrite cb, read_codebaseText_v1 hcb hfresh hfits order file, ?_⟩
  rw [hwrite, codebaseText_v1_tidy hcb.indexed hfresh]

/-- A final class with an annotation, a deprecated final method and a constant, and a package
without classes. -/
def gaugeText : String :=
  "package p \x7b @a.B final class Gauge implements p.C p.D \x7b " ++
    "field static final int MAX = 255; method final deprecated @a.N String at(int depth = 1); " ++
    "\x7d \x7d package q \x7b \x7d"

def gaugeClass : ClassDecl :=
  { ClassDecl.declare "p" "Gauge" .ordinary with
    modifiers := { isFinal := true }
    annotations := [{ name := "a.B" }]
    interfaces :=
      [{ name := "p.C", nullability := .nonNull }, { name := "p.D", nullability := .nonNull }]
    methods :=
      [{ name := "at", owner := "p.Gauge", modifiers := { isFinal := true, isDeprecated := true }
         returnType := some (.named "String")
         parameters := [{ type := .named "int", name := some "depth", defaultValue := some "1" }]
         annotations := [{ name := "a.N" }] }]
    fields :=
      [{ name := "MAX", owner := "p.Gauge", modifiers := { isStatic := true, isFinal := true }
         type := .named "int", value := some "255" }] }

def gaugeOnly : Codebase :=
  { packages := ⟨[{ name := "p", classNames := ⟨["p.Gauge"], by decide⟩ }, { name := "q" }],
      by decide⟩
    classes := ⟨[gaugeClass], List.pairwise_singleton _ _⟩ }

theorem gaugeOnly_read_write_v1 :
    read {} gaugeText = .ok gaugeOnly ∧ (∀ c ∈ gaugeOnly.classes.items, c.FitsLegacy) ∧
      ∃ written, write { format := .v1, order := .name } gaugeOnly = .ok written ∧
        read { file := "old.txt" } written = .ok (gaugeOnly.legacy.tidy .name) ∧
        write { format := .v1, order := .name } (gaugeOnly.legacy.tidy .name) = .ok written := by
  have hread : read {} gaugeText = .ok gaugeOnly := by decide +kernel
  have hfits : ∀ c ∈ gaugeOnly.classes.items, c.FitsLegacy := by decide
  exact ⟨hread, hfits, read_write_v1 rfl hread hfits .name "old.txt"⟩

example : write { format := .v1 } gaugeOnly = .ok
    ("package p \x7b\n\n  final class Gauge extends java.lang.Object implements p.C p.D \x7b\n" ++
      "    method deprecated String at(int);\n    field static final int MAX = 255; // 0xff\n" ++
      "  \x7d\n\n\x7d\n\n") := by
  decide +kernel

/-- A field with a modifier word as its type, which an annotation keeps apart from the modifiers. -/
def slipText : String :=
  "package p \x7b class Slip \x7b field @interface static x; \x7d \x7d"

def slipOnly : Codebase :=
  let field : Field :=
    { name := "x", owner := "p.Slip", modifiers := {}, type := .named "static"
      annotations := [{ name := "interface" }] }
  { packages := ⟨[{ name := "p", classNames := ⟨["p.Slip"], by decide⟩ }], by decide⟩
    classes := ⟨[{ ClassDecl.declare "p" "Slip" .ordinary with fields := [field] }],
      List.pairwise_singleton _ _⟩ }

theorem slipOnly_not_read_write_v1 :
    read {} slipText = .ok slipOnly ∧
      (∀ c ∈ slipOnly.classes.items,
        (c.constructors ≠ [] → Modifiers.isKeyword c.name = false) ∧
          ∀ t ∈ c.interfaces, t.name ≠ "?" ∧ t.name ≠ "implements") ∧
      ∃ written, write { format := .v1 } slipOnly = .ok written ∧
        ∀ cb, read {} written ≠ .ok cb := by
  have hread : read {} slipText = .ok slipOnly := by decide +kernel
  have hfault : (read {} ((Format.v1.settings none .live .accessThenName).codebaseText
      slipOnly)).toBool = false := by decide +kernel
  refine ⟨hread, by decide, _, rfl, fun cb hcb => ?_⟩
  have hwritten : read {} ((Format.v1.settings none .live .accessThenName).codebaseText slipOnly) =
      .ok cb := hcb
  rw [hwritten] at hfault
  cases hfault

end Signature
end ApiSurface
