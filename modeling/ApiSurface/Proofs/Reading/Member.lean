import ApiSurface.Proofs.Reading.TypeRef
import ApiSurface.Proofs.RoundTrip.Member

/-!
# Members that were read

A member that was read is on the surface and has no tags, and the types in it are regular.
Nullability may also stand in an annotation in front of the whole member; no annotation about null
is left there either.

The parts of a member can be written and read back.  What they lack for the whole to be read back is
told by the words in front of them: the type of a method without type variables was no keyword where
it was read, but may be one once its package is left off.
-/

namespace ApiSurface

/-! ## Members as any text declares them -/

/-- The method without exposure and tags. -/
def Method.bare (m : Method) : Method :=
  { m with exposure := {}, tags := {} }

/-- The field without exposure and tags. -/
def Field.bare (x : Field) : Field :=
  { x with exposure := {}, tags := {} }

/-- The method is on the surface, has no tags and was not made by a compiler. -/
def Method.IsFresh (m : Method) : Prop :=
  m.bare = m ∧ m.synthetic = false

/-- The field is on the surface, has no tags and was not made by a compiler. -/
def Field.IsFresh (x : Field) : Prop :=
  x.bare = x ∧ x.synthetic = false

/-- A parameter, as any text declares it. -/
structure Parameter.IsRegular (p : Parameter) : Prop where
  annotations : ∀ a ∈ p.annotations, a.nullness? = none
  type : p.type.IsRegularThroughout
  varargs : p.varargs = true → 0 < p.type.dimensions

/-- A method or a constructor of a class, as any text declares it. -/
structure Method.IsRegular (owner : String) (m : Method) : Prop where
  owner : m.owner = owner
  annotations : ∀ a ∈ m.annotations, a.nullness? = none
  typeParameters : ∀ p ∈ m.typeParameters, ∀ t ∈ p.bounds, t.IsRegularThroughout
  returnType : ∀ t ∈ m.returnType, t.IsRegularThroughout
  parameters : ∀ p ∈ m.parameters, p.IsRegular
  throws : ∀ t ∈ m.throws, t.IsRegularThroughout ∧ Signature.IsNonNull t

/-- A field of a class, as any text declares it. -/
structure Field.IsRegular (owner : String) (x : Field) : Prop where
  owner : x.owner = owner
  annotations : ∀ a ∈ x.annotations, a.nullness? = none
  type : x.type.IsRegularThroughout
  constant : x.isEnumConstant = true → Signature.IsNonNull x.type

namespace Signature

open Scan (IsName)

/-! ## Preambles -/

/-- The tokens are not read as a part of a preamble. -/
structure PreambleStops (ts : List Token) : Prop where
  annotation : atMark "@" ts = true → atWord "interface" ts.tail = true
  keyword : ∀ word, atWord word ts = true → Modifiers.isKeyword word = false

/-- What is known of an annotation in a preamble that was read. -/
structure IsReadAnnotation (common : Option CommonPackages) (a : Annotation) : Prop where
  legible : IsLegibleAnnotation common a
  lasting : a.isDeprecated = false
  named : common = none → a.name ≠ "interface"

/-- What is known of a preamble that was read. -/
def IsReadPreamble (common : Option CommonPackages) (p : Preamble) : Prop :=
  ∀ a ∈ p.annotations, IsReadAnnotation common a

theorem IsReadPreamble.annotate
    {common : Option CommonPackages} {p : Preamble} (h : IsReadPreamble common p) {a : Annotation}
    (ha : IsLegibleAnnotation common a) (hnamed : common = none → a.name ≠ "interface") :
    IsReadPreamble common (p.annotate a) := by
  rw [Preamble.annotate]
  split
  · exact h
  · rename_i hlasting
    intro b hb
    rcases List.mem_append.mp hb with hb | hb
    · exact h b hb
    · rw [List.mem_singleton.mp hb]
      exact ⟨ha, by simpa using hlasting, hnamed⟩

namespace Source

variable {src : Source}

/-- What stands behind a preamble is no part of it. -/
theorem gives_extendPreamble
    {rounds : Nat} {p : Preamble} {ts : List Token} (hrounds : ts.length ≤ rounds) :
    Gives AnyShape ts (src.extendPreamble rounds p ts) fun q rest =>
      (AreProper src.settings.common → IsReadPreamble src.settings.common p →
        IsReadPreamble src.settings.common q) ∧ PreambleStops rest := by
  have hnil : PreambleStops [] := ⟨by simp [atMark], by simp [atWord]⟩
  induction rounds generalizing p ts with
  | zero =>
    obtain rfl := List.eq_nil_of_length_eq_zero (Nat.le_zero.mp hrounds)
    exact gives_ok fun _ => ⟨fun _ => id, hnil⟩
  | succ rounds ih =>
    cases ts with
    | nil => exact gives_ok fun _ => ⟨fun _ => id, hnil⟩
    | cons t ts =>
      rw [extendPreamble]
      split
      · rename_i hcond
        refine (gives_annotationAt (t :: ts)).anyShape.bind_of_eq fun a ts' hread => ?_
        have hlength := (gives_annotationAt (t :: ts)).length_lt hread
        refine (ih (by simp at hlength hrounds; omega)).imp fun q rest hq ha => ?_
        refine ⟨fun hproper hp => hq.1 hproper (hp.annotate (ha.legible hproper) ?_), hq.2⟩
        intro hcommon heq
        have hword : atWord a.name ts = true := ha.named hcommon
        rw [heq] at hword
        simp [hword] at hcond
      · rename_i hannotation
        have hat : atMark "@" (t :: ts) = true → atWord "interface" ts = true := by
          intro hmark
          simpa [show t.isMark "@" = true from hmark] using hannotation
        split
        · split
          · exact (ih (by simpa using hrounds)).cons trivial
          · rename_i hnone
            have hother : Modifiers.isKeyword t.text = false := by
              rw [← Modifiers.isSome_withKeyword? p.modifiers, hnone]
              rfl
            refine gives_ok fun _ => ⟨fun _ => id, hat, fun word hword => ?_⟩
            rwa [← (Token.isWord_iff.mp hword).2]
        · rename_i hkind
          exact gives_ok fun _ => ⟨fun _ => id, hat,
            fun word hword => absurd (Token.isWord_iff.mp hword).1 hkind⟩

theorem gives_preamble (ts : List Token) :
    Gives AnyShape ts (src.readPreamble ts) fun p rest =>
      (AreProper src.settings.common → IsReadPreamble src.settings.common p) ∧
        PreambleStops rest :=
  (gives_extendPreamble (Nat.le_refl _)).imp fun _ _ h =>
    ⟨fun hproper => h.1 hproper (List.forall_mem_nil _), h.2⟩

end Source

/-! ## What is known of members -/

/-- What is known of a constructor that was read. -/
structure IsReadConstructor (common : Option CommonPackages) (name owner : String) (m : Method) :
    Prop where
  legible : IsLegibleMethod common m
  name : m.name = name
  owner : m.owner = owner
  returnType : m.returnType = none
  defaultValue : m.defaultValue = none
  synthetic : m.synthetic = false
  annotations : ∀ a ∈ m.annotations, IsReadAnnotation common a

/-- What is known of a method that was read. -/
structure IsReadMethod (common : Option CommonPackages) (owner : String) (m : Method) : Prop where
  legible : IsLegibleMethod common m
  owner : m.owner = owner
  returnType : m.returnType.isSome = true
  synthetic : m.synthetic = false
  front : common = none → m.typeParameters = [] →
    (∀ a ∈ m.annotations, a.name ≠ "interface") →
    ∀ t ∈ m.returnType, Modifiers.isKeyword t.name = false

/-- What is known of a field that was read. -/
structure IsReadField (common : Option CommonPackages) (owner : String) (x : Field) : Prop where
  legible : IsLegibleField common x
  owner : x.owner = owner
  synthetic : x.synthetic = false
  front : common = none → (∀ a ∈ x.annotations, a.name ≠ "interface") →
    Modifiers.isKeyword x.type.name = false

/-- All that is known of a parameter that was read. -/
structure IsGivenParameter (common : Option CommonPackages) (p : Parameter) : Prop where
  regular : p.IsRegular
  legible : AreProper common → IsLegibleParameter common p

/-- All that is known of a constructor that was read. -/
structure IsGivenConstructor (common : Option CommonPackages) (name owner : String) (m : Method) :
    Prop where
  fresh : m.IsFresh
  regular : m.IsRegular owner
  returnType : m.returnType = none
  legible : AreProper common → IsName name → IsReadConstructor common name owner m

/-- All that is known of a method that was read. -/
structure IsGivenMethod (common : Option CommonPackages) (owner : String) (m : Method) : Prop where
  fresh : m.IsFresh
  regular : m.IsRegular owner
  returnType : m.returnType.isSome = true
  legible : AreProper common → IsReadMethod common owner m

/-- All that is known of a field that was read. -/
structure IsGivenField (common : Option CommonPackages) (owner : String) (x : Field) : Prop where
  fresh : x.IsFresh
  regular : x.IsRegular owner
  legible : AreProper common → IsReadField common owner x

/-- All that is known of the type of a member that was read behind a preamble, with the annotations
of the member. -/
structure IsGivenMemberType (common : Option CommonPackages) (p : Preamble) (ts : List Token)
    (t : TypeRef × List Annotation) (rest : List Token) : Prop where
  annotations : ∀ a ∈ t.2, a.nullness? = none
  type : t.1.IsRegularThroughout
  unbounded : Unbounded t.1 rest
  legible : AreProper common → IsReadPreamble common p →
    IsMemberType common t.1 ∧ AreTypeAnnotations common t.2
  front : common = none → PreambleStops ts → (∀ a ∈ t.2, a.name ≠ "interface") →
    Modifiers.isKeyword t.1.name = false

theorem Unbounded.ne
    {t : TypeRef} {ts : List Token} (h : Unbounded t ts) {name : String}
    (hname : atWord name ts = true) (hbare : endsBare t = true) :
    name ≠ "extends" ∧ name ≠ "super" := by
  constructor
  · rintro rfl
    exact absurd hname (by simp [(h hbare).1])
  · rintro rfl
    exact absurd hname (by simp [(h hbare).2])

theorem isGivenParameter
    {common : Option CommonPackages} {ts rest : List Token} {t : ReadType}
    (ht : IsGivenTypeAt common ts t rest) {name defaultValue : Option String}
    (hname : ∀ n ∈ name, IsName n ∧ atWord n rest = true)
    (hvalue : ∀ v ∈ defaultValue, IsRawValue [",", ")"] v) :
    IsGivenParameter common
      { type := t.type, name, defaultValue, varargs := t.varargs
        annotations := t.annotations } := by
  refine ⟨⟨ht.regular.annotations, ht.regular.type, ht.regular.varargs⟩, fun hproper => ?_⟩
  have hread := ht.legible hproper
  exact ⟨⟨hread.type, hread.plain⟩, hread.annotations, hread.varargs,
    fun n hn => ⟨(hname n hn).1, ht.unbounded.ne (hname n hn).2⟩, hvalue⟩

theorem areTypeAnnotations_of_isReadPreamble
    {common : Option CommonPackages} {p : Preamble} (h : IsReadPreamble common p) :
    AreTypeAnnotations common (withoutNullness p.annotations) :=
  areTypeAnnotations_withoutNullness fun a ha => (h a ha).legible

theorem AreTypeAnnotations.append
    {common : Option CommonPackages} {annotations others : List Annotation}
    (h : AreTypeAnnotations common annotations) (h' : AreTypeAnnotations common others) :
    AreTypeAnnotations common (annotations ++ others) := by
  intro a ha
  rcases List.mem_append.mp ha with ha | ha
  · exact h a ha
  · exact h' a ha

theorem settled_cases (annotations : List Annotation) (t : TypeRef) :
    settled annotations t = t ∨ ∃ n, settled annotations t = t.withNullability n := by
  rw [settled]
  split
  · split
    · exact .inl rfl
    · exact .inr ⟨_, rfl⟩
  · exact .inl rfl

theorem IsMemberType.withNullability
    {common : Option CommonPackages} {t : TypeRef} (h : IsMemberType common t) (n : Nullability) :
    IsMemberType common (t.withNullability n) :=
  ⟨h.legible.withNullability n, (withNullability_annotations t n).trans h.plain⟩

/-- A type with what the annotations in front of the whole member add to it. -/
theorem IsGivenTypeAt.behind
    {common : Option CommonPackages} {ts rest : List Token} {t : ReadType}
    (h : IsGivenTypeAt common ts t rest) (p : Preamble) :
    IsGivenMemberType common p ts
      (t.type, withoutNullness p.annotations ++ t.annotations) rest where
  annotations :=
    List.forall_mem_append.mpr ⟨forall_mem_withoutNullness p.annotations, h.regular.annotations⟩
  type := h.regular.type
  unbounded := h.unbounded
  legible := fun hproper hp =>
    have ht := h.legible hproper
    ⟨⟨ht.type, ht.plain⟩, (areTypeAnnotations_of_isReadPreamble hp).append ht.annotations⟩
  front := by
    intro hcommon hstops hnone
    rcases h.named hcommon hstops.annotation fun a ha => hnone a (List.mem_append_right _ ha)
      with hwildcard | hword
    · rw [hwildcard]
      decide
    · exact hstops.keyword _ hword

theorem IsGivenMemberType.withNullability
    {common : Option CommonPackages} {p : Preamble} {ts rest : List Token} {t : TypeRef}
    {annotations : List Annotation} (h : IsGivenMemberType common p ts (t, annotations) rest)
    (n : Nullability) : IsGivenMemberType common p ts (t.withNullability n, annotations) rest where
  annotations := h.annotations
  type := h.type.withNullability n
  unbounded := by
    rw [Unbounded, endsBare_withNullability]
    exact h.unbounded
  legible := fun hproper hp =>
    have hlegible := h.legible hproper hp
    ⟨hlegible.1.withNullability n, hlegible.2⟩
  front := by
    rw [withNullability_name]
    exact h.front

/-! ## Reading members -/

namespace Source

variable {src : Source}

theorem gives_valueText (stops : List String) (ts : List Token) :
    Gives AnyShape ts (src.readValueText stops ts) fun value _ => IsRawValue stops value := by
  intro value rest h
  obtain ⟨⟨taken, rest'⟩, htake, hvalue⟩ := bind_eq_ok.mp h
  obtain ⟨hts, -, -⟩ := encloses_of_takeValue htake
  simp only at hvalue
  split at hvalue
  · cases hvalue
  · cases hvalue
    exact ⟨taken, hts, trivial, fun hts => (isRawValue_of_readValueText hts h).1⟩

theorem gives_markedValue (present : Bool) (stops : List String) (ts : List Token) :
    Gives AnyShape ts (src.readMarkedValue present stops ts) fun value _ =>
      ∀ v ∈ value, IsRawValue stops v := by
  rw [readMarkedValue]
  split
  · exact gives_ok fun _ v hv => absurd hv (Option.not_mem_none v)
  · refine Gives.tail ?_
    refine (gives_valueText stops ts.tail).map (fun _ _ => rfl) fun value _ hvalue v hv => ?_
    cases hv
    exact hvalue

theorem gives_memberType (p : Preamble) (ts : List Token) :
    Gives (Balanced false) ts (src.readMemberType p ts)
      (IsGivenMemberType src.settings.common p ts) := by
  refine (gives_type ts).bind fun t rest => gives_ok fun _ ht => ?_
  change IsGivenMemberType _ p ts (settled p.annotations t.type, _) rest
  rcases settled_cases p.annotations t.type with hsame | ⟨n, hsettled⟩
  · rw [hsame]
    exact ht.behind p
  · rw [hsettled]
    exact (ht.behind p).withNullability n

theorem yields_parameter :
    Yields AnyShape src.readParameter (IsGivenParameter src.settings.common) := by
  intro ts
  refine (gives_type ts).loosen.bind fun t ts => ?_
  simp only
  split
  · rename_i hat
    cases ts with
    | nil => cases hat
    | cons u ts =>
      have hname : Gives AnyShape (u :: ts) (src.expectName "parameter name" (u :: ts)) _ :=
        gives_expectName _ _
      rw [expectName, if_pos (by simpa [atName] using hat)] at hname
      refine hname.readOver ?_
      refine (gives_markedValue _ _ ts).bind fun value _ => gives_ok fun _ hvalue hname ht => ?_
      exact isGivenParameter ht (by simpa using hname) hvalue
  · refine (gives_markedValue _ _ ts).bind fun value _ => gives_ok fun _ hvalue ht => ?_
    exact isGivenParameter ht (fun n hn => absurd hn (Option.not_mem_none n)) hvalue

theorem yields_parameters :
    Yields AnyShape src.readParameters fun ps =>
      ∀ p ∈ ps, IsGivenParameter src.settings.common p := by
  intro ts
  refine gives_expectMark (fun _ _ => trivial) fun ts => ?_
  split
  · exact Gives.tail (gives_ok fun _ => List.forall_mem_nil _)
  · exact (yields_list (fun _ _ => trivial) yields_parameter ")" _ ts).anyShape

theorem yields_constructor (c : ClassDecl) :
    Yields AnyShape (src.readConstructor c)
      (IsGivenConstructor src.settings.common c.name c.qualifiedName) := by
  intro ts
  refine (gives_preamble ts).bind fun p ts => ?_
  refine (gives_typeParameters ts).loosen.bind fun typeParameters ts => ?_
  refine (gives_expectName _ ts).bind fun _ ts => ?_
  refine (yields_parameters ts).bind fun parameters ts => ?_
  refine (yields_throws ts).bind fun throws ts => ?_
  refine gives_expectMark (fun _ _ => trivial) fun ts => ?_
  refine gives_ok fun _ hthrows hparameters _ hvariables hp => ?_
  have hannotations := forall_mem_withoutNullness p.annotations
  refine ⟨⟨rfl, rfl⟩, ?_, rfl, fun hproper hname => ?_⟩
  · exact {
      owner := rfl
      annotations := hannotations
      typeParameters := fun p hp => (hvariables.1 p hp).regular
      returnType := fun t ht => absurd ht (Option.not_mem_none t)
      parameters := fun p hp => (hparameters p hp).regular
      throws := fun t ht => ⟨(hthrows t ht).1.regular, (hthrows t ht).2⟩ }
  · have hread := hp.1 hproper
    refine ⟨?_, rfl, rfl, rfl, rfl, rfl, fun a ha => hread a (List.mem_filter.mp ha).1⟩
    exact {
      name := hname
      annotations := areTypeAnnotations_of_isReadPreamble hread
      typeParameters := fun p hp => (hvariables.1 p hp).legible hproper
      returnType := fun t ht => absurd ht (Option.not_mem_none t)
      apart := fun t ht => absurd ht (Option.not_mem_none t)
      parameters := fun p hp => (hparameters p hp).legible hproper
      throws := fun t ht => ⟨(hthrows t ht).1.legible hproper, (hthrows t ht).2⟩
      defaultValue := fun v hv => absurd hv (Option.not_mem_none v) }

theorem yields_method (c : ClassDecl) :
    Yields AnyShape (src.readMethod c)
      (IsGivenMethod src.settings.common c.qualifiedName) := by
  intro ts
  refine (gives_preamble ts).bind fun p ts => ?_
  refine (gives_typeParameters ts).loosen.bind fun typeParameters ts₁ => ?_
  refine (gives_memberType p ts₁).loosen.bind fun (returnType, annotations) ts => ?_
  refine (gives_expectName _ ts).bind fun name ts => ?_
  refine (yields_parameters ts).bind fun parameters ts => ?_
  refine (yields_throws ts).bind fun throws ts => ?_
  refine (gives_markedValue _ _ ts).bind fun value ts => ?_
  refine gives_expectMark (fun _ _ => trivial) fun ts => ?_
  refine gives_ok fun _ hvalue hthrows hparameters hname htype hvariables hp => ?_
  refine ⟨⟨rfl, rfl⟩, ?_, rfl, fun hproper => ?_⟩
  · exact {
      owner := rfl
      annotations := htype.annotations
      typeParameters := fun p hp => (hvariables.1 p hp).regular
      returnType := fun _ ht => Option.some.inj ht ▸ htype.type
      parameters := fun p hp => (hparameters p hp).regular
      throws := fun t ht => ⟨(hthrows t ht).1.regular, (hthrows t ht).2⟩ }
  · obtain ⟨hmember, hannotations⟩ := htype.legible hproper (hp.1 hproper)
    refine ⟨?_, rfl, rfl, rfl, ?_⟩
    · exact {
        name := hname.1
        annotations := hannotations
        typeParameters := fun p hp => (hvariables.1 p hp).legible hproper
        returnType := fun _ ht => Option.some.inj ht ▸ hmember
        apart := fun _ ht => Option.some.inj ht ▸ htype.unbounded.ne hname.2
        parameters := fun p hp => (hparameters p hp).legible hproper
        throws := fun t ht => ⟨(hthrows t ht).1.legible hproper, (hthrows t ht).2⟩
        defaultValue := hvalue }
    · -- the type stands right behind the preamble
      rintro hcommon (rfl : typeParameters = []) hnone u ⟨⟩
      obtain rfl := hvariables.2 rfl
      exact htype.front hcommon hp.2 hnone

theorem yields_field (c : ClassDecl) (isEnumConstant : Bool) :
    Yields AnyShape (src.readField c isEnumConstant) fun x =>
      IsGivenField src.settings.common c.qualifiedName x ∧ x.isEnumConstant = isEnumConstant := by
  intro ts
  refine (gives_preamble ts).bind fun p ts => ?_
  refine (gives_memberType p ts).loosen.bind fun (type, annotations) ts' => ?_
  refine (gives_expectName _ ts').bind fun name ts₁ => ?_
  refine (gives_markedValue _ _ ts₁).bind fun value ts₁ => ?_
  refine gives_expectMark (fun _ _ => trivial) fun ts₁ => ?_
  refine gives_ok fun _ hvalue hname htype hp => ⟨?_, rfl⟩
  have hgiven : ∀ {t : TypeRef}, IsGivenMemberType src.settings.common p ts (t, annotations) ts' →
      (isEnumConstant = true → IsNonNull t) →
      IsGivenField src.settings.common c.qualifiedName
        { name, owner := c.qualifiedName, modifiers := p.modifiers, type := t, annotations, value,
          isEnumConstant } := by
    intro t ht hconstant
    refine ⟨⟨rfl, rfl⟩, ⟨rfl, ht.annotations, ht.type, hconstant⟩, fun hproper => ?_⟩
    obtain ⟨hmember, hannotations⟩ := ht.legible hproper (hp.1 hproper)
    exact ⟨⟨hname.1, hannotations, hmember, ht.unbounded.ne hname.2, hvalue, hconstant⟩, rfl, rfl,
      fun hcommon hnone => ht.front hcommon hp.2 hnone⟩
  cases isEnumConstant with
  | false => exact hgiven htype (absurd · Bool.false_ne_true)
  | true => exact hgiven (htype.withNullability .nonNull) fun _ => htype.type.isNonNull

end Source

end Signature
end ApiSurface
