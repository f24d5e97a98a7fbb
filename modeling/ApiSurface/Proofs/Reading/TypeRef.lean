import ApiSurface.Proofs.Reading.Annotation
import ApiSurface.Proofs.RoundTrip.TypeList

/-!
# Types that were read

A type that was read is regular: at any depth it agrees with what its name says about null.
Nullability may stand behind a type or in an annotation in front of it; wherever it stands, no
annotation about null is left, and primitives and wildcards are not affected.  If the names of
packages can be put back, the type can also be written and read back unchanged.
-/

namespace ApiSurface

/-! ## Regular types -/

namespace TypeRef

mutual

/-- The type and the types inside it, at any depth. -/
def parts : TypeRef → List TypeRef
  | ⟨name, arguments, dimensions, bound, nullability, annotations⟩ =>
    ⟨name, arguments, dimensions, bound, nullability, annotations⟩ ::
      (partsList arguments ++ partsBound bound)

def partsList : List TypeRef → List TypeRef
  | [] => []
  | t :: ts => parts t ++ partsList ts

/-- The type of a bound and the types inside it. -/
def partsBound : Option (WildcardBound TypeRef) → List TypeRef
  | none => []
  | some (.upper t) => parts t
  | some (.lower t) => parts t

end

theorem mem_partsList_iff {u : TypeRef} {ts : List TypeRef} :
    u ∈ partsList ts ↔ ∃ t ∈ ts, u ∈ t.parts := by
  induction ts with
  | nil => simp [partsList]
  | cons t ts ih => simp [partsList, ih]

/-- What a type says about null agrees with its name, and none of its annotations is about null. -/
structure IsRegular (t : TypeRef) : Prop where
  primitive : t.isPrimitive = true → t.nullability = .nonNull
  wildcard : t.isWildcard = true → t.nullability = .unknown ∧ t.arguments = [] ∧ t.dimensions = 0
  annotations : ∀ a ∈ t.annotations, a.nullness? = none

/-- The type and all types inside it are regular. -/
def IsRegularThroughout (t : TypeRef) : Prop :=
  ∀ u ∈ t.parts, u.IsRegular

theorem isRegularThroughout_iff {t : TypeRef} :
    t.IsRegularThroughout ↔
      t.IsRegular ∧ (∀ u ∈ t.arguments, u.IsRegularThroughout) ∧
        ∀ u ∈ partsBound t.bound, u.IsRegular := by
  obtain ⟨name, arguments, dimensions, bound, nullability, annotations⟩ := t
  have harguments : (∀ u ∈ partsList arguments, u.IsRegular) ↔
      ∀ u ∈ arguments, u.IsRegularThroughout := by
    simp only [mem_partsList_iff]
    exact ⟨fun h t ht u hu => h u ⟨t, ht, hu⟩, fun h u ⟨t, ht, hu⟩ => h t ht u hu⟩
  simp only [IsRegularThroughout, parts, List.forall_mem_cons, List.forall_mem_append]
    at harguments ⊢
  rw [harguments]

/-- Setting what a type says about null keeps it regular. -/
theorem IsRegularThroughout.withNullability
    {t : TypeRef} (h : t.IsRegularThroughout) (n : Nullability) :
    (t.withNullability n).IsRegularThroughout := by
  rw [TypeRef.withNullability]
  split
  · exact h
  · -- neither rule applies to a type that is neither a primitive nor a wildcard
    rename_i hfree
    obtain ⟨hprimitive, hwildcard⟩ : t.isPrimitive = false ∧ t.isWildcard = false := by
      simpa using hfree
    obtain ⟨hself, hinside⟩ := isRegularThroughout_iff.mp h
    refine isRegularThroughout_iff.mpr ⟨⟨fun h => ?_, fun h => ?_, hself.annotations⟩, hinside⟩
    · exact absurd (hprimitive.symm.trans h) (by decide)
    · exact absurd (hwildcard.symm.trans h) (by decide)

theorem IsRegularThroughout.annotated
    {t : TypeRef} (h : t.IsRegularThroughout) {annotations : List Annotation}
    (hannotations : ∀ a ∈ annotations, a.nullness? = none) :
    { t with annotations }.IsRegularThroughout := by
  obtain ⟨hself, hinside⟩ := isRegularThroughout_iff.mp h
  exact isRegularThroughout_iff.mpr ⟨⟨hself.primitive, hself.wildcard, hannotations⟩, hinside⟩

theorem isRegularThroughout_wildcard
    {bound : Option (WildcardBound TypeRef)} (h : ∀ u ∈ partsBound bound, u.IsRegular) :
    (TypeRef.wildcard bound).IsRegularThroughout :=
  isRegularThroughout_iff.mpr
    ⟨⟨by simp [TypeRef.wildcard, isPrimitive, primitives], fun _ => ⟨rfl, rfl, rfl⟩,
      by simp [TypeRef.wildcard]⟩, by simp [TypeRef.wildcard], h⟩

theorem isRegularThroughout_array_named
    {name : String} (hname : name ≠ "?") {arguments : List TypeRef}
    (h : ∀ t ∈ arguments, t.IsRegularThroughout) (dimensions : Nat) :
    ({ named name with arguments }.array dimensions).IsRegularThroughout := by
  refine isRegularThroughout_iff.mpr ⟨⟨?_, ?_, ?_⟩, h, ?_⟩
  · intro hprimitive
    obtain ⟨rfl, hmem⟩ : dimensions = 0 ∧ name ∈ primitives := by
      simpa [isPrimitive, array, named] using hprimitive
    simp [array, named, hmem]
  · simp [isWildcard, array, named, hname]
  · simp [array, named]
  · simp [array, named, partsBound]

/-- A regular type that is set to nonnull is nonnull, unless it is a wildcard. -/
theorem IsRegularThroughout.isNonNull
    {t : TypeRef} (h : t.IsRegularThroughout) :
    Signature.IsNonNull (t.withNullability .nonNull) := by
  rw [TypeRef.withNullability]
  split
  · rename_i hfixed
    rcases Bool.or_eq_true_iff.mp hfixed with hprimitive | hwildcard
    · exact .inl ((isRegularThroughout_iff.mp h).1.primitive hprimitive)
    · exact .inr (by simpa [isWildcard] using hwildcard)
  · exact .inl rfl

end TypeRef

namespace Signature

open Scan (IsName)

theorem withNullability_name (t : TypeRef) (n : Nullability) :
    (t.withNullability n).name = t.name := by
  rw [TypeRef.withNullability]
  split <;> rfl

theorem withNullability_annotations (t : TypeRef) (n : Nullability) :
    (t.withNullability n).annotations = t.annotations := by
  rw [TypeRef.withNullability]
  split <;> rfl

theorem endsBare_withNullability (t : TypeRef) (n : Nullability) :
    endsBare (t.withNullability n) = endsBare t := by
  rw [TypeRef.withNullability]
  split
  · rfl
  · cases t
    rfl

theorem withNullability_dimensions (t : TypeRef) (n : Nullability) :
    (t.withNullability n).dimensions = t.dimensions := by
  rw [TypeRef.withNullability]
  split <;> rfl

theorem atWord_inj
    {word word' : String} {ts : List Token} (h : atWord word ts = true)
    (h' : atWord word' ts = true) : word = word' := by
  cases ts with
  | nil => cases h
  | cons t ts => rw [← (Token.isWord_iff.mp h).2, (Token.isWord_iff.mp h').2]

theorem forall_mem_withoutNullness (annotations : List Annotation) :
    ∀ a ∈ withoutNullness annotations, a.nullness? = none := by
  intro a ha
  exact Option.isNone_iff_eq_none.mp (List.mem_filter.mp ha).2

/-- A regular type as read; nothing that stood in front of it is left but annotations that are not
about null. -/
structure ReadType.IsRegular (t : ReadType) : Prop where
  annotations : ∀ a ∈ t.annotations, a.nullness? = none
  type : t.type.IsRegularThroughout
  varargs : t.varargs = true → 0 < t.type.dimensions

theorem ReadType.IsRegular.owned {t : ReadType} (h : t.IsRegular) : t.owned.IsRegularThroughout :=
  h.type.annotated h.annotations

/-- What is known of a type that was read. -/
structure IsReadType (common : Option CommonPackages) (t : ReadType) : Prop where
  annotations : AreTypeAnnotations common t.annotations
  type : IsLegibleType common t.type
  plain : t.type.annotations = []
  varargs : t.varargs = true → t.type.name ≠ "?" ∧ 0 < t.type.dimensions

theorem IsReadType.owned
    {common : Option CommonPackages} {t : ReadType} (h : IsReadType common t) :
    IsLegibleType common t.owned :=
  h.type.withAnnotations h.annotations

theorem areTypeAnnotations_withoutNullness
    {common : Option CommonPackages} {annotations : List Annotation}
    (h : ∀ a ∈ annotations, IsLegibleAnnotation common a) :
    AreTypeAnnotations common (withoutNullness annotations) := by
  intro a ha
  obtain ⟨hmem, hnone⟩ := List.mem_filter.mp ha
  exact ⟨h a hmem, Option.isNone_iff_eq_none.mp hnone⟩

/-- All that is known of a type that was read. -/
structure IsGivenType (common : Option CommonPackages) (t : TypeRef) : Prop where
  regular : t.IsRegularThroughout
  legible : AreProper common → IsLegibleType common t

/-- All that is known of a type that was read, with the annotations in front of it. -/
structure IsGivenReadType (common : Option CommonPackages) (t : ReadType) : Prop where
  regular : t.IsRegular
  legible : AreProper common → IsReadType common t

/-- All that is known of a type variable that was read. -/
structure IsGivenVariable (common : Option CommonPackages) (p : TypeParameter) : Prop where
  regular : ∀ t ∈ p.bounds, t.IsRegularThroughout
  legible : AreProper common → IsLegibleVariable common p

/-- Where a type ends with the mark of a wildcard, no bound stands behind it. -/
def Unbounded (t : TypeRef) (rest : List Token) : Prop :=
  endsBare t = true → atWord "extends" rest = false ∧ atWord "super" rest = false

/-- All that is known of a type that was read, with the tokens in front of which it was read and
those behind it.  Where nothing in front of it looks like the start of an annotation type, the type
has the name that is written. -/
structure IsGivenTypeAt (common : Option CommonPackages) (ts : List Token) (t : ReadType)
    (rest : List Token) : Prop extends IsGivenReadType common t where
  unbounded : Unbounded t.type rest
  named : common = none → (atMark "@" ts = true → atWord "interface" ts.tail = true) →
    (∀ a ∈ t.annotations, a.name ≠ "interface") →
      t.type.name = "?" ∨ atWord t.type.name ts = true

/-- No annotations are read where the first would look like the start of an annotation type. -/
theorem eq_of_ne_interface
    {annotations : List Annotation} {ts rest : List Token}
    (h : rest = ts ∨ atMark "@" ts = true ∧ ∃ a ∈ annotations, atWord a.name ts.tail = true)
    (hstart : atMark "@" ts = true → atWord "interface" ts.tail = true)
    (hnone : ∀ a ∈ withoutNullness annotations, a.name ≠ "interface") : rest = ts := by
  rcases h with heq | ⟨hat, a, ha, hname⟩
  · exact heq
  · have hinterface : a.name = "interface" := atWord_inj hname (hstart hat)
    refine absurd hinterface (hnone a (List.mem_filter.mpr ⟨ha, ?_⟩))
    unfold Annotation.nullness?
    rw [hinterface]
    decide

section

variable {common : Option CommonPackages}

theorem IsGivenReadType.owned {t : ReadType} (h : IsGivenReadType common t) :
    IsGivenType common t.owned :=
  ⟨h.regular.owned, fun hproper => (h.legible hproper).owned⟩

theorem IsGivenType.withNullability
    {t : TypeRef} (h : IsGivenType common t) (n : Nullability) :
    IsGivenType common (t.withNullability n) :=
  ⟨h.regular.withNullability n, fun hproper => (h.legible hproper).withNullability n⟩

theorem isGivenType_upper {t : TypeRef} (h : IsGivenType common t) :
    IsGivenType common (.wildcard (some (.upper t))) :=
  ⟨TypeRef.isRegularThroughout_wildcard h.regular,
    fun hproper => .upper (List.forall_mem_nil _) (h.legible hproper)⟩

theorem isGivenType_lower {t : TypeRef} (h : IsGivenType common t) :
    IsGivenType common (.wildcard (some (.lower t))) :=
  ⟨TypeRef.isRegularThroughout_wildcard h.regular,
    fun hproper => .lower (List.forall_mem_nil _) (h.legible hproper)⟩

theorem isGivenType_bare : IsGivenType common (.wildcard none) :=
  ⟨TypeRef.isRegularThroughout_wildcard (by simp [TypeRef.partsBound]),
    fun _ => .bare (List.forall_mem_nil _)⟩

theorem isLegibleType_array_named
    {name : String} (hname : IsName name) {arguments : List TypeRef}
    (h : ∀ t ∈ arguments, IsLegibleType common t) (dimensions : Nat) :
    IsLegibleType common ({ TypeRef.named name with arguments }.array dimensions) := by
  refine .named (List.forall_mem_nil _) hname (fun hnone hprimitive => ?_) h
  obtain rfl : dimensions = 0 := by simpa [TypeRef.named] using hnone
  have hprimitive : name ∈ TypeRef.primitives := hprimitive
  simp [TypeRef.named, hprimitive]

end

/-! ## Reading types -/

/-- The full name of a type is never the mark of a wildcard. -/
theorem Source.typeName_ne_wildcard {src : Source} {name : String} (h : Scan.IsName name) :
    src.typeName name ≠ "?" := by
  rw [typeName]
  split
  · exact h.ne_wildcard
  split
  · exact h.ne_wildcard
  rw [CommonPackages.qualify]
  split
  · intro heq
    have hdot : '.' ∈ "?".toList := by
      rw [← heq]
      simp [String.toList_append]
    exact absurd hdot (by decide)
  · exact h.ne_wildcard

/-- Marks of dimensions are taken, and dots count as one of them. -/
theorem readDimensions_spec (varargs : Bool) (ts : List Token) :
    (∃ used, ts = used ++ (readDimensions varargs ts).2.2 ∧ Balanced false used) ∧
      ((readDimensions varargs ts).2.1 = true → varargs = true ∨
        0 < (readDimensions varargs ts).1) := by
  fun_induction readDimensions varargs ts with
  | case1 varargs t u ts hbrackets d v rest hread ih =>
    obtain ⟨⟨used, hused, hbalanced⟩, -⟩ := ih
    rw [hread] at hused
    obtain ⟨hopen, hclose⟩ := Bool.and_eq_true_iff.mp hbrackets
    have hfront : Balanced false ([t] ++ [u]) :=
      .append (.mark hopen (by decide)) (.mark hclose (by decide))
    exact ⟨⟨[t] ++ [u] ++ used, by rw [hused]; rfl, hfront.append hbalanced⟩,
      fun _ => .inr (Nat.succ_pos d)⟩
  | case2 varargs t u ts _ hdots d v rest hread ih =>
    obtain ⟨⟨used, hused, hbalanced⟩, -⟩ := ih
    rw [hread] at hused
    have hfront : Balanced false [t] := .mark (Bool.and_eq_true_iff.mp hdots).2 (by decide)
    exact ⟨⟨[t] ++ used, by rw [hused]; rfl, hfront.append hbalanced⟩,
      fun _ => .inr (Nat.succ_pos d)⟩
  | case3 => exact ⟨⟨[], rfl, .nil⟩, .inl⟩
  | case4 varargs t hdots =>
    exact ⟨⟨[t], rfl, .mark (Bool.and_eq_true_iff.mp hdots).2 (by decide)⟩,
      fun _ => .inr Nat.one_pos⟩
  | case5 => exact ⟨⟨[], rfl, .nil⟩, .inl⟩
  | case6 => exact ⟨⟨[], rfl, .nil⟩, .inl⟩

theorem readSuffix_spec (ts : List Token) :
    ∃ used, ts = used ++ (readSuffix ts).2 ∧ Balanced false used := by
  have hmark : ∀ {mark : String}, atMark mark ts = true → mark ∉ listMarks →
      ∃ used, ts = used ++ ts.tail ∧ Balanced false used := by
    intro mark hat hplain
    cases ts with
    | nil => cases hat
    | cons t ts => exact ⟨[t], rfl, .mark hat hplain⟩
  rw [readSuffix]
  split
  · rename_i hat
    exact hmark hat (by decide)
  split
  · rename_i hat
    exact hmark hat (by decide)
  · exact ⟨[], rfl, .nil⟩

namespace Source

theorem gives_bound
    {common : Option CommonPackages} {type : Reader ReadType}
    (htype : ∀ ts, Gives (Balanced false) ts (type ts) (IsGivenTypeAt common ts))
    (ts : List Token) :
    Gives (Balanced false) ts (readBound type ts) fun bound rest =>
      IsGivenType common (.wildcard bound) ∧ Unbounded (.wildcard bound) rest := by
  rw [readBound]
  split
  · rename_i hat
    refine Gives.word ?_ hat
    refine (htype ts.tail).map (fun _ _ => rfl) fun t rest ht => ?_
    exact ⟨isGivenType_upper ht.owned, by
      simpa [Unbounded, endsBare, TypeRef.wildcard, boundEndsBare] using ht.unbounded⟩
  split
  · rename_i hat
    refine Gives.word ?_ hat
    refine (htype ts.tail).map (fun _ _ => rfl) fun t rest ht => ?_
    exact ⟨isGivenType_lower ht.owned, by
      simpa [Unbounded, endsBare, TypeRef.wildcard, boundEndsBare] using ht.unbounded⟩
  · rename_i hextends hsuper
    exact gives_ok fun _ => ⟨isGivenType_bare, fun _ => ⟨by simpa using hextends,
      by simpa using hsuper⟩⟩

variable {src : Source}

theorem yields_arguments
    {type : Reader ReadType}
    (htype : Yields (Balanced false) type (IsGivenReadType src.settings.common)) :
    Yields (Balanced false) (src.readArguments type) fun arguments =>
      ∀ t ∈ arguments, IsGivenType src.settings.common t := by
  intro ts
  rw [readArguments]
  split
  · exact gives_ok fun _ => List.forall_mem_nil _
  · rename_i hat
    refine Gives.angle ?_ (by simpa using hat)
    refine (yields_separated (fun _ => .comma) (fun ts => (htype ts).loosen) _ ts.tail).bindTo
      fun types ts => ?_
    refine gives_expectClose (fun _ => rfl) fun _ htypes => ?_
    exact List.forall_mem_map.mpr fun t ht => (htypes.2 t ht).owned

/-- A type is known once its parts are. -/
theorem isGivenReadType_named
    {annotations : List Annotation}
    (hannotations : ∀ a ∈ annotations,
      AreProper src.settings.common → IsLegibleAnnotation src.settings.common a)
    {name : String} (hname : IsName name) {arguments : List TypeRef}
    (harguments : ∀ t ∈ arguments, IsGivenType src.settings.common t) {dimensions : Nat}
    {varargs : Bool} (hvarargs : varargs = true → 0 < dimensions) (n : Nullability) :
    IsGivenReadType src.settings.common
      { annotations := withoutNullness annotations
        type := TypeRef.withNullability
          ({ TypeRef.named (src.typeName name) with arguments }.array dimensions) n
        varargs } := by
  have hname' := src.typeName_ne_wildcard hname
  have hdimensions : varargs = true → 0 < (TypeRef.withNullability
      ({ TypeRef.named (src.typeName name) with arguments }.array dimensions) n).dimensions := by
    intro hdots
    rw [withNullability_dimensions]
    simpa [TypeRef.array, TypeRef.named] using hvarargs hdots
  refine ⟨⟨forall_mem_withoutNullness annotations, ?_, hdimensions⟩, fun hproper => ?_⟩
  · exact (TypeRef.isRegularThroughout_array_named hname'
      (fun t ht => (harguments t ht).regular) dimensions).withNullability n
  · have hlegible := isLegibleType_array_named (isName_typeName hproper hname)
      (fun t ht => (harguments t ht).legible hproper) dimensions
    refine ⟨areTypeAnnotations_withoutNullness fun a ha => hannotations a ha hproper,
      hlegible.withNullability n, withNullability_annotations _ _, fun hdots => ⟨?_, ?_⟩⟩
    · rw [withNullability_name]
      exact hname'
    · exact hdimensions hdots

theorem gives_typeWithin (depth : Nat) (ts : List Token) :
    Gives (Balanced false) ts (src.readTypeWithin depth ts)
      (IsGivenTypeAt src.settings.common ts) := by
  induction depth generalizing ts with
  | zero => exact gives_error _
  | succ depth ih =>
    have htype : Yields (Balanced false) (src.readTypeWithin depth)
        (IsGivenReadType src.settings.common) :=
      fun ts => (ih ts).imp fun _ _ ht => ht.toIsGivenReadType
    refine (gives_annotations _ ts).bind fun annotations ts₁ => ?_
    simp only
    split
    · rename_i hat
      refine Gives.mark ?_ hat fun _ h => .mark h (by decide)
      refine (gives_bound ih ts₁.tail).bind fun bound _ => gives_ok fun _ hbound hannotations => ?_
      exact {
        regular := ⟨forall_mem_withoutNullness annotations, hbound.1.regular, by simp⟩
        legible := fun hproper =>
          ⟨areTypeAnnotations_withoutNullness fun a ha => hannotations.1 a ha hproper,
            hbound.1.legible hproper, rfl, by simp⟩
        unbounded := hbound.2
        named := fun _ _ _ => .inl rfl }
    refine (gives_expectName _ ts₁).bind fun name ts₂ => ?_
    refine (yields_arguments htype ts₂).bind fun arguments ts₃ => ?_
    -- the marks behind the type are read over
    obtain ⟨⟨used, hused, hbalanced⟩, hvarargs⟩ := readDimensions_spec false ts₃
    obtain ⟨used', hused', hbalanced'⟩ := readSuffix_spec (readDimensions false ts₃).2.2
    intro t rest h
    cases h
    refine ⟨used ++ used', by rw [List.append_assoc, ← hused', ← hused],
      hbalanced.append hbalanced', fun _ harguments hname hannotations => ?_⟩
    refine ⟨isGivenReadType_named hannotations.1 hname.1 harguments
      (fun hdots => (hvarargs hdots).resolve_left (by simp)) _, ?_, ?_⟩
    · rw [Unbounded, endsBare_withNullability]
      simp [TypeRef.array, TypeRef.named, endsBare, src.typeName_ne_wildcard hname.1]
    · intro hcommon hstart hnone
      rw [← eq_of_ne_interface (hannotations.2 hcommon) hstart hnone, withNullability_name]
      change src.typeName name = "?" ∨ atWord (src.typeName name) ts₁ = true
      rw [typeName, hcommon]
      exact .inr hname.2

/-! ## Lists of types -/

theorem gives_type (ts : List Token) :
    Gives (Balanced false) ts (src.readType ts) (IsGivenTypeAt src.settings.common ts) :=
  gives_typeWithin ts.length ts

theorem yields_ownedType :
    Yields (Balanced false) src.readOwnedType (IsGivenType src.settings.common) :=
  fun ts => (gives_type ts).map (fun _ _ => rfl) fun _ _ ht => ht.owned

theorem yields_nonNullType :
    Yields (Balanced false) src.readNonNullType fun t =>
      IsGivenType src.settings.common t ∧ IsNonNull t :=
  fun ts => (yields_ownedType ts).map (fun _ _ => rfl) fun _ _ ht =>
    ⟨ht.withNullability .nonNull, ht.regular.isNonNull⟩

theorem yields_throws :
    Yields AnyShape src.readThrows fun types =>
      ∀ t ∈ types, IsGivenType src.settings.common t ∧ IsNonNull t := by
  intro ts
  rw [readThrows]
  split
  · refine Gives.tail ?_
    exact (yields_separated (fun _ _ => trivial) (fun ts => (yields_nonNullType ts).loosen)
      _ ts.tail).imp fun _ _ => And.right
  · exact gives_ok fun _ => List.forall_mem_nil _

theorem yields_supertypes (rounds : Nat) :
    Yields AnyShape (src.readSupertypes rounds) fun types =>
      ∀ t ∈ types, IsGivenType src.settings.common t ∧ IsNonNull t := by
  induction rounds with
  | zero => exact fun ts => gives_error _
  | succ rounds ih =>
    intro ts
    refine (yields_nonNullType ts).loosen.bind fun t ts => ?_
    simp only
    split
    · refine Gives.tail ?_
      exact (ih ts.tail).map (fun _ _ => rfl) fun _ _ hall ht => List.forall_mem_cons.mpr ⟨ht, hall⟩
    split
    · exact (ih ts).map (fun _ _ => rfl) fun _ _ hall ht => List.forall_mem_cons.mpr ⟨ht, hall⟩
    · exact gives_ok fun _ ht => List.forall_mem_singleton.mpr ht

theorem yields_supertypesAfter (word : String) :
    Yields AnyShape (src.readSupertypesAfter word) fun types =>
      ∀ t ∈ types, IsGivenType src.settings.common t ∧ IsNonNull t := by
  intro ts
  rw [readSupertypesAfter]
  split
  · exact (yields_supertypes _ ts.tail).tail
  · exact gives_ok fun _ => List.forall_mem_nil _

/-! ## Type variables -/

theorem yields_bounds :
    Yields (Balanced false) src.readBounds fun types =>
      ∀ t ∈ types, IsGivenType src.settings.common t := by
  intro ts
  rw [readBounds]
  split
  · rename_i hat
    refine Gives.word ?_ hat
    exact (yields_separated (fun _ h => .mark h (by decide)) yields_ownedType _ ts.tail).imp
      fun _ _ => And.right
  · exact gives_ok fun _ => List.forall_mem_nil _

theorem yields_typeParameter :
    Yields (Balanced false) src.readTypeParameter (IsGivenVariable src.settings.common) := by
  intro ts
  refine (gives_expectName _ ts).bind fun name ts => ?_
  refine (yields_bounds ts).bind fun bounds ts => gives_ok fun _ hbounds hname => ?_
  exact ⟨fun t ht => (hbounds t ht).regular,
    fun hproper => ⟨hname.1, fun t ht => (hbounds t ht).legible hproper⟩⟩

/-- Where no type variables are read, no token is taken. -/
theorem gives_typeParameters (ts : List Token) :
    Gives (Balanced false) ts (src.readTypeParameters ts) fun ps rest =>
      (∀ p ∈ ps, IsGivenVariable src.settings.common p) ∧ (ps = [] → rest = ts) := by
  rw [readTypeParameters]
  split
  · exact gives_ok fun _ => ⟨List.forall_mem_nil _, fun _ => rfl⟩
  · rename_i hat
    refine Gives.angle ?_ (by simpa using hat)
    refine (yields_separated (fun _ => .comma) (fun ts => (yields_typeParameter ts).loosen)
      _ ts.tail).bindTo fun ps ts => ?_
    refine gives_expectClose (fun _ => rfl) fun _ hps => ?_
    exact ⟨hps.2, fun hnil => absurd hnil hps.1⟩

end Source

end Signature
end ApiSurface
