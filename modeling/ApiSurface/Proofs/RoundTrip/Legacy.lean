import ApiSurface.Proofs.RoundTrip.Told

/-!
# What the oldest version tells

A text of the oldest version has no annotations, no names and defaults of parameters and nothing
about null, and it leaves out `final` where a class rules out overriding.  It is the text, with
nothing left out, of the codebase without these things.
-/

namespace ApiSurface

/-! ## Items without what is left out -/

namespace TypeRef

mutual

/-- The type without annotations and with nothing known about null, unless it is a primitive. -/
def legacy : TypeRef → TypeRef
  | ⟨name, arguments, dimensions, bound, nullability, _⟩ =>
    { name
      arguments := legacyList arguments
      dimensions
      bound := legacyBound bound
      nullability := if dimensions == 0 && primitives.contains name then nullability else .unknown }

/-- The types of a list without annotations and with nothing known about null. -/
def legacyList : List TypeRef → List TypeRef
  | [] => []
  | t :: ts => legacy t :: legacyList ts

/-- A bound without annotations and with nothing known about null. -/
def legacyBound : Option (WildcardBound TypeRef) → Option (WildcardBound TypeRef)
  | none => none
  | some (.upper t) => some (.upper (legacy t))
  | some (.lower t) => some (.lower (legacy t))

end

/-- The type in a place where it never admits null, without anything else known about null. -/
def legacyNonNull (t : TypeRef) : TypeRef :=
  t.legacy.withNullability .nonNull

end TypeRef

/-- The type variable with its bounds as the oldest version tells them. -/
def TypeParameter.legacy (p : TypeParameter) : TypeParameter :=
  { p with bounds := p.bounds.map TypeRef.legacy }

/-- The parameter with nothing but its type. -/
def Parameter.legacy (p : Parameter) : Parameter :=
  { type := p.type.legacy, varargs := p.varargs }

/-- The method as the oldest version tells it; the flag says that its class rules out overriding. -/
def Method.legacy (implied : Bool) (m : Method) : Method :=
  { m with
    modifiers := { m.modifiers.ofMethod with isFinal := m.modifiers.isFinal && !implied }
    returnType := m.returnType.map TypeRef.legacy
    typeParameters := m.typeParameters.map TypeParameter.legacy
    parameters := m.parameters.map Parameter.legacy
    throws := m.throws.map TypeRef.legacyNonNull
    annotations := []
    defaultValue := none }

/-- The field as the oldest version tells it, with its value. -/
def Field.legacy (x : Field) : Field :=
  { x with
    modifiers := x.modifiers.ofField
    type := if x.isEnumConstant then x.type.legacyNonNull else x.type.legacy
    annotations := [] }

namespace ClassDecl

def rulesOutOverriding (c : ClassDecl) : Bool :=
  c.kind == .enumeration || c.modifiers.isFinal

/-- The class and its members as the oldest version tells them. -/
def legacy (c : ClassDecl) : ClassDecl :=
  { c with
    modifiers := c.modifiers.ofClass
    typeParameters := c.typeParameters.map TypeParameter.legacy
    superclass := c.superclass.map TypeRef.legacyNonNull
    interfaces := c.interfaces.map TypeRef.legacyNonNull
    annotations := []
    constructors := c.constructors.map (Method.legacy c.rulesOutOverriding)
    methods := c.methods.map (Method.legacy c.rulesOutOverriding)
    fields := c.fields.map Field.legacy }

theorem legacy_qualifiedName (c : ClassDecl) : c.legacy.qualifiedName = c.qualifiedName :=
  rfl

end ClassDecl

/-- The codebase with its classes as the oldest version tells them. -/
def Codebase.legacy (cb : Codebase) : Codebase :=
  { cb with classes := cb.classes.map ClassDecl.legacy ClassDecl.legacy_qualifiedName }

theorem Codebase.mem_classes_legacy {cb : Codebase} {c : ClassDecl} :
    c ∈ cb.legacy.classes.items ↔ ∃ d ∈ cb.classes.items, d.legacy = c :=
  List.mem_map

theorem Codebase.IsIndexed.legacy {cb : Codebase} (h : cb.IsIndexed) : cb.legacy.IsIndexed :=
  h.map ClassDecl.legacy_qualifiedName fun _ => rfl

/-! ## Types -/

namespace TypeRef

theorem legacyList_eq_map (ts : List TypeRef) : legacyList ts = ts.map legacy := by
  induction ts with
  | nil => rfl
  | cons t ts ih => rw [legacyList, ih, List.map_cons]

@[simp]
theorem legacy_name (t : TypeRef) : t.legacy.name = t.name := by
  cases t
  rfl

@[simp]
theorem legacy_dimensions (t : TypeRef) : t.legacy.dimensions = t.dimensions := by
  cases t
  rfl

theorem legacy_bound (t : TypeRef) : t.legacy.bound = legacyBound t.bound := by
  cases t
  rfl

@[simp]
theorem legacy_annotations (t : TypeRef) : t.legacy.annotations = [] := by
  cases t
  rfl

theorem legacy_nullability (t : TypeRef) :
    t.legacy.nullability = if t.isPrimitive then t.nullability else .unknown := by
  cases t
  rfl

@[simp]
theorem isPrimitive_legacy (t : TypeRef) : t.legacy.isPrimitive = t.isPrimitive := by
  cases t
  rfl

@[simp]
theorem isWildcard_legacy (t : TypeRef) : t.legacy.isWildcard = t.isWildcard := by
  cases t
  rfl

mutual

theorem legacy_legacy : (t : TypeRef) → t.legacy.legacy = t.legacy
  | ⟨name, arguments, dimensions, bound, nullability, _⟩ => by
    simp only [legacy, legacyList_legacyList arguments, legacyBound_legacyBound bound]
    split <;> rfl

theorem legacyList_legacyList : (ts : List TypeRef) → legacyList (legacyList ts) = legacyList ts
  | [] => rfl
  | t :: ts => by rw [legacyList, legacyList, legacy_legacy t, legacyList_legacyList ts]

theorem legacyBound_legacyBound :
    (bound : Option (WildcardBound TypeRef)) → legacyBound (legacyBound bound) = legacyBound bound
  | none => rfl
  | some (.upper t) => by rw [legacyBound, legacyBound, legacy_legacy t]
  | some (.lower t) => by rw [legacyBound, legacyBound, legacy_legacy t]

end

mutual

theorem canonical_legacy : (t : TypeRef) → t.legacy.canonical = t.canonical
  | ⟨name, arguments, dimensions, bound, nullability, _⟩ => by
    simp only [legacy, canonical, canonicalList_legacyList arguments,
      canonicalBound_legacyBound bound]

theorem canonicalList_legacyList :
    (ts : List TypeRef) → canonicalList (legacyList ts) = canonicalList ts
  | [] => rfl
  | t :: ts => by
    rw [legacyList, canonicalList, canonicalList, canonical_legacy t, canonicalList_legacyList ts]

theorem canonicalBound_legacyBound :
    (bound : Option (WildcardBound TypeRef)) →
      canonicalBound (legacyBound bound) = canonicalBound bound
  | none => rfl
  | some (.upper t) => by rw [legacyBound, canonicalBound, canonicalBound, canonical_legacy t]
  | some (.lower t) => by rw [legacyBound, canonicalBound, canonicalBound, canonical_legacy t]

end

theorem isPrimitive_withNullability (t : TypeRef) (n : Nullability) :
    (t.withNullability n).isPrimitive = t.isPrimitive := by
  rw [withNullability]
  split <;> rfl

theorem legacyNonNull_name (t : TypeRef) : t.legacyNonNull.name = t.name := by
  rw [legacyNonNull, Signature.withNullability_name, legacy_name]

theorem isPrimitive_legacyNonNull (t : TypeRef) :
    t.legacyNonNull.isPrimitive = t.isPrimitive := by
  rw [legacyNonNull, isPrimitive_withNullability, isPrimitive_legacy]

/-- What was known about null is left out, wherever it came from. -/
theorem legacy_withNullability (t : TypeRef) (n : Nullability) :
    (t.withNullability n).legacy = t.legacy := by
  obtain ⟨name, arguments, dimensions, bound, nullability, annotations⟩ := t
  rw [withNullability]
  split
  · rfl
  · rename_i hother
    have hprimitive : (dimensions == 0 && primitives.contains name) = false := by
      simp only [isPrimitive, Bool.or_eq_true, not_or, Bool.not_eq_true] at hother
      exact hother.1
    simp only [legacy, hprimitive, Bool.false_eq_true, if_false]

theorem legacyNonNull_legacyNonNull (t : TypeRef) :
    t.legacyNonNull.legacyNonNull = t.legacyNonNull := by
  simp only [legacyNonNull, legacy_withNullability, legacy_legacy]

/-- Erasure looks at names and bounds alone. -/
theorem erasedName_legacy (scope : List TypeParameter) (steps : Nat) (t : TypeRef) :
    erasedName (scope.map TypeParameter.legacy) steps t.legacy = erasedName scope steps t := by
  have hfind : ∀ name, (scope.map TypeParameter.legacy).find? (fun p => p.name == name) =
      (scope.find? fun p => p.name == name).map TypeParameter.legacy := by
    intro name
    rw [List.find?_map]
    rfl
  -- The induction is on the number of bounds that may still be followed.
  induction steps generalizing t with
  | zero =>
    rw [erasedName.eq_def, erasedName.eq_def scope]
    simp only [isWildcard_legacy, legacy_name, hfind]
    cases t.isWildcard with
    | true => simp
    | false => cases scope.find? fun p => p.name == t.name <;> simp
  | succ steps ih =>
    rw [erasedName.eq_def, erasedName.eq_def scope]
    simp only [isWildcard_legacy, legacy_name, legacy_bound, hfind]
    cases t.isWildcard with
    | true =>
      match t.bound with
      | none => rfl
      | some (.lower bound) => rfl
      | some (.upper bound) => exact ih bound
    | false =>
      cases scope.find? fun p => p.name == t.name with
      | none => rfl
      | some p =>
        cases hbounds : p.bounds with
        | nil => simp [TypeParameter.legacy, hbounds]
        | cons bound others => simpa [TypeParameter.legacy, hbounds] using ih bound

theorem erased_legacy (scope : List TypeParameter) (t : TypeRef) :
    t.legacy.erased (scope.map TypeParameter.legacy) = t.erased scope := by
  rw [erased, erased, erasedName_legacy, legacy_dimensions]

end TypeRef

/-! ## Members and classes -/

theorem TypeParameter.legacy_legacy (p : TypeParameter) : p.legacy.legacy = p.legacy := by
  simp only [legacy, List.map_map, Function.comp_def, TypeRef.legacy_legacy]

theorem Parameter.legacy_legacy (p : Parameter) : p.legacy.legacy = p.legacy := by
  simp only [legacy, TypeRef.legacy_legacy]

namespace Method

variable (implied : Bool) (m : Method)

theorem legacy_legacy : (m.legacy implied).legacy implied = m.legacy implied := by
  simp only [legacy, Modifiers.ofMethod, Option.map_map, List.map_map, Function.comp_def,
    TypeRef.legacy_legacy, TypeParameter.legacy_legacy, Parameter.legacy_legacy,
    TypeRef.legacyNonNull_legacyNonNull, Bool.and_assoc, Bool.and_self]

theorem parameterText_legacy : (m.legacy implied).parameterText = m.parameterText := by
  simp only [parameterText, legacy, List.map_map, Function.comp_def, Parameter.legacy,
    TypeRef.canonical_legacy]

theorem signatureIn_legacy (scope : List TypeParameter) :
    (m.legacy implied).signatureIn (scope.map TypeParameter.legacy) = m.signatureIn scope := by
  simp only [signatureIn, legacy, List.map_map, Function.comp_def, Parameter.legacy,
    ← List.map_append, TypeRef.erased_legacy]

end Method

theorem MemberOrder.compareMethods_legacy (order : MemberOrder) (implied : Bool) (a b : Method) :
    order.compareMethods (a.legacy implied) (b.legacy implied) = order.compareMethods a b := by
  simp only [compareMethods, Method.parameterText_legacy]
  rfl

theorem Field.legacy_typeName (x : Field) : x.legacy.type.name = x.type.name := by
  simp only [legacy]
  split
  · exact x.type.legacyNonNull_name
  · exact x.type.legacy_name

theorem Field.isPrimitive_legacy (x : Field) :
    x.legacy.type.isPrimitive = x.type.isPrimitive := by
  simp only [legacy]
  split
  · exact x.type.isPrimitive_legacyNonNull
  · exact x.type.isPrimitive_legacy

theorem Field.legacy_legacy (x : Field) : x.legacy.legacy = x.legacy := by
  by_cases hkind : x.isEnumConstant = true
  · simp only [legacy, Modifiers.ofField, hkind, if_true, TypeRef.legacyNonNull_legacyNonNull]
  · simp only [legacy, Modifiers.ofField, hkind, Bool.false_eq_true, if_false,
      TypeRef.legacy_legacy]

theorem ClassDecl.legacy_legacy (c : ClassDecl) : c.legacy.legacy = c.legacy := by
  have himplied : c.legacy.rulesOutOverriding = c.rulesOutOverriding := rfl
  rw [legacy, himplied]
  simp only [legacy, Modifiers.ofClass, Option.map_map, List.map_map, Function.comp_def,
    TypeParameter.legacy_legacy, TypeRef.legacyNonNull_legacyNonNull, Method.legacy_legacy,
    Field.legacy_legacy]

/-- It makes no difference whether members are sorted before or after something is left out. -/
theorem ClassDecl.legacy_sorted (order : MemberOrder) (c : ClassDecl) :
    (c.sorted order).legacy = c.legacy.sorted order := by
  have himplied : (c.sorted order).rulesOutOverriding = c.rulesOutOverriding := rfl
  simp only [legacy, himplied]
  simp only [sorted, order.sortMethods_map (order.compareMethods_legacy c.rulesOutOverriding),
    order.sortFields_map (f := Field.legacy) fun _ _ => rfl]

theorem Codebase.legacy_eq_self
    {cb : Codebase} (h : ∀ c ∈ cb.classes.items, c.legacy = c) : cb.legacy = cb := by
  have hclasses : cb.classes.map ClassDecl.legacy ClassDecl.legacy_qualifiedName = cb.classes := by
    refine Catalog.eq_of_mem_iff fun c => ?_
    rw [Catalog.mem_map_iff]
    constructor
    · rintro ⟨d, hd, rfl⟩
      rwa [h d hd]
    · intro hc
      exact ⟨c, hc, h c hc⟩
  rw [legacy, hclasses]

/-! ## The text with nothing left out -/

namespace Signature
namespace WriteSettings

/-- The settings leave out what the oldest version has no place for. -/
structure IsAbridged (s : WriteSettings) : Prop where
  annotations : s.capabilities.annotations = false
  parameterNames : s.capabilities.parameterNames = false
  defaultValues : s.defaultValues = false
  kotlinNulls : s.kotlinNulls = false
  compatible : s.compatible = true

/-- The settings with the same layout that leave nothing out. -/
def unabridged (s : WriteSettings) : WriteSettings :=
  { s with
    capabilities := { s.capabilities with annotations := true, parameterNames := true }
    defaultValues := true }

theorem trailText_eq_empty
    {s : WriteSettings} (h : s.kotlinNulls = false) (marked : Bool) (t : TypeRef) :
    s.trailText marked t = "" := by
  rw [trailText, h, Bool.and_false]
  rfl

/-- The nullability of a type is not written in a place where it never admits null. -/
theorem nonNullTypeText_withNullability (s : WriteSettings) (t : TypeRef) (n : Nullability) :
    s.nonNullTypeText (t.withNullability n) = s.nonNullTypeText t := by
  rw [TypeRef.withNullability]
  split
  · rfl
  · cases t
    rfl

section

variable {s : WriteSettings} (h : s.IsAbridged)

include h

theorem annotationsText_eq_empty (annotations : List Annotation) :
    s.annotationsText annotations = "" := by
  rw [annotationsText, h.annotations]
  rfl

/-- Nothing stands in front of a type: it has no annotations and nothing is known about null. -/
theorem leadText_legacy (marked : Bool) (t : TypeRef) :
    s.unabridged.leadText marked t.legacy = s.leadText marked t := by
  have hnullness : (if marked && !s.unabridged.kotlinNulls && !t.legacy.isPrimitive &&
      !t.legacy.isWildcard then nullnessAnnotation t.legacy.nullability else []) = [] := by
    split
    · rename_i hwritten
      have hprimitive : t.isPrimitive = false := by
        simp only [TypeRef.isPrimitive_legacy, Bool.and_eq_true, Bool.not_eq_true'] at hwritten
        exact hwritten.1.2
      rw [t.legacy_nullability, hprimitive]
      rfl
    · rfl
  rw [leadText, leadText, annotationsText_eq_empty h, TypeRef.legacy_annotations, hnullness]
  rfl

end

mutual

theorem typeTextWith_legacy
    {s : WriteSettings} (h : s.IsAbridged) (varargs marked : Bool) : (t : TypeRef) →
    s.unabridged.typeTextWith varargs marked t.legacy = s.typeTextWith varargs marked t
  | ⟨name, arguments, dimensions, bound, nullability, annotations⟩ => by
    have hlead := leadText_legacy h marked
      ⟨name, arguments, dimensions, bound, nullability, annotations⟩
    have htypeName : s.unabridged.typeName name = s.typeName name := rfl
    have htrail : ∀ t, s.unabridged.trailText marked t = "" :=
      trailText_eq_empty (show s.unabridged.kotlinNulls = false from h.kotlinNulls) marked
    simp only [TypeRef.legacy] at hlead
    simp only [TypeRef.legacy, typeTextWith, typeTexts_legacy h arguments, boundText_legacy h bound,
      hlead, htypeName, htrail, trailText_eq_empty h.kotlinNulls]

theorem typeTexts_legacy
    {s : WriteSettings} (h : s.IsAbridged) :
    (ts : List TypeRef) → s.unabridged.typeTexts (TypeRef.legacyList ts) = s.typeTexts ts
  | [] => rfl
  | t :: ts => by
    rw [TypeRef.legacyList, typeTexts, typeTexts, typeTextWith_legacy h false true t,
      typeTexts_legacy h ts]

theorem boundText_legacy
    {s : WriteSettings} (h : s.IsAbridged) :
    (bound : Option (WildcardBound TypeRef)) →
      s.unabridged.boundText (TypeRef.legacyBound bound) = s.boundText bound
  | none => rfl
  | some (.upper t) => by
    rw [TypeRef.legacyBound, boundText, boundText, typeTextWith_legacy h false true t]
  | some (.lower t) => by
    rw [TypeRef.legacyBound, boundText, boundText, typeTextWith_legacy h false true t]

end

section

variable {s : WriteSettings} (h : s.IsAbridged)

include h

theorem typeText_legacy (t : TypeRef) : s.unabridged.typeText t.legacy = s.typeText t :=
  typeTextWith_legacy h false true t

theorem nonNullTypeText_legacy (t : TypeRef) :
    s.unabridged.nonNullTypeText t.legacyNonNull = s.nonNullTypeText t := by
  rw [TypeRef.legacyNonNull, nonNullTypeText_withNullability]
  exact typeTextWith_legacy h false false t

theorem typeParametersText_legacy (ps : List TypeParameter) :
    s.unabridged.typeParametersText (ps.map TypeParameter.legacy) = s.typeParametersText ps := by
  have hparameter : ∀ p, s.unabridged.typeParameterText p.legacy = s.typeParameterText p := by
    rintro ⟨name, bounds⟩
    cases bounds with
    | nil => rfl
    | cons t ts =>
      simp only [typeParameterText, TypeParameter.legacy, List.map_cons, List.map_map,
        Function.comp_def, typeText_legacy h]
  cases ps with
  | nil => rfl
  | cons p ps =>
    simp only [typeParametersText, List.map_cons, List.map_map, Function.comp_def, hparameter]

theorem defaultText_eq_empty (lead : String) (value : Option String) :
    s.defaultText lead value = "" := by
  cases value with
  | none => rfl
  | some value =>
    rw [defaultText, h.defaultValues]
    rfl

theorem parameterText_legacy (p : Parameter) :
    s.unabridged.parameterText p.legacy = s.parameterText p := by
  have hname : s.parameterNameText p.name = "" := by
    cases p.name with
    | none => rfl
    | some name =>
      rw [parameterNameText, h.parameterNames]
      rfl
  rw [parameterText, parameterText, annotationsText_eq_empty h, hname, defaultText_eq_empty h,
    ← typeTextWith_legacy h]
  rfl

theorem throwsText_legacy (ts : List TypeRef) :
    s.unabridged.throwsText (ts.map TypeRef.legacyNonNull) = s.throwsText ts := by
  cases ts with
  | nil => rfl
  | cons t ts =>
    simp only [throwsText, List.map_cons, List.map_map, Function.comp_def,
      nonNullTypeText_legacy h]

/-- Deprecation is written as a keyword, so nothing stands in front of the keywords. -/
theorem itemAnnotationsText_legacy (annotations : List Annotation) (deprecated : Bool) :
    s.unabridged.itemAnnotationsText [] deprecated =
      s.itemAnnotationsText annotations deprecated := by
  have hcompatible : s.unabridged.compatible = true := h.compatible
  rw [itemAnnotationsText, itemAnnotationsText, annotationsText_eq_empty h, hcompatible,
    Bool.not_true, Bool.and_false]
  rfl

theorem methodModifiersText_legacy (c : ClassDecl) (m : Method) :
    s.unabridged.methodModifiersText c.legacy (m.legacy c.rulesOutOverriding).modifiers =
      s.methodModifiersText c m.modifiers := by
  have hfinal : ((m.modifiers.isFinal && !c.rulesOutOverriding) &&
      !(s.compatible && c.rulesOutOverriding)) =
        (m.modifiers.isFinal && !(s.compatible && c.rulesOutOverriding)) := by
    rw [h.compatible, Bool.true_and, Bool.and_assoc, Bool.and_self]
  have hparts : s.unabridged.methodModifiersText c.legacy
      (m.legacy c.rulesOutOverriding).modifiers =
        s.accessText m.modifiers ++ wordIf m.modifiers.isDefault "default" ++
          wordIf m.modifiers.isStatic "static" ++
          wordIf ((m.modifiers.isFinal && !c.rulesOutOverriding) &&
            !(s.compatible && c.rulesOutOverriding)) "final" ++
          wordIf m.modifiers.isAbstract "abstract" := rfl
  rw [hparts, hfinal]
  rfl

theorem methodText_legacy (c : ClassDecl) (m : Method) :
    s.unabridged.methodText c.legacy (m.legacy c.rulesOutOverriding) = s.methodText c m := by
  have hconstructor : (m.legacy c.rulesOutOverriding).isConstructor = m.isConstructor :=
    Option.isNone_map
  have hvariables : (m.legacy c.rulesOutOverriding).typeParameters.isEmpty =
      m.typeParameters.isEmpty := List.isEmpty_map
  have hreturn : (m.legacy c.rulesOutOverriding).returnType = m.returnType.map TypeRef.legacy := rfl
  have hparameters : (m.legacy c.rulesOutOverriding).parameters.map s.unabridged.parameterText =
      m.parameters.map s.parameterText := by
    simp only [Method.legacy, List.map_map, Function.comp_def, parameterText_legacy h]
  have hthrows : s.unabridged.throwsText (m.legacy c.rulesOutOverriding).throws =
      s.throwsText m.throws := throwsText_legacy h m.throws
  have htypeParameters : s.unabridged.typeParametersText
      (m.legacy c.rulesOutOverriding).typeParameters = s.typeParametersText m.typeParameters :=
    typeParametersText_legacy h m.typeParameters
  have hannotations : s.unabridged.itemAnnotationsText (m.legacy c.rulesOutOverriding).annotations
      (m.legacy c.rulesOutOverriding).modifiers.isDeprecated =
        s.itemAnnotationsText m.annotations m.modifiers.isDeprecated :=
    itemAnnotationsText_legacy h _ _
  rw [methodText, methodText, hconstructor, hannotations, methodModifiersText_legacy h, hvariables,
    htypeParameters, hreturn, hparameters, hthrows, defaultText_eq_empty h]
  cases m.returnType with
  | none => rfl
  | some t =>
    simp only [Option.map_some, typeText_legacy h]
    rfl

theorem fieldText_legacy (x : Field) : s.unabridged.fieldText x.legacy = s.fieldText x := by
  have hannotations : s.unabridged.itemAnnotationsText x.legacy.annotations
      x.legacy.modifiers.isDeprecated =
        s.itemAnnotationsText x.annotations x.modifiers.isDeprecated :=
    itemAnnotationsText_legacy h _ _
  have htype : s.unabridged.typeTextWith false (!x.legacy.isEnumConstant) x.legacy.type =
      s.typeTextWith false (!x.isEnumConstant) x.type := by
    simp only [Field.legacy]
    cases x.isEnumConstant with
    | false => exact typeTextWith_legacy h false true x.type
    | true => exact nonNullTypeText_legacy h x.type
  have hcomment : ∀ value, Hexadecimal.comment? x.legacy.type value =
      Hexadecimal.comment? x.type value := by
    intro value
    rw [Hexadecimal.comment?, Hexadecimal.comment?, x.isPrimitive_legacy, x.legacy_typeName]
  have hvalue : s.unabridged.fieldValueText x.legacy = s.fieldValueText x := by
    have hx : x.legacy.value = x.value := rfl
    have hcompatible : s.unabridged.compatible = s.compatible := rfl
    simp only [fieldValueText, hx, hcompatible, hcomment]
  rw [fieldText, fieldText, hannotations, htype, hvalue]
  rfl

theorem supertypesText_legacy (lead : String) (ts : List TypeRef) :
    s.unabridged.supertypesText lead (ts.map TypeRef.legacyNonNull) = s.supertypesText lead ts := by
  have hcompatible : s.unabridged.compatible = s.compatible := rfl
  cases ts with
  | nil => rfl
  | cons t ts =>
    simp only [supertypesText, List.map_cons, List.map_map, Function.comp_def, hcompatible,
      nonNullTypeText_legacy h]

theorem extendedTypes_legacy (c : ClassDecl) :
    s.unabridged.extendedTypes c.legacy = (s.extendedTypes c).map TypeRef.legacyNonNull := by
  have hall : ∀ {s : WriteSettings}, s.compatible = true → ∀ ts : List TypeRef,
      ts.filter s.writesSuperclass = ts := by
    intro s hcompatible ts
    rw [List.filter_eq_self]
    intro t _
    rw [writesSuperclass, hcompatible]
    rfl
  have hcompatible : s.unabridged.compatible = true := h.compatible
  simp only [extendedTypes, ClassDecl.legacy, hall hcompatible, hall h.compatible, h.compatible,
    hcompatible, if_true, Option.toList_map]
  cases c.kind <;> rfl

theorem implementedTypes_legacy (c : ClassDecl) :
    s.unabridged.implementedTypes c.legacy = (s.implementedTypes c).map TypeRef.legacyNonNull := by
  have hcompatible : s.unabridged.compatible = true := h.compatible
  simp only [implementedTypes, ClassDecl.legacy, h.compatible, hcompatible, if_true]
  cases c.kind <;> rfl

theorem classText_legacy (c : ClassDecl) : s.unabridged.classText c.legacy = s.classText c := by
  have horder : s.unabridged.order = s.order := rfl
  have hview : s.unabridged.view = s.view := rfl
  have hmembers : s.unabridged.membersText c.legacy = s.membersText c :=
    membersText_map horder hview rfl rfl rfl
      (s.order.compareMethods_legacy c.rulesOutOverriding) (fun _ _ => rfl) (fun _ => rfl)
      (fun _ => rfl) (methodText_legacy h c) (fieldText_legacy h)
  refine classText_congr rfl rfl (itemAnnotationsText_legacy h _ _) rfl
    (typeParametersText_legacy h c.typeParameters) ?_ ?_ hmembers
  · rw [extendedTypes_legacy h, supertypesText_legacy h]
  · rw [implementedTypes_legacy h, supertypesText_legacy h]

/-- What the oldest version leaves out may as well not be there. -/
theorem codebaseText_legacy {cb : Codebase} (hindexed : cb.IsIndexed) (hview : s.view = .live) :
    s.unabridged.codebaseText cb.legacy = s.codebaseText cb := by
  have hheader : s.unabridged.headerText = s.headerText := rfl
  have hview' : s.unabridged.view = .live := hview
  refine codebaseText_map hindexed hheader ClassDecl.legacy_qualifiedName (fun _ => rfl)
    (fun c => ?_)
    (classText_legacy h)
  rw [hview', hview]
  rfl

end

end WriteSettings
end Signature

end ApiSurface
