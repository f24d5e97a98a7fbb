import ApiSurface.Proofs.Renaming
import ApiSurface.Proofs.Reporting

/-!
# Comparing what has not changed

A method, a field or a declaration that is the same up to the names of its type variables shows no
change, and methods that stand in front of others on the new side are paired with themselves, even
where several of them have the same written types.  So a class with further members behind its own
differs from it by additions alone, and a codebase compared with itself shows nothing but the
references it cannot resolve.
-/

namespace ApiSurface

namespace Pairing

/-- Old methods that stand in front of the new ones are paired with themselves: those before a
method are taken, so the first one left with its types is the method itself. -/
theorem exact_append (old further : List Method) :
    exact old (old ++ further) = ⟨old.map fun m => (m, m), [], further⟩ := by
  induction old with
  | nil => rfl
  | cons m old ih => simp [exact, ih]

theorem between_append (oldClass newClass : ClassDecl) (old further : List Method) :
    between oldClass old newClass (old ++ further) =
      { matched := old.map fun m => (m, [m]), removed := [], added := further } := by
  simp [between, exact_append]

end Pairing

namespace NameSet

theorem without_eq_nil_iff {a b : NameSet} :
    a.without b = [] ↔ ∀ name ∈ a.items, name ∈ b.items := by
  rw [without, List.filter_eq_nil_iff]
  refine forall₂_congr fun name _ => ?_
  rw [← contains_iff_mem]
  simp

theorem without_self (a : NameSet) : a.without a = [] :=
  without_eq_nil_iff.mpr fun _ h => h

end NameSet

/-- The types are the same once variables are renamed, and equally nullable. -/
def Renaming.Keeps (r : Renaming) (old new : TypeRef) : Prop :=
  r.sameType old new = true ∧ old.nullability = new.nullability

theorem Renaming.keeps_self (t : TypeRef) : Renaming.Keeps [] t t :=
  ⟨sameType_nil t, rfl⟩

/-- The parameters are the same once variables are renamed. -/
structure Parameter.KeptAs (r : Renaming) (old new : Parameter) : Prop where
  type : r.Keeps old.type new.type
  name : new.name = old.name
  varargs : new.varargs = old.varargs
  defaultValue : new.defaultValue = old.defaultValue

/-- The methods are the same once variables are renamed; thrown types are the same as written. -/
structure Method.KeptAs (r : Renaming) (old new : Method) : Prop where
  modifiers : new.modifiers = old.modifiers
  returnType : ∀ s ∈ old.returnType, ∀ t ∈ new.returnType, r.Keeps s t
  parameters : ∀ p ∈ old.parameters.zip new.parameters, p.1.KeptAs r p.2
  throws : new.throws.map TypeRef.canonical = old.throws.map TypeRef.canonical
  defaultValue : new.defaultValue = old.defaultValue

theorem Method.keptAs_self (m : Method) : m.KeptAs [] m where
  modifiers := rfl
  returnType := by
    intro s hs t ht
    rw [Option.mem_unique ht hs]
    exact Renaming.keeps_self s
  parameters := by
    intro p hp
    rw [List.zip, List.zipWith_self] at hp
    obtain ⟨q, -, rfl⟩ := List.mem_map.mp hp
    exact ⟨Renaming.keeps_self q.type, rfl, rfl, rfl⟩
  throws := rfl
  defaultValue := rfl

/-- The fields are the same once variables are renamed. -/
structure Field.KeptAs (r : Renaming) (old new : Field) : Prop where
  modifiers : new.modifiers = old.modifiers
  type : r.Keeps old.type new.type
  value : new.value = old.value

theorem Field.keptAs_self (f : Field) : f.KeptAs [] f :=
  ⟨rfl, Renaming.keeps_self f.type, rfl⟩

/-- The class with further members behind its own. -/
def ClassDecl.grown (c : ClassDecl) (constructors methods : List Method) (fields : List Field) :
    ClassDecl :=
  { c with
    constructors := c.constructors ++ constructors
    methods := c.methods ++ methods
    fields := c.fields ++ fields }

theorem ClassDecl.grown_nil (c : ClassDecl) : c.grown [] [] [] = c := by
  simp [grown]

/-- No two fields of a class share a name. -/
def Codebase.HasUniqueFields (cb : Codebase) : Prop :=
  ∀ c ∈ cb.classes.items, (c.fields.map Field.name).Nodup

/-- Where no two items share a key, each is found under its own. -/
theorem find?_eq_some_of_nodup
    {α : Type} {key : α → String} {xs : List α} (h : (xs.map key).Nodup) {x : α} (hx : x ∈ xs) :
    xs.find? (fun y => key y == key x) = some x := by
  induction xs with
  | nil => cases hx
  | cons y xs ih =>
    obtain ⟨hy, htail⟩ := List.nodup_cons.mp h
    rcases List.mem_cons.mp hx with rfl | hx
    · simp
    · have hne : key y ≠ key x := fun heq => hy (heq ▸ List.mem_map_of_mem hx)
      rw [List.find?_cons_of_neg (by simpa using hne), ih htail hx]

namespace Comparison

open Change (when ofAccess ofStatic ofDeprecation)

/-! ## Members -/

theorem typeChanges_of_keeps
    (cmp : Comparison) {r : Renaming} (place : Nullness.Place) (target : Nullness.Target)
    {old new : TypeRef} (h : r.Keeps old new) : cmp.typeChanges r place target old new = [] := by
  rw [typeChanges, if_pos h.1, h.2]
  simp [nullnessChanges, Nullness.classify]

theorem defaultChanges_self (value : Option String) : defaultChanges value value = [] := by
  cases value with
  | none => rfl
  | some value => simp [defaultChanges, when]

theorem parameterChanges_of_keptAs
    {r : Renaming} {old new : Parameter} (h : old.KeptAs r new) :
    parameterChanges old new = [] := by
  have hname : nameChanges old new = [] := by
    cases hold : old.name with
    | none => simp [nameChanges, hold]
    | some name => simp [nameChanges, hold, h.name, when]
  rw [parameterChanges, hname, h.varargs, h.defaultValue, defaultChanges_self]
  cases old.varargs <;> rfl

theorem methodModifierChanges_of_eq
    (c : ClassDecl) {old new : Method} (h : new.modifiers = old.modifiers) :
    methodModifierChanges c old new = [] := by
  have hfinal : (!old.isConstructor && !old.modifiers.isFinal && old.modifiers.isFinal &&
      !c.isEffectivelyFinal) = false := by
    cases old.modifiers.isFinal <;> simp
  simp [methodModifierChanges, h, hfinal, ofAccess, ofStatic, ofDeprecation, when]

/-- A method that is the same once the type variables of both declarations are renamed shows no
change. -/
theorem compareMethods_of_keptAs
    (cmp : Comparison) {oldClass newClass : ClassDecl} {old new : Method}
    (h : old.KeptAs ((Renaming.between oldClass.typeParameters newClass.typeParameters).within
      (Renaming.between old.typeParameters new.typeParameters)) new) :
    cmp.compareMethods oldClass newClass old new = [] := by
  have hthrows : throwsChanges old new = [] := by
    simp [throwsChanges, thrownNames, h.throws, NameSet.without_self]
  simp only [compareMethods, methodModifierChanges_of_eq oldClass h.modifiers, hthrows,
    h.defaultValue, defaultChanges_self, List.append_nil, List.map_nil, List.nil_append,
    List.append_eq_nil_iff, List.map_eq_nil_iff, List.flatMap_eq_nil_iff]
  constructor
  · split
    · rename_i s t hs ht
      exact cmp.typeChanges_of_keeps _ _ (h.returnType s hs t ht)
    · rfl
  · rintro ⟨⟨p, q⟩, index⟩ hp
    have hkept := h.parameters (p, q) (List.fst_mem_of_mem_zipIdx hp)
    exact ⟨cmp.typeChanges_of_keeps _ _ hkept.type, parameterChanges_of_keptAs hkept⟩

/-- A method that stays in a class with the same type variables shows no change. -/
theorem compareMethods_self
    (cmp : Comparison) {old new : ClassDecl} (h : new.typeParameters = old.typeParameters)
    (m : Method) : cmp.compareMethods old new m m = [] := by
  apply compareMethods_of_keptAs
  rw [h, Renaming.between_self, Renaming.between_self]
  exact m.keptAs_self

theorem fieldModifierChanges_self (m : Modifiers) : fieldModifierChanges m m = [] := by
  cases hfinal : m.isFinal <;> simp [fieldModifierChanges, hfinal, ofAccess, ofStatic, when]

/-- A field that is the same once the type variables of both classes are renamed shows no change. -/
theorem compareFields_of_keptAs
    (cmp : Comparison) {oldClass newClass : ClassDecl} {old new : Field}
    (h : old.KeptAs (Renaming.between oldClass.typeParameters newClass.typeParameters) new) :
    cmp.compareFields oldClass newClass old new = [] := by
  simp only [compareFields, valueChanges, h.modifiers, fieldModifierChanges_self, h.value,
    cmp.typeChanges_of_keeps _ _ h.type, ofDeprecation, when, bne_self_eq_false, Bool.and_false,
    Bool.false_eq_true, if_false, List.append_nil, List.map_nil]

/-- A field that stays in a class with the same type variables shows no change. -/
theorem compareFields_self
    (cmp : Comparison) {old new : ClassDecl} (h : new.typeParameters = old.typeParameters)
    (f : Field) : cmp.compareFields old new f f = [] := by
  apply compareFields_of_keptAs
  rw [h, Renaming.between_self]
  exact f.keptAs_self

/-! ## Declarations -/

theorem declarationChanges_of_eq
    {old new : ClassDecl} (hkind : new.kind = old.kind)
    (hmodifiers : new.modifiers = old.modifiers) :
    declarationChanges old new = [] := by
  simp [declarationChanges, hkind, hmodifiers, ofAccess, ofStatic, ofDeprecation, when]

theorem superclassChanges_eq_nil_iff
    {cmp : Comparison} {old new : ClassDecl} :
    cmp.superclassChanges old new = [] ↔
      ∀ name ∈ cmp.old.superclassChain old, name ∈ cmp.new.superclassChain new := by
  rw [superclassChanges]
  split
  · rename_i lost hlost
    have hmissing := List.find?_some hlost
    simp only [List.cons_ne_nil, false_iff, not_forall]
    exact ⟨lost, List.mem_of_find?_eq_some hlost, by simpa using hmissing⟩
  · rename_i hnone
    simpa using hnone

/-! ## Classes with further members -/

theorem pairFindings_append
    (cmp : Comparison) {old new : ClassDecl} (h : new.typeParameters = old.typeParameters)
    (ms further : List Method) :
    cmp.pairFindings old new (Pairing.between old ms new (ms ++ further)) = [] := by
  simp [pairFindings, Pairing.between_append, cmp.compareMethods_self h]

section Grown

variable (cmp : Comparison) (c : ClassDecl) (constructors methods : List Method)
  (fields : List Field)

/-- All further constructors are new. -/
theorem constructorFindings_grown :
    cmp.constructorFindings c (c.grown constructors methods fields) =
      (constructors.filter Method.isVisible).flatMap
        (addedMethod (c.grown constructors methods fields)) := by
  have hscope : (c.grown constructors methods fields).typeParameters = c.typeParameters := rfl
  have hlist : (c.grown constructors methods fields).constructors.filter Method.isVisible =
      c.constructors.filter Method.isVisible ++ constructors.filter Method.isVisible :=
    List.filter_append _ _
  rw [constructorFindings, hlist, cmp.pairFindings_append hscope, Pairing.between_append]
  rfl

/-- The further methods that were not inherited before are new. -/
theorem methodFindings_grown :
    cmp.methodFindings c (c.grown constructors methods fields) =
      ((methods.filter Method.isVisible).filter fun m =>
        ((cmp.old.effectiveMembers c).findInheritedMethod? (c.signatureOf m)).isNone).flatMap
          (addedMethod (c.grown constructors methods fields)) := by
  have hscope : (c.grown constructors methods fields).typeParameters = c.typeParameters := rfl
  have hlist : (c.grown constructors methods fields).methods.filter Method.isVisible =
      c.methods.filter Method.isVisible ++ methods.filter Method.isVisible :=
    List.filter_append _ _
  rw [methodFindings, hlist, cmp.pairFindings_append hscope, Pairing.between_append]
  rfl

end Grown

/-! ## A codebase and itself -/

theorem constructorFindings_self (cmp : Comparison) (c : ClassDecl) :
    cmp.constructorFindings c c = [] := by
  have h := cmp.constructorFindings_grown c [] [] []
  rwa [c.grown_nil] at h

theorem methodFindings_self (cmp : Comparison) (c : ClassDecl) : cmp.methodFindings c c = [] := by
  have h := cmp.methodFindings_grown c [] [] []
  rwa [c.grown_nil] at h

/-- Where no two fields share a name, each is compared with itself. -/
theorem fieldFindings_self
    (cmp : Comparison) {c : ClassDecl} (h : (c.fields.map Field.name).Nodup) :
    cmp.fieldFindings c c = [] := by
  have hvisible : ((c.fields.filter Field.isVisible).map Field.name).Nodup :=
    h.sublist (List.filter_sublist.map _)
  have hfind : ∀ f ∈ c.fields.filter Field.isVisible,
      (c.fields.filter Field.isVisible).find? (fun g => g.name == f.name) = some f :=
    fun f hf => find?_eq_some_of_nodup hvisible hf
  simp only [fieldFindings, List.append_eq_nil_iff, List.flatMap_eq_nil_iff, List.map_eq_nil_iff,
    List.filter_eq_nil_iff]
  constructor
  · intro f hf
    rw [hfind f hf]
    exact cmp.compareFields_self rfl f
  · intro f hf
    have hany : (c.fields.filter Field.isVisible).any (fun g => g.name == f.name) = true :=
      List.any_eq_true.mpr ⟨f, hf, beq_self_eq_true _⟩
    simp [hany]

/-- A class compared with itself shows nothing but references that are not resolved. -/
theorem unresolved_of_mem_compareClasses_self
    (cb : Codebase) (reference : Option Codebase) {c : ClassDecl}
    (h : (c.fields.map Field.name).Nodup) {f : Finding}
    (hf : f ∈ compareClasses { old := cb, new := cb, reference } c c) :
    f.issue = .unresolvedReference := by
  have hchain : superclassChanges { old := cb, new := cb, reference } c c = [] :=
    superclassChanges_eq_nil_iff.mpr fun _ h => h
  simp only [compareClasses, declarationChanges_of_eq, hchain, interfaceChanges,
    NameSet.without_self, constructorFindings_self, methodFindings_self, fieldFindings_self _ h,
    List.map_nil, List.nil_append, List.append_nil, List.mem_map, List.mem_append] at hf
  obtain ⟨change, hchange, rfl⟩ := hf
  rcases hchange with ⟨reference, -, rfl⟩ | ⟨reference, -, rfl⟩
  · rfl
  · rfl

/-- A codebase compared with itself finds nothing but references that are not resolved. -/
theorem unresolved_of_mem_findings_self
    {cb : Codebase} (hfields : cb.HasUniqueFields) {reference : Option Codebase} {f : Finding}
    (hf : f ∈ findings { old := cb, new := cb, reference }) : f.issue = .unresolvedReference := by
  cases origin_of_mem_findings hf with
  | removedPackage old new => exact absurd old new
  | addedPackage old new => exact absurd new old
  | removedClass _ old new =>
    rw [old] at new
    cases new
  | addedClass _ old new =>
    rw [new] at old
    cases old
  | compared _ old new found =>
    rw [old] at new
    cases new
    have hclass := (Option.filter_eq_some_iff.mp old).1
    exact unresolved_of_mem_compareClasses_self cb reference
      (hfields _ (Catalog.mem_of_find? hclass)) found

/-- A codebase compared with itself shows nothing but references that are not resolved, whatever
the states of its items, its hierarchy and its overloads. -/
theorem report_self_unresolved
    (cb : Codebase) (hfields : cb.HasUniqueFields) (reference : Option Codebase)
    (registry : Registry) (mode : Mode) :
    ∀ e ∈ (report { old := cb, new := cb, reference } registry mode).entries,
      e.issue = .unresolvedReference := by
  intro e he
  obtain ⟨f, hf, -, rfl⟩ := mem_report_iff.mp he
  exact unresolved_of_mem_findings_self hfields hf

/-- A method with a type variable of the given bound, which is the type of its parameter. -/
def boundedMethod (bound : String) : Method :=
  { name := "put", owner := "a.Loop", modifiers := { access := .pub }
    returnType := some (TypeRef.named "void")
    typeParameters := [{ name := "T", bounds := [TypeRef.named bound] }]
    parameters := [{ type := TypeRef.named "T" }] }

/-- A class above itself that implements what is not declared, with two methods of the same written
types. -/
def loopClass : ClassDecl :=
  { package := "a", name := "Loop", kind := .ordinary
    superclass := some (TypeRef.named "a.Loop"), interfaces := [TypeRef.named "b.Missing"]
    methods := [boundedMethod "b.First", boundedMethod "b.Second"]
    fields := [{ name := "x", owner := "a.Loop", modifiers := {}, type := TypeRef.named "int" }] }

def loopOnly : Codebase :=
  { packages := ⟨[{ name := "a", classNames := ⟨["a.Loop"], by decide⟩ }], by decide⟩
    classes := ⟨[loopClass], List.pairwise_singleton _ _⟩ }

theorem loopOnly_hasUniqueFields : loopOnly.HasUniqueFields := by
  intro c hc
  cases List.mem_singleton.mp hc
  decide

theorem loopOnly_report_unresolved :
    loopOnly.HasUniqueFields ∧
      ∀ e ∈ (report { old := loopOnly, new := loopOnly } {} .current).entries,
        e.issue = .unresolvedReference :=
  ⟨loopOnly_hasUniqueFields,
    report_self_unresolved loopOnly loopOnly_hasUniqueFields none {} .current⟩

end Comparison

end ApiSurface
