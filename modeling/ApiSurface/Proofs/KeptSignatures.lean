import ApiSurface.Proofs.Index
import ApiSurface.Proofs.Pairing
import ApiSurface.Proofs.Reporting

/-!
# Signatures that a clean comparison keeps

A comparison without errors keeps every package, class and field, and every constructor and method
that it does not pair by written types.  A pair by written types is taken for granted although its
erased signature may have changed with the bounds of type variables.  So nothing callable is lost
exactly if the old erased signature of each such pair is offered by another member.
-/

namespace ApiSurface

/-- A visible constructor of the class has the erased signature. -/
def ClassDecl.OffersConstructor (c : ClassDecl) (signature : String) : Prop :=
  ∃ m ∈ c.constructors, m.isVisible = true ∧ c.signatureOf m = signature

namespace Codebase

/-- A visible method of the class, or one that it inherits, has the erased signature. -/
def OffersMethod (cb : Codebase) (c : ClassDecl) (signature : String) : Prop :=
  (∃ m ∈ c.methods, m.isVisible = true ∧ c.signatureOf m = signature) ∨
    ∃ x ∈ (cb.effectiveMembers c).methods, x.1 = signature ∧ x.2.owner ≠ c.qualifiedName

/-- A visible field of the class, or one that it inherits, has the name. -/
def OffersField (cb : Codebase) (c : ClassDecl) (name : String) : Prop :=
  (∃ f ∈ c.fields, f.isVisible = true ∧ f.name = name) ∨
    ∃ x ∈ (cb.effectiveMembers c).fields, x.1 = name ∧ x.2.owner ≠ c.qualifiedName

theorem offersMethod_of_findInheritedMethod?
    {cb : Codebase} {c : ClassDecl} {signature : String}
    (h : ((cb.effectiveMembers c).findInheritedMethod? signature).isSome = true) :
    cb.OffersMethod c signature := by
  obtain ⟨m, hm⟩ := Option.isSome_iff_exists.mp h
  obtain ⟨x, hx, -⟩ := Option.map_eq_some_iff.mp hm
  have hcond := List.find?_some hx
  simp only [Bool.and_eq_true, beq_iff_eq, bne_iff_ne] at hcond
  exact .inr ⟨x, List.mem_of_find?_eq_some hx, hcond.1, hcond.2⟩

theorem offersField_of_findInheritedField?
    {cb : Codebase} {c : ClassDecl} {name : String}
    (h : ((cb.effectiveMembers c).findInheritedField? name).isSome = true) :
    cb.OffersField c name := by
  obtain ⟨f, hf⟩ := Option.isSome_iff_exists.mp h
  obtain ⟨x, hx, -⟩ := Option.map_eq_some_iff.mp hf
  have hcond := List.find?_some hx
  simp only [Bool.and_eq_true, beq_iff_eq, bne_iff_ne] at hcond
  exact .inr ⟨x, List.mem_of_find?_eq_some hx, hcond.1, hcond.2⟩

end Codebase

namespace Comparison

/-- The new class offers every visible constructor, method and field of the old one, methods and
constructors by their erased signature. -/
structure KeepsMembers (cmp : Comparison) (old new : ClassDecl) : Prop where
  constructors : ∀ m ∈ old.constructors, m.isVisible = true →
    new.OffersConstructor (old.signatureOf m)
  methods : ∀ m ∈ old.methods, m.isVisible = true → cmp.new.OffersMethod new (old.signatureOf m)
  fields : ∀ f ∈ old.fields, f.isVisible = true → cmp.new.OffersField new f.name

/-- Every class on the old surface is on the new one and keeps its members. -/
def KeepsSignatures (cmp : Comparison) : Prop :=
  ∀ p ∈ cmp.old.packages.items, p.name ∈ (visiblePackages cmp.old).items →
    ∀ c ∈ cmp.old.classesIn p, c.isVisible = true →
      ∃ c', cmp.new.class? c.qualifiedName = some c' ∧ c'.isVisible = true ∧ cmp.KeepsMembers c c'

/-- Of methods and constructors that are paired by written types and erase differently, the old
erased signature is offered by another member of the new class. -/
structure CoversErasures (cmp : Comparison) (old new : ClassDecl) : Prop where
  constructors : ∀ m n,
    (m, n) ∈ (Pairing.exact (old.constructors.filter Method.isVisible)
      (new.constructors.filter Method.isVisible)).pairs →
    new.signatureOf n ≠ old.signatureOf m → new.OffersConstructor (old.signatureOf m)
  methods : ∀ m n,
    (m, n) ∈ (Pairing.exact (old.methods.filter Method.isVisible)
      (new.methods.filter Method.isVisible)).pairs →
    new.signatureOf n ≠ old.signatureOf m → cmp.new.OffersMethod new (old.signatureOf m)

/-- The report of a comparison has no entry of severity error. -/
def IsClean (cmp : Comparison) (mode : Mode) : Prop :=
  ∀ e ∈ (cmp.report {} mode).entries, e.severity ≠ .error

/-! ## Findings that a clean comparison rules out -/

/-- A clean comparison has no finding of an issue that is always an error. -/
theorem not_mem_findings_of_isClean
    {cmp : Comparison} {mode : Mode} (hclean : cmp.IsClean mode) {f : Finding}
    (hseverity : f.issue.defaultSeverity = .error) (henabled : f.issue.enablement = .always) :
    f ∉ cmp.findings := by
  intro hf
  have hfinal : ({} : Registry).severity f.issue = .error := by
    simp [Registry.severity, Registry.promote, hseverity]
  have hreported : isReported {} mode f.issue = true := by
    simp [isReported, Issue.isEnabled, henabled, Issue.Enablement.allows, hfinal]
  exact hclean _ (mem_report_iff.mpr ⟨f, hf, hreported, rfl⟩) hfinal

theorem visible_of_isClean
    {cmp : Comparison} {mode : Mode} (hclean : cmp.IsClean mode) {name : String}
    (hold : name ∈ (visiblePackages cmp.old).items) : name ∈ (visiblePackages cmp.new).items := by
  by_contra hnew
  let f : Finding := ⟨{ package := name }, .package, .removed false name⟩
  have hfound : f ∈ cmp.packageFindings name := by
    have hcontains : (visiblePackages cmp.old).contains name = true :=
      NameSet.contains_iff_mem.mpr hold
    have hmisses : (visiblePackages cmp.new).contains name = false := by
      simpa [← NameSet.contains_iff_mem] using hnew
    simp [packageFindings, hcontains, hmisses, f]
  exact not_mem_findings_of_isClean hclean rfl rfl
    ((mem_findings_iff rfl).mpr ⟨name, .inl hold, hfound⟩)

/-- What is found about a class of a package on both surfaces is among the findings. -/
theorem mem_findings_of_mem_classFindings
    {cmp : Comparison} {p : Package} (hp : p ∈ cmp.old.packages.items)
    (hold : p.name ∈ (visiblePackages cmp.old).items)
    (hnew : p.name ∈ (visiblePackages cmp.new).items)
    {name : String} (hname : name ∈ p.classNames.items)
    {f : Finding} (hf : f.unresolved? = none) (hfound : f ∈ cmp.classFindings name) :
    f ∈ cmp.findings := by
  refine (mem_findings_iff hf).mpr ⟨p.name, .inl hold, ?_⟩
  have hpackage : cmp.old.package? p.name = some p :=
    Catalog.find?_eq_some_iff.mpr ⟨hp, rfl⟩
  simp only [packageFindings, NameSet.contains_iff_mem.mpr hold, NameSet.contains_iff_mem.mpr hnew,
    List.mem_flatMap, NameSet.mem_union_iff]
  exact ⟨name, .inl (by simpa [classNames, hpackage] using hname), hfound⟩

theorem exists_class_of_isClean
    {cmp : Comparison} {mode : Mode} (hclean : cmp.IsClean mode)
    {p : Package} (hp : p ∈ cmp.old.packages.items)
    (hold : p.name ∈ (visiblePackages cmp.old).items)
    {c : ClassDecl} (hc : c ∈ cmp.old.classesIn p) (hvisible : c.isVisible = true) :
    ∃ c', cmp.new.class? c.qualifiedName = some c' ∧ c'.isVisible = true := by
  obtain ⟨hname, hfind⟩ := Codebase.mem_classesIn_iff.mp hc
  have hnew := visible_of_isClean hclean hold
  by_contra hnone
  have hgone : (cmp.new.class? c.qualifiedName).filter ClassDecl.isVisible = none := by
    cases hclass : cmp.new.class? c.qualifiedName with
    | none => rfl
    | some c' =>
      have hhidden : c'.isVisible ≠ true := fun h => hnone ⟨c', hclass, h⟩
      simp [Option.filter, hhidden]
  have hfound : removedClass c ∈ cmp.classFindings c.qualifiedName := by
    have hshown : (some c).filter ClassDecl.isVisible = some c := by simp [hvisible]
    simp [classFindings, hfind, hshown, hgone]
  refine not_mem_findings_of_isClean hclean (f := removedClass c) ?_ ?_
    (mem_findings_of_mem_classFindings hp hold hnew hname rfl hfound)
  · cases hdeprecated : c.modifiers.isDeprecated <;>
      simp [removedClass, Finding.issue, Change.issue, hdeprecated, Issue.defaultSeverity]
  · cases hdeprecated : c.modifiers.isDeprecated <;>
      simp [removedClass, Finding.issue, Change.issue, hdeprecated, Issue.enablement]

/-! ## Members -/

theorem removedMethod_defaultSeverity (c : ClassDecl) (m : Method) :
    (removedMethod c m).issue.defaultSeverity = .error := by
  cases hdeprecated : m.modifiers.isDeprecated <;> cases hctor : m.isConstructor <;>
    simp [removedMethod, itemOf, Finding.issue, Change.issue, hdeprecated, hctor,
      Issue.defaultSeverity]

theorem removedMethod_enablement (c : ClassDecl) (m : Method) :
    (removedMethod c m).issue.enablement = .always := by
  cases hdeprecated : m.modifiers.isDeprecated <;> cases hctor : m.isConstructor <;>
    simp [removedMethod, itemOf, Finding.issue, Change.issue, hdeprecated, hctor,
      Issue.enablement]

/-- The classes of one name on both surfaces, with none of the findings about them an error. -/
structure CleanPair (cmp : Comparison) (old new : ClassDecl) : Prop where
  noError : ∀ f ∈ cmp.compareClasses old new, f.unresolved? = none →
    f.issue.enablement = .always → f.issue.defaultSeverity ≠ .error

theorem CleanPair.of_isClean
    {cmp : Comparison} {mode : Mode} (hclean : cmp.IsClean mode)
    {p : Package} (hp : p ∈ cmp.old.packages.items)
    (hold : p.name ∈ (visiblePackages cmp.old).items)
    {c c' : ClassDecl} (hc : c ∈ cmp.old.classesIn p) (hvisible : c.isVisible = true)
    (hc' : cmp.new.class? c.qualifiedName = some c') (hvisible' : c'.isVisible = true) :
    cmp.CleanPair c c' := by
  obtain ⟨hname, hfind⟩ := Codebase.mem_classesIn_iff.mp hc
  constructor
  intro f hf hresolved henabled hseverity
  have hfound : f ∈ cmp.classFindings c.qualifiedName := by
    simpa [classFindings, hfind, hc', Option.filter, hvisible, hvisible'] using hf
  exact not_mem_findings_of_isClean hclean hseverity henabled
    (mem_findings_of_mem_classFindings hp hold (visible_of_isClean hclean hold) hname hresolved
      hfound)

theorem CleanPair.offersConstructor
    {cmp : Comparison} {old new : ClassDecl} (hpair : cmp.CleanPair old new)
    (hcovers : cmp.CoversErasures old new)
    {m : Method} (hm : m ∈ old.constructors) (hvisible : m.isVisible = true) :
    new.OffersConstructor (old.signatureOf m) := by
  have hlisted : m ∈ old.constructors.filter Method.isVisible :=
    List.mem_filter.mpr ⟨hm, hvisible⟩
  rcases Pairing.paired_or_removed_or_partner old new
      (new.constructors.filter Method.isVisible) hlisted with
    ⟨n, hn⟩ | hremoved | ⟨n, hn, hsignature⟩
  · by_cases hsignature : new.signatureOf n = old.signatureOf m
    · obtain ⟨hmem, hshown⟩ := List.mem_filter.mp (Pairing.mem_of_mem_pairs hn).2
      exact ⟨n, hmem, hshown, hsignature⟩
    · exact hcovers.constructors m n hn hsignature
  · have hfound : removedMethod old m ∈ cmp.compareClasses old new := by
      simp only [compareClasses, constructorFindings, List.mem_append, List.mem_map]
      exact .inl (.inl (.inr (.inl (.inr ⟨m, hremoved, rfl⟩))))
    exact absurd (removedMethod_defaultSeverity old m)
      (hpair.noError _ hfound rfl (removedMethod_enablement old m))
  · obtain ⟨hmem, hshown⟩ := List.mem_filter.mp hn
    exact ⟨n, hmem, hshown, hsignature⟩

theorem CleanPair.offersMethod
    {cmp : Comparison} {old new : ClassDecl} (hpair : cmp.CleanPair old new)
    (hcovers : cmp.CoversErasures old new)
    {m : Method} (hm : m ∈ old.methods) (hvisible : m.isVisible = true) :
    cmp.new.OffersMethod new (old.signatureOf m) := by
  have hlisted : m ∈ old.methods.filter Method.isVisible :=
    List.mem_filter.mpr ⟨hm, hvisible⟩
  rcases Pairing.paired_or_removed_or_partner old new
      (new.methods.filter Method.isVisible) hlisted with
    ⟨n, hn⟩ | hremoved | ⟨n, hn, hsignature⟩
  · by_cases hsignature : new.signatureOf n = old.signatureOf m
    · obtain ⟨hmem, hshown⟩ := List.mem_filter.mp (Pairing.mem_of_mem_pairs hn).2
      exact .inl ⟨n, hmem, hshown, hsignature⟩
    · exact hcovers.methods m n hn hsignature
  · -- A method without a partner is reported unless a supertype still provides it.
    cases hinherited :
        (cmp.new.effectiveMembers new).findInheritedMethod? (old.signatureOf m) with
    | some n =>
      exact Codebase.offersMethod_of_findInheritedMethod? (by rw [hinherited]; rfl)
    | none =>
      have hfound : removedMethod old m ∈ cmp.compareClasses old new := by
        simp only [compareClasses, methodFindings, List.mem_append, List.mem_map, List.mem_filter]
        exact .inl (.inr (.inl (.inr ⟨m, ⟨hremoved, by rw [hinherited]; rfl⟩, rfl⟩)))
      exact absurd (removedMethod_defaultSeverity old m)
        (hpair.noError _ hfound rfl (removedMethod_enablement old m))
  · obtain ⟨hmem, hshown⟩ := List.mem_filter.mp hn
    exact .inl ⟨n, hmem, hshown, hsignature⟩

theorem CleanPair.offersField
    {cmp : Comparison} {old new : ClassDecl} (hpair : cmp.CleanPair old new)
    {f : Field} (hf : f ∈ old.fields) (hvisible : f.isVisible = true) :
    cmp.new.OffersField new f.name := by
  cases hfind : (new.fields.filter Field.isVisible).find? fun g => g.name == f.name with
  | some g =>
    obtain ⟨hmem, hshown⟩ := List.mem_filter.mp (List.mem_of_find?_eq_some hfind)
    have hname : g.name = f.name := by simpa using List.find?_some hfind
    exact .inl ⟨g, hmem, hshown, hname⟩
  | none =>
    cases hinherited : ((cmp.new.effectiveMembers new).findInheritedField? f.name).isSome with
    | true => exact Codebase.offersField_of_findInheritedField? hinherited
    | false =>
      have hfound : removedField old f ∈ cmp.compareClasses old new := by
        simp only [compareClasses, fieldFindings, List.mem_append, List.mem_flatMap]
        refine .inr (.inl ⟨f, List.mem_filter.mpr ⟨hf, hvisible⟩, ?_⟩)
        simp [hfind, hinherited]
      exact absurd rfl (hpair.noError _ hfound rfl rfl)

/-- In a clean comparison nothing callable is lost if and only if the old erased signatures of
pairs by written types that erase differently are offered by other members. -/
theorem keepsSignatures_iff_coversErasures
    (cmp : Comparison) (mode : Mode) (hclean : cmp.IsClean mode) :
    cmp.KeepsSignatures ↔
      ∀ p ∈ cmp.old.packages.items, p.name ∈ (visiblePackages cmp.old).items →
        ∀ c ∈ cmp.old.classesIn p, c.isVisible = true →
          ∀ c', cmp.new.class? c.qualifiedName = some c' → c'.isVisible = true →
            cmp.CoversErasures c c' := by
  constructor
  · intro hkeeps p hp hold c hc hvisible c' hc' _
    obtain ⟨c'', hc'', -, hmembers⟩ := hkeeps p hp hold c hc hvisible
    rw [hc'] at hc''
    cases hc''
    constructor
    · intro m n hpair _
      obtain ⟨hm, hshown⟩ := List.mem_filter.mp (Pairing.mem_of_mem_pairs hpair).1
      exact hmembers.constructors m hm hshown
    · intro m n hpair _
      obtain ⟨hm, hshown⟩ := List.mem_filter.mp (Pairing.mem_of_mem_pairs hpair).1
      exact hmembers.methods m hm hshown
  · intro hcovers p hp hold c hc hvisible
    obtain ⟨c', hc', hvisible'⟩ := exists_class_of_isClean hclean hp hold hc hvisible
    have hpair := CleanPair.of_isClean hclean hp hold hc hvisible hc' hvisible'
    have hcovered := hcovers p hp hold c hc hvisible c' hc' hvisible'
    exact ⟨c', hc', hvisible',
      { constructors := fun m hm hshown => hpair.offersConstructor hcovered hm hshown
        methods := fun m hm hshown => hpair.offersMethod hcovered hm hshown
        fields := fun f hf hshown => hpair.offersField hf hshown }⟩

/-! ## A class whose type variable changes its bound -/

/-- A walk that has only an undeclared root left ends there. -/
theorem walk_root
    {cb : Codebase} {links : ClassDecl → List String} {met : List String} {owner name : String}
    (hmet : met.contains name = false) (hundeclared : cb.class? name = none)
    (hroot : Lineage.implicitRoots.contains name = true) :
    Lineage.walk cb links met [(owner, name)] = [.root name] := by
  rw [Lineage.walk, dif_neg (by rw [hmet]; decide)]
  split
  · rename_i c hc
    rw [hundeclared] at hc
    cases hc
  · rw [if_pos hroot, Lineage.walk]

/-- The class `a.Box` with a type variable `T` of the given bound. -/
def boxClass (bound : String) (methods : List Method) : ClassDecl :=
  { ClassDecl.declare "a" "Box" .ordinary with
    typeParameters := [{ name := "T", bounds := [TypeRef.named bound] }], methods }

/-- A method `put` of that class with one parameter. -/
def putMethod (parameter : String) : Method :=
  { name := "put", owner := "a.Box", modifiers := { access := .pub }
    returnType := some (TypeRef.named "void")
    parameters := [{ type := TypeRef.named parameter }] }

def boxOnly (bound : String) (methods : List Method) : Codebase :=
  { packages := ⟨[{ name := "a", classNames := ⟨["a.Box"], by decide⟩ }], by decide⟩
    classes := ⟨[boxClass bound methods], List.pairwise_singleton _ _⟩ }

/-- The bound of that class changes from one class to an unrelated one. -/
def boxComparison (old new : List Method) : Comparison :=
  { old := boxOnly "java.lang.Number" old, new := boxOnly "java.lang.String" new }

theorem lineage_boxOnly (bound : String) (methods : List Method) :
    (boxOnly bound methods).lineage (boxClass bound methods) = [.root TypeRef.object] :=
  walk_root rfl rfl rfl

theorem superclasses_boxOnly (bound : String) (methods : List Method) :
    (boxOnly bound methods).superclasses (boxClass bound methods) = [.root TypeRef.object] :=
  walk_root rfl rfl rfl

/-- The only supertype is not declared. -/
theorem supertypes_boxOnly (bound : String) (methods : List Method) :
    (boxOnly bound methods).supertypes (boxClass bound methods) = [] := by
  rw [Codebase.supertypes, lineage_boxOnly]
  rfl

/-- Only the methods are compared with any result: the bounds are not looked at. -/
theorem compareClasses_boxComparison (old new : List Method) :
    (boxComparison old new).compareClasses
        (boxClass "java.lang.Number" old) (boxClass "java.lang.String" new) =
      (boxComparison old new).methodFindings
        (boxClass "java.lang.Number" old) (boxClass "java.lang.String" new) := by
  have hdeclaration : declarationChanges
      (boxClass "java.lang.Number" old) (boxClass "java.lang.String" new) = [] := rfl
  have hfields : (boxComparison old new).fieldFindings
      (boxClass "java.lang.Number" old) (boxClass "java.lang.String" new) = [] := rfl
  have hconstructors : (boxComparison old new).constructorFindings
      (boxClass "java.lang.Number" old) (boxClass "java.lang.String" new) = [] := rfl
  have hsuper : (boxComparison old new).superclassChanges
      (boxClass "java.lang.Number" old) (boxClass "java.lang.String" new) = [] := by
    simp [superclassChanges, boxComparison, Codebase.superclassChain, superclasses_boxOnly]
  have hinterfaces : (boxComparison old new).interfaceChanges
      (boxClass "java.lang.Number" old) (boxClass "java.lang.String" new) = [] := by
    simp only [interfaceChanges, boxComparison, Codebase.allInterfaces, supertypes_boxOnly]
    rfl
  have hunresolved : (boxComparison old new).new.unresolved
      (boxClass "java.lang.String" new) = [] := by
    rw [Codebase.unresolved, boxComparison, lineage_boxOnly]
    rfl
  have hsuperclasses : (boxComparison old new).new.unresolvedSuperclasses
      (boxClass "java.lang.String" new) = [] := by
    rw [Codebase.unresolvedSuperclasses, boxComparison, superclasses_boxOnly]
    rfl
  simp [compareClasses, hdeclaration, hfields, hconstructors, hsuper, hinterfaces, hunresolved,
    hsuperclasses]

theorem mem_methodFindings_of_mem_findings
    {old new : List Method} {f : Finding} (hf : f ∈ (boxComparison old new).findings) :
    f ∈ (boxComparison old new).methodFindings
      (boxClass "java.lang.Number" old) (boxClass "java.lang.String" new) := by
  have hpackages : ((visiblePackages (boxComparison old new).old).union
      (visiblePackages (boxComparison old new).new)).items = ["a"] := rfl
  have hclasses : (boxComparison old new).packageFindings "a" =
      (boxComparison old new).classFindings "a.Box" ++ [] := rfl
  have hpair : (boxComparison old new).classFindings "a.Box" =
      (boxComparison old new).compareClasses
        (boxClass "java.lang.Number" old) (boxClass "java.lang.String" new) := rfl
  have hmem := Finding.mem_of_mem_dropRepeated hf
  rwa [hpackages, List.flatMap_singleton, hclasses, hpair, compareClasses_boxComparison,
    List.append_nil] at hmem

/-- A new method takes over the erased signature that the bound had given to the old one. -/
def coveredBound : Comparison :=
  boxComparison [putMethod "T"] [putMethod "T", putMethod "java.lang.Number"]

theorem coveredBound_keepsSignatures :
    coveredBound.IsClean .current ∧ coveredBound.KeepsSignatures := by
  have hclean : coveredBound.IsClean .current := by
    intro e he
    obtain ⟨f, hf, -, rfl⟩ := mem_report_iff.mp he
    have hadded := mem_methodFindings_of_mem_findings hf
    simp only [methodFindings, boxComparison, Codebase.effectiveMembers, supertypes_boxOnly]
      at hadded
    cases List.mem_singleton.mp hadded
    decide
  refine ⟨hclean, (keepsSignatures_iff_coversErasures _ _ hclean).mpr ?_⟩
  intro p hp hold c hc hvisible c' hc' hvisible'
  obtain rfl : c = boxClass "java.lang.Number" [putMethod "T"] :=
    List.mem_singleton.mp (Catalog.mem_of_find? (Codebase.mem_classesIn_iff.mp hc).2)
  obtain rfl : c' = boxClass "java.lang.String" [putMethod "T", putMethod "java.lang.Number"] :=
    List.mem_singleton.mp (Catalog.mem_of_find? hc')
  constructor
  · intro m n hpair
    cases hpair
  · intro m n hpair _
    cases List.mem_singleton.mp (Pairing.mem_of_mem_pairs hpair).1
    exact .inl ⟨putMethod "java.lang.Number", .tail _ (.head _), rfl, rfl⟩

/-- The erased signature of the only method changes with the bound. -/
def changedBound : Comparison :=
  boxComparison [putMethod "T"] [putMethod "T"]

/-- Nothing is reported although no method can be called by the old erased signature. -/
theorem changedBound_loses_put :
    changedBound.IsClean .current ∧ ¬ changedBound.KeepsSignatures := by
  constructor
  · intro e he
    obtain ⟨f, hf, -, -⟩ := mem_report_iff.mp he
    cases mem_methodFindings_of_mem_findings hf
  · intro hkeeps
    obtain ⟨c', hc', -, hmembers⟩ := hkeeps _ (.head _) (.head _)
      (boxClass "java.lang.Number" [putMethod "T"]) (.head _) rfl
    obtain rfl : c' = boxClass "java.lang.String" [putMethod "T"] :=
      List.mem_singleton.mp (Catalog.mem_of_find? hc')
    rcases hmembers.methods (putMethod "T") (.head _) rfl with
      ⟨n, hn, -, hsignature⟩ | ⟨x, hx, -, howner⟩
    · cases List.mem_singleton.mp hn
      exact absurd hsignature (by decide)
    · simp only [changedBound, boxComparison, Codebase.effectiveMembers, supertypes_boxOnly] at hx
      cases List.mem_singleton.mp hx
      exact howner rfl

end Comparison

end ApiSurface
