import ApiSurface.Proofs.Reporting

/-!
# Nullability under migration

A reference is asked about one thing only: whether it leaves open a nullability that the new
codebase declares and the old one does not.  What is compared is therefore one trace of findings and
of spots, whatever the reference is; at a spot the reference chooses between two issues, and
everything else about the finding is the same.  As both issues are listed by default, reports with
and without a reference agree entry by entry up to this choice.
-/

namespace ApiSurface

open Nullness (Place Target)

/-! ## Places that a reference leaves open -/

namespace Nullness

namespace Target

/-- The codebase has the place and leaves its nullability open.  The place is looked for in the
class of the same name, in the first member with the erased signature or with the name. -/
def IsOpenIn (cb : Codebase) : Target → Prop
  | .result owner signature =>
    ∃ c ∈ cb.class? owner, ∃ m ∈ c.findMethod? signature, ∃ type ∈ m.returnType,
      type.nullability = .unknown
  | .parameter owner signature ofConstructor index =>
    ∃ c ∈ cb.class? owner,
      ∃ m ∈ if ofConstructor then c.findConstructor? signature else c.findMethod? signature,
        ∃ p ∈ m.parameters[index]?, p.type.nullability = .unknown
  | .field owner name =>
    ∃ c ∈ cb.class? owner, ∃ f ∈ c.findField? name, f.type.nullability = .unknown

theorem lookup?_eq_unknown_iff {target : Target} {cb : Codebase} :
    target.lookup? cb = some .unknown ↔ target.IsOpenIn cb := by
  cases target with
  | result owner signature => simp [lookup?, IsOpenIn, Option.bind_eq_some_iff]
  | parameter owner signature ofConstructor index =>
    cases ofConstructor <;> simp [lookup?, IsOpenIn, Option.bind_eq_some_iff]
  | field owner name => simp [lookup?, IsOpenIn, Option.bind_eq_some_iff]

instance (target : Target) (cb : Codebase) : Decidable (target.IsOpenIn cb) :=
  decidable_of_iff _ lookup?_eq_unknown_iff

theorem migrate_of_ne
    (target : Target) (reference : Option Codebase) {issue : Issue}
    (h : issue ≠ .newlyAnnotatedNullability) : target.migrate reference issue = issue := by
  simp [migrate, h]

theorem migrate_none (target : Target) (issue : Issue) : target.migrate none issue = issue := by
  simp [migrate]

theorem migrate_some (target : Target) (cb : Codebase) :
    target.migrate (some cb) .newlyAnnotatedNullability =
      if target.IsOpenIn cb then .nullabilityUnderMigration else .newlyAnnotatedNullability := by
  simp [migrate, ← lookup?_eq_unknown_iff]

end Target

theorem classify_eq_newlyAnnotated_iff {place : Place} {old new : Nullability} :
    classify place old new = some .newlyAnnotatedNullability ↔
      old = .unknown ∧ new ≠ .unknown := by
  cases place <;> cases old <;> cases new <;> decide

end Nullness

/-! ## Spots -/

/-- A type that is found on both sides and is the same but for its nullability. -/
structure Spot where
  /-- The place of the finding, if there is one. -/
  location : Location
  item : Item
  place : Place
  /-- Where a reference is asked. -/
  target : Target
  old : Nullability
  new : Nullability

namespace Spot

/-- The nullability is declared on the new side only. -/
def IsAnnotated (s : Spot) : Prop :=
  s.old = .unknown ∧ s.new ≠ .unknown

def finding (s : Spot) (issue : Issue) : Finding :=
  ⟨s.location, s.item, .nullability issue s.place s.old s.new⟩

theorem issue_finding (s : Spot) (issue : Issue) : (s.finding issue).issue = issue :=
  rfl

/-- The entry of a nullability that is newly declared at the spot. -/
def entry (s : Spot) : Entry :=
  let subject := s.item.subject s.location
  { issue := .newlyAnnotatedNullability
    severity := .error
    location := s.location
    oldValue := some s.old.label
    newValue := some s.new.label
    message :=
      s!"{s.place.label} of {subject} changed nullability from {s.old.label} to {s.new.label}" }

end Spot

/-- The entry once the change is a migration. -/
def Entry.underMigration (e : Entry) : Entry :=
  { e with issue := .nullabilityUnderMigration, severity := .migration }

def Change.isNullability : Change → Bool
  | .nullability .. => true
  | _ => false

theorem Change.isNullability_of_isPlain {change : Change} (h : change.isPlain = true) :
    change.isNullability = false := by
  cases change with
  | nullability => cases h
  | _ => rfl

theorem Change.issue_ne {change : Change} (h : change.isNullability = false) (item : Item) :
    change.issue item ≠ .newlyAnnotatedNullability := by
  cases change with
  | added => cases item <;> simp [issue]
  | removed deprecated => cases item <;> cases deprecated <;> simp [issue]
  | nullability => cases h
  | _ => simp [issue]

/-- The new method is one of the partners of the old one. -/
def Pairing.HasPartner (pairing : Pairing) (m n : Method) : Prop :=
  ∃ partners, (m, partners) ∈ pairing.matched ∧ n ∈ partners

namespace Comparison

def constructorPairing (c d : ClassDecl) : Pairing :=
  Pairing.between c (c.constructors.filter Method.isVisible) d
    (d.constructors.filter Method.isVisible)

def methodPairing (c d : ClassDecl) : Pairing :=
  Pairing.between c (c.methods.filter Method.isVisible) d (d.methods.filter Method.isVisible)

/-- The names of the type variables of a method and its class on the one side and on the other. -/
def methodRenaming (c d : ClassDecl) (m n : Method) : Renaming :=
  (Renaming.between c.typeParameters d.typeParameters).within
    (Renaming.between m.typeParameters n.typeParameters)

/-- A spot of a method or constructor and its partner: the result or a parameter.  A reference is
asked for the erased signature of the new method. -/
inductive IsMethodSpot (c d : ClassDecl) (m n : Method) : Spot → Prop where
  | result {s t : TypeRef} (old : m.returnType = some s) (new : n.returnType = some t)
      (same : (methodRenaming c d m n).sameType s t = true) :
      IsMethodSpot c d m n
        { location := .ofMember c m.exactSignature, item := itemOf m, place := .result
          target := .result d.qualifiedName (d.signatureOf n)
          old := s.nullability, new := t.nullability }
  | parameter {index : Nat} {p q : Parameter} (old : m.parameters[index]? = some p)
      (new : n.parameters[index]? = some q)
      (same : (methodRenaming c d m n).sameType p.type q.type = true) :
      IsMethodSpot c d m n
        { location := .ofMember c m.exactSignature, item := .parameter index m.isConstructor
          place := .parameter
          target := .parameter d.qualifiedName (d.signatureOf n) n.isConstructor index
          old := p.type.nullability, new := q.type.nullability }

def fieldSpot (c d : ClassDecl) (f g : Field) : Spot :=
  { location := .ofMember c f.name, item := .field
    place := if f.modifiers.isFinal then .finalField else .mutableField
    target := .field d.qualifiedName g.name
    old := f.type.nullability, new := g.type.nullability }

variable (cmp : Comparison)

/-- The classes are those of one name, each on its surface. -/
def Compares (c d : ClassDecl) : Prop :=
  ∃ name, cmp.IsListed name ∧ (cmp.old.class? name).filter ClassDecl.isVisible = some c ∧
    (cmp.new.class? name).filter ClassDecl.isVisible = some d

/-- The spots of a comparison. -/
inductive IsSpot : Spot → Prop where
  | ofConstructors {c d : ClassDecl} {m n : Method} {s : Spot} (classes : cmp.Compares c d)
      (partner : (constructorPairing c d).HasPartner m n) (spot : IsMethodSpot c d m n s) : IsSpot s
  | ofMethods {c d : ClassDecl} {m n : Method} {s : Spot} (classes : cmp.Compares c d)
      (partner : (methodPairing c d).HasPartner m n) (spot : IsMethodSpot c d m n s) : IsSpot s
  | ofFields {c d : ClassDecl} {f g : Field} (classes : cmp.Compares c d)
      (old : f ∈ c.fields.filter Field.isVisible)
      (new : ((d.fields.filter Field.isVisible).find? fun g => g.name == f.name) = some g)
      (same : (Renaming.between c.typeParameters d.typeParameters).sameType f.type g.type = true) :
      IsSpot (fieldSpot c d f g)

/-! ## Traces -/

def referringTo (reference : Option Codebase) : Comparison :=
  { cmp with reference }

section Referring

variable (reference : Option Codebase)

@[simp]
theorem referringTo_old : (cmp.referringTo reference).old = cmp.old :=
  rfl

@[simp]
theorem referringTo_new : (cmp.referringTo reference).new = cmp.new :=
  rfl

@[simp]
theorem superclassChanges_referringTo (c d : ClassDecl) :
    (cmp.referringTo reference).superclassChanges c d = cmp.superclassChanges c d :=
  rfl

@[simp]
theorem interfaceChanges_referringTo (c d : ClassDecl) :
    (cmp.referringTo reference).interfaceChanges c d = cmp.interfaceChanges c d :=
  rfl

end Referring

/-- What is told under a reference: a finding as it is, or the nullability that is newly declared at
a spot. -/
def told (reference : Option Codebase) : Finding ⊕ Spot → Finding
  | .inl f => f
  | .inr s => s.finding (s.target.migrate reference .newlyAnnotatedNullability)

/-- All nullability that is newly declared is told at spots. -/
def IsTold : Finding ⊕ Spot → Prop
  | .inl f => f.issue ≠ .newlyAnnotatedNullability
  | .inr s => cmp.IsSpot s ∧ s.IsAnnotated

/-- What is found under the various references is one trace. -/
def Traces (found : Option Codebase → List Finding) : Prop :=
  ∃ trace : List (Finding ⊕ Spot), (∀ x ∈ trace, cmp.IsTold x) ∧
    ∀ reference, found reference = trace.map (told reference)

variable {cmp}

theorem Traces.append
    {f g : Option Codebase → List Finding} (hf : cmp.Traces f) (hg : cmp.Traces g) :
    cmp.Traces fun reference => f reference ++ g reference := by
  obtain ⟨xs, hxs, hf⟩ := hf
  obtain ⟨ys, hys, hg⟩ := hg
  refine ⟨xs ++ ys, List.forall_mem_append.mpr ⟨hxs, hys⟩, fun reference => ?_⟩
  simp only [List.map_append, hf, hg]

theorem Traces.flatMap
    {α : Type} {xs : List α} {f : Option Codebase → α → List Finding}
    (h : ∀ x ∈ xs, cmp.Traces fun reference => f reference x) :
    cmp.Traces fun reference => xs.flatMap (f reference) := by
  induction xs with
  | nil => exact ⟨[], List.forall_mem_nil _, fun _ => rfl⟩
  | cons x xs ih =>
    have hfirst := h x List.mem_cons_self
    simpa only [List.flatMap_cons] using
      hfirst.append (ih fun y hy => h y (List.mem_cons_of_mem _ hy))

/-- Findings that declare no nullability do not depend on a reference. -/
theorem traces_const {fs : List Finding} (h : ∀ f ∈ fs, f.issue ≠ .newlyAnnotatedNullability) :
    cmp.Traces fun _ => fs := by
  refine ⟨fs.map .inl, ?_, fun reference => ?_⟩
  · intro x hx
    obtain ⟨f, hf, rfl⟩ := List.mem_map.mp hx
    exact h f hf
  · rw [List.map_map]
    exact (List.map_id fs).symm

/-! ## Changes other than those of nullability -/

section Plain

open Change (isPlain)

theorem traces_changes
    {changes : List Change} (h : ∀ change ∈ changes, change.isNullability = false)
    (location : Location) (item : Item) :
    cmp.Traces fun _ => changes.map (Finding.mk location item) := by
  apply traces_const
  intro f hf
  obtain ⟨change, hchange, rfl⟩ := List.mem_map.mp hf
  exact Change.issue_ne (h change hchange) item

theorem traces_plain
    {changes : List Change} (h : changes.all isPlain = true) (location : Location) (item : Item) :
    cmp.Traces fun _ => changes.map (Finding.mk location item) :=
  traces_changes (fun change hchange =>
    Change.isNullability_of_isPlain (List.all_eq_true.mp h change hchange)) location item

theorem traces_singleton {change : Change} (h : change.isNullability = false) (location : Location)
    (item : Item) : cmp.Traces fun _ => [⟨location, item, change⟩] :=
  traces_const (List.forall_mem_singleton.mpr (Change.issue_ne h item))

theorem traces_addedMethod (c : ClassDecl) (m : Method) :
    cmp.Traces fun _ => addedMethod c m := by
  apply traces_changes
  cases hdemanded : demandsImplementation c m <;> simp [Change.when, Change.isNullability]

theorem traces_interfaceChanges (c d : ClassDecl) (location : Location) (item : Item) :
    cmp.Traces fun _ => (cmp.interfaceChanges c d).map (Finding.mk location item) := by
  apply traces_changes
  simp only [interfaceChanges, List.forall_mem_append, List.forall_mem_map]
  exact ⟨fun _ _ => rfl, fun _ _ => rfl⟩

end Plain

/-! ## The trace of a comparison -/

section Trace

variable {c d : ClassDecl}

/-- A type that is the same on both sides is a spot; one that is not is no matter of nullability. -/
theorem traces_typeChanges
    {r : Renaming} {location : Location} {item : Item} {place : Place} {target : Target}
    {s t : TypeRef}
    (hspot : r.sameType s t = true →
      cmp.IsSpot ⟨location, item, place, target, s.nullability, t.nullability⟩) :
    cmp.Traces fun reference =>
      ((cmp.referringTo reference).typeChanges r place target s t).map
        (Finding.mk location item) := by
  simp only [typeChanges]
  split
  · rename_i hsame
    simp only [nullnessChanges]
    cases hclass : Nullness.classify place s.nullability t.nullability with
    | none => exact traces_const (List.forall_mem_nil _)
    | some issue =>
      by_cases hissue : issue = .newlyAnnotatedNullability
      · subst hissue
        have hannotated := Nullness.classify_eq_newlyAnnotated_iff.mp hclass
        exact ⟨[.inr _], List.forall_mem_singleton.mpr ⟨hspot hsame, hannotated⟩, fun _ => rfl⟩
      · simp only [target.migrate_of_ne _ hissue]
        exact traces_const (List.forall_mem_singleton.mpr hissue)
  · exact traces_plain rfl location item

theorem traces_compareMethods {m n : Method} (h : ∀ s, IsMethodSpot c d m n s → cmp.IsSpot s) :
    cmp.Traces fun reference => (cmp.referringTo reference).compareMethods c d m n := by
  simp only [compareMethods, List.map_append]
  refine ((Traces.append ?_ ?_).append (Traces.flatMap ?_)).append ?_
  · exact traces_plain (all_isPlain_methodModifierChanges c m n) _ _
  · cases hold : m.returnType with
    | none => exact traces_const (List.forall_mem_nil _)
    | some s =>
      cases hnew : n.returnType with
      | none => exact traces_const (List.forall_mem_nil _)
      | some t => exact traces_typeChanges fun hsame => h _ (.result hold hnew hsame)
  · rintro ⟨⟨p, q⟩, index⟩ hmem
    have hindex := List.mem_zipIdx_iff_getElem?.mp hmem
    obtain ⟨hold, hnew⟩ := List.getElem?_zip_eq_some.mp hindex
    simp only
    exact (traces_typeChanges fun hsame => h _ (.parameter hold hnew hsame)).append
      (traces_plain (all_isPlain_parameterChanges p q) _ _)
  · rw [← List.map_append]
    apply traces_plain
    simp [all_isPlain_throwsChanges, all_isPlain_defaultChanges]

/-- Only methods with partners have spots. -/
theorem traces_methods
    {pairing : Pairing}
    (h : ∀ m n s, pairing.HasPartner m n → IsMethodSpot c d m n s → cmp.IsSpot s)
    (removed added : List Method) :
    cmp.Traces fun reference =>
      (cmp.referringTo reference).pairFindings c d pairing ++ removed.map (removedMethod c) ++
        added.flatMap (addedMethod d) := by
  refine (Traces.append ?_ (traces_const ?_)).append
    (Traces.flatMap fun m _ => traces_addedMethod d m)
  · refine Traces.flatMap fun x hx => Traces.flatMap fun n hn => ?_
    exact traces_compareMethods fun s => h x.1 n s ⟨x.2, hx, hn⟩
  · exact List.forall_mem_map.mpr fun m _ => Change.issue_ne rfl _

theorem traces_constructorFindings (hclasses : cmp.Compares c d) :
    cmp.Traces fun reference => (cmp.referringTo reference).constructorFindings c d :=
  traces_methods (fun _ _ _ hpartner hspot => .ofConstructors hclasses hpartner hspot) _ _

theorem traces_methodFindings (hclasses : cmp.Compares c d) :
    cmp.Traces fun reference => (cmp.referringTo reference).methodFindings c d := by
  simp only [methodFindings, referringTo_old, referringTo_new]
  exact traces_methods (fun _ _ _ hpartner hspot => .ofMethods hclasses hpartner hspot) _ _

theorem traces_compareFields
    {f g : Field} (hclasses : cmp.Compares c d) (hold : f ∈ c.fields.filter Field.isVisible)
    (hnew : ((d.fields.filter Field.isVisible).find? fun g => g.name == f.name) = some g) :
    cmp.Traces fun reference => (cmp.referringTo reference).compareFields c d f g := by
  simp only [compareFields, List.map_append]
  refine ((Traces.append ?_ ?_).append ?_).append ?_
  · exact traces_plain (all_isPlain_fieldModifierChanges _ _) _ _
  · exact traces_typeChanges fun hsame => .ofFields hclasses hold hnew hsame
  · exact traces_plain (all_isPlain_valueChanges _ _) _ _
  · exact traces_plain (all_isPlain_modifiers _ _).2.2 _ _

theorem traces_fieldFindings (hclasses : cmp.Compares c d) :
    cmp.Traces fun reference => (cmp.referringTo reference).fieldFindings c d := by
  simp only [fieldFindings, referringTo_old, referringTo_new]
  refine Traces.append (Traces.flatMap fun f hf => ?_) (traces_const ?_)
  · cases hfind : (d.fields.filter Field.isVisible).find? fun g => g.name == f.name with
    | some g => exact traces_compareFields hclasses hf hfind
    | none =>
      have hplain : ∀ x ∈ (if ((cmp.new.effectiveMembers d).findInheritedField? f.name).isSome
          then [] else [removedField c f]), x.issue ≠ .newlyAnnotatedNullability := by
        split
        · exact List.forall_mem_nil _
        · exact List.forall_mem_singleton.mpr (Change.issue_ne rfl _)
      exact traces_const hplain
  · exact List.forall_mem_map.mpr fun g _ => Change.issue_ne rfl _

theorem traces_compareClasses (hclasses : cmp.Compares c d) :
    cmp.Traces fun reference => (cmp.referringTo reference).compareClasses c d := by
  have hreferences : ∀ references : List Unresolved, cmp.Traces fun _ =>
      (references.map Change.unresolved).map
        (Finding.mk (Location.ofClass d) (.classDecl d.kind)) := by
    intro references
    apply traces_const
    simp [Finding.issue, Change.issue]
  simp only [compareClasses, referringTo_new, superclassChanges_referringTo,
    interfaceChanges_referringTo, List.map_append]
  refine ((Traces.append ?_ (traces_constructorFindings hclasses)).append
    (traces_methodFindings hclasses)).append (traces_fieldFindings hclasses)
  refine (((Traces.append ?_ (hreferences _)).append ?_).append (hreferences _)).append ?_
  · exact traces_plain (all_isPlain_declarationChanges c d) _ _
  · exact traces_plain (all_isPlain_superclassChanges cmp c d) _ _
  · exact traces_interfaceChanges c d _ _

theorem traces_classFindings {name : String} (hlisted : cmp.IsListed name) :
    cmp.Traces fun reference => (cmp.referringTo reference).classFindings name := by
  simp only [classFindings, referringTo_old, referringTo_new]
  cases hold : (cmp.old.class? name).filter ClassDecl.isVisible with
  | none =>
    cases hnew : (cmp.new.class? name).filter ClassDecl.isVisible with
    | none => exact traces_const (List.forall_mem_nil _)
    | some d => exact traces_singleton rfl _ _
  | some c =>
    cases hnew : (cmp.new.class? name).filter ClassDecl.isVisible with
    | none => exact traces_singleton rfl _ _
    | some d => exact traces_compareClasses ⟨name, hlisted, hold, hnew⟩

/-- A package on the one surface or the other is compared class by class if it is on both. -/
theorem traces_packageFindings
    {package : String} (heither : package ∈ (visiblePackages cmp.old).items ∨
      package ∈ (visiblePackages cmp.new).items) :
    cmp.Traces fun reference => (cmp.referringTo reference).packageFindings package := by
  simp only [packageFindings, referringTo_old, referringTo_new]
  cases hold : (visiblePackages cmp.old).contains package with
  | false =>
    cases hnew : (visiblePackages cmp.new).contains package with
    | false =>
      simp only [← NameSet.contains_iff_mem, hold, hnew] at heither
      cases heither <;> contradiction
    | true => exact traces_singleton rfl _ _
  | true =>
    cases hnew : (visiblePackages cmp.new).contains package with
    | false => exact traces_singleton rfl _ _
    | true =>
      refine Traces.flatMap fun name hname => traces_classFindings ?_
      exact ⟨package, NameSet.contains_iff_mem.mp hold, NameSet.contains_iff_mem.mp hnew,
        NameSet.mem_union_iff.mp hname⟩

theorem unresolved?_told (reference : Option Codebase) (x : Finding ⊕ Spot) :
    (told reference x).unresolved? = (told none x).unresolved? := by
  cases x <;> rfl

/-- Dropping repeated references looks at no nullability, hence drops the same under every
reference. -/
theorem Traces.dropRepeated {found : Option Codebase → List Finding} (h : cmp.Traces found) :
    cmp.Traces fun reference => Finding.dropRepeated [] (found reference) := by
  obtain ⟨trace, htold, hfound⟩ := h
  have hdrop : ∀ met, ∃ kept : List (Finding ⊕ Spot), kept.Sublist trace ∧ ∀ reference,
      Finding.dropRepeated met (trace.map (told reference)) = kept.map (told reference) := by
    clear htold hfound
    induction trace with
    | nil => exact fun met => ⟨[], .refl _, fun _ => rfl⟩
    | cons x trace ih =>
      intro met
      cases hx : (told none x).unresolved? with
      | none =>
        obtain ⟨kept, hsublist, hkept⟩ := ih met
        refine ⟨x :: kept, hsublist.cons_cons x, fun reference => ?_⟩
        simp [Finding.dropRepeated, unresolved?_told reference x, hx, hkept]
      | some missing =>
        by_cases hmet : missing ∈ met
        · obtain ⟨kept, hsublist, hkept⟩ := ih met
          refine ⟨kept, hsublist.cons x, fun reference => ?_⟩
          simp [Finding.dropRepeated, unresolved?_told reference x, hx, hmet, hkept]
        · obtain ⟨kept, hsublist, hkept⟩ := ih (missing :: met)
          refine ⟨x :: kept, hsublist.cons_cons x, fun reference => ?_⟩
          simp [Finding.dropRepeated, unresolved?_told reference x, hx, hmet, hkept]
  obtain ⟨kept, hsublist, hkept⟩ := hdrop []
  refine ⟨kept, fun x hx => htold x (hsublist.subset hx), fun reference => ?_⟩
  simp only [hfound, hkept]

/-- What is found is one trace, read under the reference. -/
theorem traces_findings (cmp : Comparison) :
    cmp.Traces fun reference => (cmp.referringTo reference).findings := by
  simp only [findings, referringTo_old, referringTo_new]
  refine Traces.dropRepeated (Traces.flatMap fun package hpackage => ?_)
  exact traces_packageFindings (NameSet.mem_union_iff.mp hpackage)

end Trace

/-! ## Reports with and without a reference -/

theorem location_told (reference : Option Codebase) (x : Finding ⊕ Spot) :
    (told reference x).location = (told none x).location := by
  cases x <;> rfl

/-- What is listed by default is listed by default under every reference. -/
theorem isReported_told (mode : Mode) (reference : Option Codebase) (x : Finding ⊕ Spot) :
    isReported {} mode (told reference x).issue = isReported {} mode (told none x).issue := by
  cases x with
  | inl f => rfl
  | inr s =>
    simp only [told, Finding.issue, Spot.finding, Change.issue, Target.migrate]
    split <;> cases mode <;> rfl

/-- The entries of a report are one trace too: they are let through and sorted alike. -/
theorem exists_trace_report (cmp : Comparison) (mode : Mode) :
    ∃ trace : List (Finding ⊕ Spot), (∀ x ∈ trace, cmp.IsTold x) ∧
      ∀ reference, ((cmp.referringTo reference).report {} mode).entries =
        trace.map fun x => Entry.ofFinding {} (told reference x) := by
  obtain ⟨trace, htold, hfindings⟩ := cmp.traces_findings
  let listed := trace.filter fun x => isReported {} mode (told none x).issue
  let before (x y : Finding ⊕ Spot) : Bool :=
    ((told none x).location.compare (told none y).location).isLE
  refine ⟨listed.mergeSort before, fun x hx => ?_, fun reference => ?_⟩
  · exact htold x (List.mem_of_mem_filter (List.mem_mergeSort.mp hx))
  · have hfound : (cmp.referringTo reference).findings = trace.map (told reference) :=
      hfindings reference
    have hlisted :
        (cmp.referringTo reference).findings.filter (fun f => isReported {} mode f.issue) =
          listed.map (told reference) := by
      rw [hfound, List.filter_map]
      simp only [Function.comp_def, isReported_told mode reference]
      rfl
    calc
      ((cmp.referringTo reference).report {} mode).entries
        = ((listed.map (told reference)).map (Entry.ofFinding {})).mergeSort
            fun a b => (a.location.compare b.location).isLE := by
        rw [← hlisted, report_eq]
        rfl
      _ = (listed.map fun x => Entry.ofFinding {} (told reference x)).mergeSort
            fun a b => (a.location.compare b.location).isLE := by rw [List.map_map]; rfl
      _ = (listed.mergeSort before).map fun x => Entry.ofFinding {} (told reference x) := by
        refine (List.map_mergeSort fun x _ y _ => ?_).symm
        simp only [before, Entry.ofFinding, location_told reference]

/-- The entry of what is told without a reference, or the spot at which it is told. -/
def entryOrSpot : Finding ⊕ Spot → Entry ⊕ Spot
  | .inl f => .inl (Entry.ofFinding {} f)
  | .inr s => .inr s

theorem ofFinding_told_none (x : Finding ⊕ Spot) :
    Entry.ofFinding {} (told none x) = Sum.elim id Spot.entry (entryOrSpot x) := by
  cases x with
  | inl f => rfl
  | inr s =>
    rw [told, Target.migrate_none]
    rfl

theorem ofFinding_told_some (migration : Codebase) (x : Finding ⊕ Spot) :
    Entry.ofFinding {} (told (some migration) x) =
      Sum.elim id (fun s =>
        if s.target.IsOpenIn migration then s.entry.underMigration else s.entry)
          (entryOrSpot x) := by
  cases x with
  | inl f => rfl
  | inr s =>
    rw [told, Target.migrate_some, entryOrSpot, Sum.elim_inr]
    split <;> rfl

/-- A reference changes nothing in a report but this: of the entries that say that a nullability is
newly declared, those at spots that the reference leaves open say that it is under migration.  Which
entry belongs to which spot does not depend on the reference. -/
theorem report_reference_downgrades (old new : Codebase) (mode : Mode) :
    ∃ trace : List (Entry ⊕ Spot),
      (∀ e, .inl e ∈ trace → e.issue ≠ .newlyAnnotatedNullability) ∧
      (∀ s, .inr s ∈ trace → IsSpot { old, new } s ∧ s.IsAnnotated) ∧
      (report { old, new } {} mode).entries = trace.map (Sum.elim id Spot.entry) ∧
      ∀ migration, (report { old, new, reference := some migration } {} mode).entries =
        trace.map (Sum.elim id fun s =>
          if s.target.IsOpenIn migration then s.entry.underMigration else s.entry) := by
  obtain ⟨trace, htold, hentries⟩ := exists_trace_report { old, new } mode
  refine ⟨trace.map entryOrSpot, ?_, ?_, ?_, fun migration => ?_⟩
  · intro e he
    obtain ⟨x, hx, hentry⟩ := List.mem_map.mp he
    cases x with
    | inl f =>
      cases hentry
      exact htold _ hx
    | inr s => cases hentry
  · intro s hs
    obtain ⟨x, hx, hspot⟩ := List.mem_map.mp hs
    cases x with
    | inl f => cases hspot
    | inr s =>
      cases hspot
      exact htold _ hx
  · rw [List.map_map]
    exact (hentries none).trans (List.map_congr_left fun x _ => ofFinding_told_none x)
  · rw [List.map_map]
    exact (hentries (some migration)).trans
      (List.map_congr_left fun x _ => ofFinding_told_some migration x)

end Comparison

end ApiSurface
