import ApiSurface.Proofs.Index
import ApiSurface.Proofs.Pairing
import ApiSurface.Proofs.Unchanged

/-!
# Comparing the other way round

What one codebase has and another has not is removed in the one direction and added in the other.
The findings that say so agree one by one, in place and in value: packages, classes and interfaces
are compared as sets, the methods that are left over by a pairing do not depend on the side from
which it starts, and the inherited members that excuse a removal are those that excuse the addition.
-/

namespace ApiSurface

/-! ## Removals and additions -/

/-- The addition that a removal is when the comparison is turned round. -/
def Issue.reversed? : Issue → Option Issue
  | .removedPackage => some .addedPackage
  | .removedClass => some .addedClass
  | .removedDeprecatedClass => some .addedClass
  | .removedInterface => some .addedInterface
  | .removedMethod => some .addedMethod
  | .removedDeprecatedMethod => some .addedMethod
  | .removedField => some .addedField
  | _ => none

def Issue.isAddition : Issue → Bool
  | .addedPackage => true
  | .addedClass => true
  | .addedInterface => true
  | .addedMethod => true
  | .addedField => true
  | _ => false

/-- The removals in a report, each as the addition that it is the other way round: issue, place and
the value that is gone. -/
def Report.reversedRemovals (r : Report) : List (Issue × Location × Option String) :=
  r.entries.filterMap fun e => e.issue.reversed?.map fun issue => (issue, e.location, e.oldValue)

/-- The additions in a report: issue, place and the value that is new. -/
def Report.additions (r : Report) : List (Issue × Location × Option String) :=
  r.entries.filterMap fun e =>
    if e.issue.isAddition then some (e.issue, e.location, e.newValue) else none

namespace Finding

/-- A removal as the addition that it is the other way round. -/
def reversedRemoval? (f : Finding) : Option (Issue × Location × Option String) :=
  f.issue.reversed?.map fun issue => (issue, f.location, f.change.oldValue)

/-- An addition with its place and value. -/
def addition? (f : Finding) : Option (Issue × Location × Option String) :=
  if f.issue.isAddition then some (f.issue, f.location, f.change.newValue) else none

/-- The finding is about something on both sides. -/
def IsAlteration (f : Finding) : Prop :=
  f.issue.reversed? = none ∧ f.issue.isAddition = false

theorem IsAlteration.reversedRemoval? {f : Finding} (h : f.IsAlteration) :
    f.reversedRemoval? = none := by
  simp [Finding.reversedRemoval?, h.1]

theorem IsAlteration.addition? {f : Finding} (h : f.IsAlteration) : f.addition? = none := by
  simp [Finding.addition?, h.2]

theorem filterMap_reversedRemoval?_eq_nil
    {fs : List Finding} (h : ∀ f ∈ fs, f.IsAlteration) : fs.filterMap reversedRemoval? = [] :=
  List.filterMap_eq_nil_iff.mpr fun f hf => (h f hf).reversedRemoval?

theorem filterMap_addition?_eq_nil
    {fs : List Finding} (h : ∀ f ∈ fs, f.IsAlteration) : fs.filterMap addition? = [] :=
  List.filterMap_eq_nil_iff.mpr fun f hf => (h f hf).addition?

/-- Dropping repeated references loses neither removals nor additions. -/
theorem filterMap_dropRepeated
    {α : Type} {g : Finding → Option α} (hg : ∀ f, f.unresolved? ≠ none → g f = none)
    (met : List Unresolved) (fs : List Finding) :
    (dropRepeated met fs).filterMap g = fs.filterMap g := by
  induction fs generalizing met with
  | nil => rfl
  | cons f fs ih =>
    cases hf : f.unresolved? with
    | none => simp [dropRepeated, hf, List.filterMap_cons, ih]
    | some reference =>
      have hnone : g f = none := hg f (by simp [hf])
      by_cases hmet : reference ∈ met
      · simp [dropRepeated, hf, hmet, hnone, ih]
      · simp [dropRepeated, hf, hmet, hnone, ih]

theorem isAlteration_of_unresolved? {f : Finding} (h : f.unresolved? ≠ none) : f.IsAlteration := by
  rw [unresolved?] at h
  split at h
  · rename_i hchange
    rw [IsAlteration, issue, hchange]
    exact ⟨rfl, rfl⟩
  · exact absurd rfl h

end Finding

/-- The change is about something on both sides, whatever and wherever it is. -/
def Change.IsAlteration (change : Change) : Prop :=
  ∀ location item, (Finding.mk location item change).IsAlteration

/-- No two constructors and no two methods of a class have the same erased signature. -/
def Codebase.HasUniqueSignatures (cb : Codebase) : Prop :=
  ∀ c ∈ cb.classes.items, (c.constructors.map c.signatureOf).Nodup ∧
    (c.methods.map c.signatureOf).Nodup

/-- Classes of one qualified name are in packages of one name. -/
def Codebase.AgreesOnPackages (a b : Codebase) : Prop :=
  ∀ c ∈ a.classes.items, ∀ d ∈ b.classes.items, c.qualifiedName = d.qualifiedName →
    c.package = d.package

theorem NameSet.union_comm (a b : NameSet) : a.union b = b.union a := by
  refine Catalog.eq_of_mem_iff fun name => ?_
  rw [mem_union_iff, mem_union_iff, or_comm]

namespace Comparison

open Finding (reversedRemoval? addition?)

/-- What is told of the entries of a report is what is told of the findings behind them, as long as
nothing is told of findings that are not reported. -/
theorem filterMap_entries_perm
    {α : Type} {g : Entry → Option α} {told : Finding → Option α}
    (hg : ∀ f, g (Entry.ofFinding {} f) = told f)
    (htold : ∀ f, told f ≠ none → isReported {} .current f.issue = true) (cmp : Comparison) :
    ((cmp.report {} .current).entries.filterMap g).Perm (cmp.findings.filterMap told) := by
  have hsorted := List.mergeSort_perm
    ((cmp.findings.filter fun f => isReported {} .current f.issue).map (Entry.ofFinding {}))
    fun a b => (a.location.compare b.location).isLE
  rw [report_eq]
  refine (hsorted.filterMap _).trans (.of_eq ?_)
  rw [List.filterMap_map, List.filterMap_filter]
  refine List.filterMap_congr fun f _ => ?_
  by_cases hreported : isReported {} .current f.issue = true
  · simp [hreported, hg]
  · have hnone : told f = none := by
      by_contra hne
      exact hreported (htold f hne)
    simp [hreported, hnone]

theorem reversedRemovals_perm (cmp : Comparison) :
    (cmp.report {} .current).reversedRemovals.Perm (cmp.findings.filterMap reversedRemoval?) := by
  have hreported : ∀ f : Finding, f.reversedRemoval? ≠ none →
      isReported {} .current f.issue = true := by
    intro f hf
    rw [reversedRemoval?] at hf
    cases hissue : f.issue <;> simp [hissue, Issue.reversed?] at hf <;> rfl
  exact filterMap_entries_perm (fun _ => rfl) hreported cmp

theorem additions_perm (cmp : Comparison) :
    (cmp.report {} .current).additions.Perm (cmp.findings.filterMap addition?) := by
  have hreported : ∀ f : Finding, f.addition? ≠ none →
      isReported {} .current f.issue = true := by
    intro f hf
    rw [addition?] at hf
    cases hissue : f.issue <;> simp [hissue, Issue.isAddition] at hf <;> rfl
  exact filterMap_entries_perm (fun _ => rfl) hreported cmp

/-! ## What is on both sides -/

/-- Whatever alters something that stays is neither a removal nor an addition. -/
theorem isAlteration_of_isPlain
    {changes : List Change} (hplain : changes.all Change.isPlain = true) {change : Change}
    (h : change ∈ changes) : change.IsAlteration := by
  have hchange := List.all_eq_true.mp hplain change h
  intro location item
  cases change with
  | added | addedAbstract | removed | addedInterface | removedInterface | nullability
  | unresolved =>
    cases hchange
  | _ => exact ⟨rfl, rfl⟩

/-- The issue of a change of nullability is never one of something removed or added. -/
theorem isAlteration_of_mem_typeChanges
    {cmp : Comparison} {r : Renaming} {place : Nullness.Place} {target : Nullness.Target}
    {old new : TypeRef} {change : Change} (h : change ∈ cmp.typeChanges r place target old new) :
    change.IsAlteration := by
  rw [typeChanges] at h
  split at h
  · rw [nullnessChanges] at h
    split at h
    · rename_i issue hissue
      cases List.mem_singleton.mp h
      intro location item
      have hnullness : issue = .newlyAnnotatedNullability ∨ issue = .invalidNullConversion ∨
          issue = .compatibleNullChange := by
        simp only [Nullness.classify] at hissue
        split_ifs at hissue <;> simp_all
      rw [Finding.IsAlteration, Finding.issue, Change.issue, Nullness.Target.migrate]
      rcases hnullness with rfl | rfl | rfl <;> split <;> exact ⟨rfl, rfl⟩
    · cases h
  · cases List.mem_singleton.mp h
    exact fun _ _ => ⟨rfl, rfl⟩

theorem isAlteration_of_mem_compareMethods
    {cmp : Comparison} {oldClass newClass : ClassDecl} {old new : Method} {f : Finding}
    (h : f ∈ cmp.compareMethods oldClass newClass old new) : f.IsAlteration := by
  simp only [compareMethods, List.mem_append, List.mem_map, List.mem_flatMap] at h
  rcases h with (⟨change, h, rfl⟩ | ⟨x, -, change, h, rfl⟩) | ⟨change, h, rfl⟩
  · rcases h with h | h
    · exact isAlteration_of_isPlain (all_isPlain_methodModifierChanges ..) h _ _
    · split at h
      · exact isAlteration_of_mem_typeChanges h _ _
      · cases h
  · rcases h with h | h
    · exact isAlteration_of_mem_typeChanges h _ _
    · exact isAlteration_of_isPlain (all_isPlain_parameterChanges ..) h _ _
  · rcases h with h | h
    · exact isAlteration_of_isPlain (all_isPlain_throwsChanges ..) h _ _
    · exact isAlteration_of_isPlain (all_isPlain_defaultChanges ..) h _ _

theorem isAlteration_of_mem_pairFindings
    {cmp : Comparison} {oldClass newClass : ClassDecl} {pairing : Pairing} {f : Finding}
    (h : f ∈ cmp.pairFindings oldClass newClass pairing) : f.IsAlteration := by
  simp only [pairFindings, List.mem_flatMap] at h
  obtain ⟨_, -, _, -, h⟩ := h
  exact isAlteration_of_mem_compareMethods h

theorem isAlteration_of_mem_compareFields
    {cmp : Comparison} {oldClass newClass : ClassDecl} {old new : Field} {f : Finding}
    (h : f ∈ cmp.compareFields oldClass newClass old new) : f.IsAlteration := by
  simp only [compareFields, List.mem_append, List.mem_map] at h
  obtain ⟨change, h, rfl⟩ := h
  rcases h with ((h | h) | h) | h
  · exact isAlteration_of_isPlain (all_isPlain_fieldModifierChanges ..) h _ _
  · exact isAlteration_of_mem_typeChanges h _ _
  · exact isAlteration_of_isPlain (all_isPlain_valueChanges ..) h _ _
  · exact isAlteration_of_isPlain (all_isPlain_modifiers ..).2.2 h _ _

/-! ## Members on one side -/

/-- What is told of a method that one of two classes has in addition. -/
def methodPresence (c : ClassDecl) (m : Method) : Issue × Location × Option String :=
  (.addedMethod, Location.ofMember c m.exactSignature, some m.exactSignature)

/-- What is told of a field that one of two classes has in addition. -/
def fieldPresence (c : ClassDecl) (f : Field) : Issue × Location × Option String :=
  (.addedField, Location.ofMember c f.name, some f.type.canonical)

theorem reversedRemoval?_removedMethod (c : ClassDecl) (m : Method) :
    (removedMethod c m).reversedRemoval? = some (methodPresence c m) := by
  cases hdeprecated : m.modifiers.isDeprecated <;> cases hconstructor : m.isConstructor <;>
    simp [removedMethod, itemOf, reversedRemoval?, Finding.issue, Change.issue, Change.oldValue,
      Issue.reversed?, methodPresence, hdeprecated, hconstructor]

theorem addition?_removedMethod (c : ClassDecl) (m : Method) :
    (removedMethod c m).addition? = none := by
  cases hdeprecated : m.modifiers.isDeprecated <;> cases hconstructor : m.isConstructor <;>
    simp [removedMethod, itemOf, addition?, Finding.issue, Change.issue, Issue.isAddition,
      hdeprecated, hconstructor]

theorem filterMap_reversedRemoval?_addedMethod (c : ClassDecl) (m : Method) :
    (addedMethod c m).filterMap reversedRemoval? = [] := by
  cases hdemands : demandsImplementation c m <;> cases hconstructor : m.isConstructor <;>
    simp [addedMethod, itemOf, reversedRemoval?, Finding.issue, Change.issue, Issue.reversed?,
      Change.when, hdemands, hconstructor]

theorem filterMap_addition?_addedMethod (c : ClassDecl) (m : Method) :
    (addedMethod c m).filterMap addition? = [methodPresence c m] := by
  cases hdemands : demandsImplementation c m <;> cases hconstructor : m.isConstructor <;>
    simp [addedMethod, itemOf, addition?, Finding.issue, Change.issue, Change.newValue,
      Issue.isAddition, methodPresence, Change.when, hdemands, hconstructor]

/-- The removals among findings about pairs, removed methods and added methods. -/
theorem filterMap_reversedRemoval?_methods
    (cmp : Comparison) (oldClass newClass : ClassDecl) (pairing : Pairing)
    (removed added : List Method) :
    (cmp.pairFindings oldClass newClass pairing ++ removed.map (removedMethod oldClass) ++
      added.flatMap (addedMethod newClass)).filterMap reversedRemoval? =
        removed.map (methodPresence oldClass) := by
  have hpairs := Finding.filterMap_reversedRemoval?_eq_nil
    fun f (hf : f ∈ cmp.pairFindings oldClass newClass pairing) =>
      isAlteration_of_mem_pairFindings hf
  have hremoved : (removed.map (removedMethod oldClass)).filterMap reversedRemoval? =
      removed.map (methodPresence oldClass) := by
    simp [List.filterMap_map, reversedRemoval?_removedMethod]
  have hadded : (added.flatMap (addedMethod newClass)).filterMap reversedRemoval? = [] := by
    simp [List.filterMap_flatMap, filterMap_reversedRemoval?_addedMethod]
  rw [List.filterMap_append, List.filterMap_append, hpairs, hremoved, hadded, List.append_nil,
    List.nil_append]

/-- The additions among findings about pairs, removed methods and added methods. -/
theorem filterMap_addition?_methods
    (cmp : Comparison) (oldClass newClass : ClassDecl) (pairing : Pairing)
    (removed added : List Method) :
    (cmp.pairFindings oldClass newClass pairing ++ removed.map (removedMethod oldClass) ++
      added.flatMap (addedMethod newClass)).filterMap addition? =
        added.map (methodPresence newClass) := by
  have hpairs := Finding.filterMap_addition?_eq_nil
    fun f (hf : f ∈ cmp.pairFindings oldClass newClass pairing) =>
      isAlteration_of_mem_pairFindings hf
  have hremoved : (removed.map (removedMethod oldClass)).filterMap addition? = [] := by
    simp [List.filterMap_map, addition?_removedMethod]
  have hadded : (added.flatMap (addedMethod newClass)).filterMap addition? =
      added.map (methodPresence newClass) := by
    simp [List.filterMap_flatMap, filterMap_addition?_addedMethod, ← List.map_eq_flatMap]
  rw [List.filterMap_append, List.filterMap_append, hpairs, hremoved, hadded, List.append_nil,
    List.nil_append]

/-- What is told of an interface that one of two classes has in addition. -/
def interfacePresence (c : ClassDecl) (name : String) : Issue × Location × Option String :=
  (.addedInterface, Location.ofClass c, some name)

/-- The changes of a class itself, apart from its interfaces, are about what is on both sides. -/
theorem isAlteration_of_mem_classChanges
    {cmp : Comparison} {old new : ClassDecl} {change : Change}
    (h : change ∈ declarationChanges old new ++
      (cmp.new.unresolvedSuperclasses new).map Change.unresolved ++
      cmp.superclassChanges old new ++ (cmp.new.unresolved new).map Change.unresolved) :
    change.IsAlteration := by
  rcases List.mem_append.mp h with h | h
  · rcases List.mem_append.mp h with h | h
    · rcases List.mem_append.mp h with h | h
      · exact isAlteration_of_isPlain (all_isPlain_declarationChanges ..) h
      · obtain ⟨_, -, rfl⟩ := List.mem_map.mp h
        exact fun _ _ => ⟨rfl, rfl⟩
    · exact isAlteration_of_isPlain (all_isPlain_superclassChanges ..) h
  · obtain ⟨_, -, rfl⟩ := List.mem_map.mp h
    exact fun _ _ => ⟨rfl, rfl⟩

theorem filterMap_reversedRemoval?_compareClasses (cmp : Comparison) (old new : ClassDecl) :
    (cmp.compareClasses old new).filterMap reversedRemoval? =
      ((cmp.old.allInterfaces old).without (cmp.new.allInterfaces new)).map
          (interfacePresence new) ++
        (cmp.constructorFindings old new).filterMap reversedRemoval? ++
        (cmp.methodFindings old new).filterMap reversedRemoval? ++
        (cmp.fieldFindings old new).filterMap reversedRemoval? := by
  have hremoved : ∀ name, (Finding.mk (Location.ofClass new) (.classDecl new.kind)
      (.removedInterface name)).reversedRemoval? = some (interfacePresence new name) :=
    fun _ => rfl
  have hadded : ∀ name, (Finding.mk (Location.ofClass new) (.classDecl new.kind)
      (.addedInterface name)).reversedRemoval? = none :=
    fun _ => rfl
  simp only [compareClasses, List.filterMap_append]
  rw [List.map_append, List.filterMap_append, Finding.filterMap_reversedRemoval?_eq_nil]
  · simp [interfaceChanges, List.filterMap_map, hremoved, hadded]
  · intro f hf
    obtain ⟨change, hchange, rfl⟩ := List.mem_map.mp hf
    exact isAlteration_of_mem_classChanges hchange _ _

theorem filterMap_addition?_compareClasses (cmp : Comparison) (old new : ClassDecl) :
    (cmp.compareClasses old new).filterMap addition? =
      ((cmp.new.allInterfaces new).without (cmp.old.allInterfaces old)).map
          (interfacePresence new) ++
        (cmp.constructorFindings old new).filterMap addition? ++
        (cmp.methodFindings old new).filterMap addition? ++
        (cmp.fieldFindings old new).filterMap addition? := by
  have hremoved : ∀ name, (Finding.mk (Location.ofClass new) (.classDecl new.kind)
      (.removedInterface name)).addition? = none :=
    fun _ => rfl
  have hadded : ∀ name, (Finding.mk (Location.ofClass new) (.classDecl new.kind)
      (.addedInterface name)).addition? = some (interfacePresence new name) :=
    fun _ => rfl
  simp only [compareClasses, List.filterMap_append]
  rw [List.map_append, List.filterMap_append, Finding.filterMap_addition?_eq_nil]
  · simp [interfaceChanges, List.filterMap_map, hremoved, hadded]
  · intro f hf
    obtain ⟨change, hchange, rfl⟩ := List.mem_map.mp hf
    exact isAlteration_of_mem_classChanges hchange _ _

theorem reversedRemoval?_removedClass (c : ClassDecl) :
    (removedClass c).reversedRemoval? =
      some (.addedClass, Location.ofClass c, some c.qualifiedName) := by
  cases hdeprecated : c.modifiers.isDeprecated <;>
    simp [removedClass, reversedRemoval?, Finding.issue, Change.issue, Change.oldValue,
      Issue.reversed?, hdeprecated]

theorem addition?_removedClass (c : ClassDecl) : (removedClass c).addition? = none := by
  cases hdeprecated : c.modifiers.isDeprecated <;>
    simp [removedClass, addition?, Finding.issue, Change.issue, Issue.isAddition, hdeprecated]

/-- The visible fields of a class that another class neither has nor inherits. -/
def fieldsBeyond (cb : Codebase) (a b : ClassDecl) : List Field :=
  (a.fields.filter Field.isVisible).filter fun f =>
    !(b.fields.filter Field.isVisible).any (fun g => g.name == f.name) &&
      ((cb.effectiveMembers b).findInheritedField? f.name).isNone

theorem flatMap_ite_eq_map_filter {α β : Type} (p : α → Bool) (g : α → β) (xs : List α) :
    (xs.flatMap fun x => if p x then [g x] else []) = (xs.filter p).map g := by
  induction xs with
  | nil => rfl
  | cons x xs ih => cases hp : p x <;> simp [hp, ih]

theorem filterMap_reversedRemoval?_fields (cmp : Comparison) (old new : ClassDecl) :
    (cmp.fieldFindings old new).filterMap reversedRemoval? =
      (fieldsBeyond cmp.new old new).map (fieldPresence old) := by
  have hadded : ∀ f, (addedField new f).reversedRemoval? = none := fun _ => rfl
  rw [fieldsBeyond, ← flatMap_ite_eq_map_filter, fieldFindings, List.filterMap_append,
    List.filterMap_flatMap, List.filterMap_map]
  simp only [Function.comp_def, hadded, List.filterMap_none, List.append_nil]
  refine List.flatMap_congr fun f _ => ?_
  cases hfind : (new.fields.filter Field.isVisible).find? fun g => g.name == f.name with
  | some g =>
    have hany : (new.fields.filter Field.isVisible).any (fun g => g.name == f.name) = true :=
      List.any_eq_true.mpr
        ⟨g, List.mem_of_find?_eq_some hfind, by simpa using List.find?_some hfind⟩
    rw [hany]
    exact Finding.filterMap_reversedRemoval?_eq_nil fun x hx => isAlteration_of_mem_compareFields hx
  | none =>
    have hany : (new.fields.filter Field.isVisible).any (fun g => g.name == f.name) = false :=
      List.any_eq_false.mpr (List.find?_eq_none.mp hfind)
    rw [hany]
    cases (cmp.new.effectiveMembers new).findInheritedField? f.name with
    | some g => rfl
    | none => rfl

theorem filterMap_addition?_fields (cmp : Comparison) (old new : ClassDecl) :
    (cmp.fieldFindings old new).filterMap addition? =
      (fieldsBeyond cmp.old new old).map (fieldPresence new) := by
  have hadded : ∀ f, (addedField new f).addition? = some (fieldPresence new f) := fun _ => rfl
  rw [fieldFindings, List.filterMap_append, List.filterMap_flatMap, List.filterMap_map,
    List.flatMap_eq_nil_iff.mpr, List.nil_append]
  · simp only [Function.comp_def, hadded, List.filterMap_eq_map']
    rfl
  · intro f _
    split
    · exact Finding.filterMap_addition?_eq_nil fun x hx => isAlteration_of_mem_compareFields hx
    · split <;> rfl

/-! ## Two comparisons of the same codebases -/

/-- The one comparison has for its old codebase what the other has for its new one. -/
structure IsReversed (x y : Comparison) : Prop where
  old : x.old = y.new
  new : x.new = y.old

section Reversed

variable {x y : Comparison} {a b : ClassDecl}

theorem constructorFindings_reversed (hunique : (a.constructors.map a.signatureOf).Nodup) :
    (x.constructorFindings a b).filterMap reversedRemoval? =
      (y.constructorFindings b a).filterMap addition? := by
  have hvisible : ((a.constructors.filter Method.isVisible).map a.signatureOf).Nodup :=
    hunique.sublist (List.filter_sublist.map _)
  rw [constructorFindings, constructorFindings, filterMap_reversedRemoval?_methods,
    filterMap_addition?_methods, Pairing.removed_eq_added_swap hvisible]

/-- A supertype that excuses the removal of a method excuses its addition the other way round. -/
theorem methodFindings_reversed
    (h : x.IsReversed y) (hunique : (a.methods.map a.signatureOf).Nodup) :
    (x.methodFindings a b).filterMap reversedRemoval? =
      (y.methodFindings b a).filterMap addition? := by
  have hvisible : ((a.methods.filter Method.isVisible).map a.signatureOf).Nodup :=
    hunique.sublist (List.filter_sublist.map _)
  rw [methodFindings, methodFindings, filterMap_reversedRemoval?_methods,
    filterMap_addition?_methods, Pairing.removed_eq_added_swap hvisible, h.new]

theorem fieldFindings_reversed (h : x.IsReversed y) :
    (x.fieldFindings a b).filterMap reversedRemoval? =
      (y.fieldFindings b a).filterMap addition? := by
  rw [filterMap_reversedRemoval?_fields, filterMap_addition?_fields, h.new]

theorem compareClasses_reversed
    (h : x.IsReversed y) (hplace : Location.ofClass a = Location.ofClass b)
    (hconstructors : (a.constructors.map a.signatureOf).Nodup)
    (hmethods : (a.methods.map a.signatureOf).Nodup) :
    (x.compareClasses a b).filterMap reversedRemoval? =
      (y.compareClasses b a).filterMap addition? := by
  have hinterfaces : interfacePresence b = interfacePresence a := by
    funext name
    rw [interfacePresence, interfacePresence, hplace]
  have hconstructor : (x.constructorFindings a b).filterMap reversedRemoval? =
      (y.constructorFindings b a).filterMap addition? :=
    constructorFindings_reversed hconstructors
  rw [filterMap_reversedRemoval?_compareClasses, filterMap_addition?_compareClasses, hconstructor,
    methodFindings_reversed h hmethods, fieldFindings_reversed h, h.old, h.new, hinterfaces]

/-- What is found about the classes of one name. -/
theorem classFindings_reversed
    (h : x.IsReversed y) (hunique : x.old.HasUniqueSignatures)
    (hpackages : x.old.AgreesOnPackages x.new) (name : String) :
    (x.classFindings name).filterMap reversedRemoval? =
      (y.classFindings name).filterMap addition? := by
  rw [classFindings, classFindings, ← h.old, ← h.new]
  cases hold : (x.old.class? name).filter ClassDecl.isVisible with
  | none =>
    cases hnew : (x.new.class? name).filter ClassDecl.isVisible with
    | none => rfl
    | some d => simp [addition?_removedClass]; rfl
  | some c =>
    have hc := Codebase.class?_eq_some_iff.mp (Option.filter_eq_some_iff.mp hold).1
    cases hnew : (x.new.class? name).filter ClassDecl.isVisible with
    | none => simp [reversedRemoval?_removedClass]; rfl
    | some d =>
      have hd := Codebase.class?_eq_some_iff.mp (Option.filter_eq_some_iff.mp hnew).1
      have hname : c.qualifiedName = d.qualifiedName := hc.2.trans hd.2.symm
      have hplace : Location.ofClass c = Location.ofClass d := by
        rw [Location.ofClass, Location.ofClass, hname, hpackages c hc.1 d hd.1 hname]
      have hsignatures := hunique c hc.1
      exact compareClasses_reversed h hplace hsignatures.1 hsignatures.2

theorem packageFindings_reversed
    (h : x.IsReversed y) (hunique : x.old.HasUniqueSignatures)
    (hpackages : x.old.AgreesOnPackages x.new) (name : String) :
    (x.packageFindings name).filterMap reversedRemoval? =
      (y.packageFindings name).filterMap addition? := by
  have hclasses : ((classNames x.old name).union (classNames x.new name)).items.flatMap
        (fun name => (x.classFindings name).filterMap reversedRemoval?) =
      ((classNames x.new name).union (classNames x.old name)).items.flatMap
        (fun name => (y.classFindings name).filterMap addition?) := by
    rw [NameSet.union_comm]
    exact List.flatMap_congr fun name _ => classFindings_reversed h hunique hpackages name
  rw [packageFindings, packageFindings, ← h.old, ← h.new]
  cases (visiblePackages x.old).contains name <;> cases (visiblePackages x.new).contains name
  · simpa only [List.filterMap_flatMap] using hclasses
  · rfl
  · rfl
  · simpa only [List.filterMap_flatMap] using hclasses

theorem findings_reversed
    (h : x.IsReversed y) (hunique : x.old.HasUniqueSignatures)
    (hpackages : x.old.AgreesOnPackages x.new) :
    x.findings.filterMap reversedRemoval? = y.findings.filterMap addition? := by
  rw [findings, findings,
    Finding.filterMap_dropRepeated fun f hf =>
      (Finding.isAlteration_of_unresolved? hf).reversedRemoval?,
    Finding.filterMap_dropRepeated fun f hf => (Finding.isAlteration_of_unresolved? hf).addition?,
    List.filterMap_flatMap, List.filterMap_flatMap, ← h.old, ← h.new, NameSet.union_comm]
  exact List.flatMap_congr fun name _ => packageFindings_reversed h hunique hpackages name

end Reversed

/-- What is removed on the way from one codebase to another is added on the way back, at the same
place and with the same value. -/
theorem removals_perm_additions
    (a b : Codebase) (hunique : a.HasUniqueSignatures) (hpackages : a.AgreesOnPackages b)
    (r s : Option Codebase) :
    (report { old := a, new := b, reference := r } {} .current).reversedRemovals.Perm
      (report { old := b, new := a, reference := s } {} .current).additions := by
  refine (reversedRemovals_perm _).trans (.trans (.of_eq ?_) (additions_perm _).symm)
  exact findings_reversed ⟨rfl, rfl⟩ hunique hpackages

/-- The codebase `loopOnly` without the field and without one of the two methods. -/
def loopReduced : Codebase :=
  { loopOnly with
    classes := ⟨[{ loopClass with methods := [boundedMethod "b.Second"], fields := [] }],
      List.pairwise_singleton _ _⟩ }

theorem loopReduced_removals_perm_additions :
    loopOnly.HasUniqueSignatures ∧ loopOnly.AgreesOnPackages loopReduced ∧
      (report { old := loopOnly, new := loopReduced } {} .current).reversedRemovals.Perm
        (report { old := loopReduced, new := loopOnly } {} .current).additions := by
  have hunique : loopOnly.HasUniqueSignatures := by
    intro c hc
    cases List.mem_singleton.mp hc
    exact ⟨List.nodup_nil, by decide⟩
  have hpackages : loopOnly.AgreesOnPackages loopReduced := by
    intro c hc d hd _
    cases List.mem_singleton.mp hc
    cases List.mem_singleton.mp hd
    rfl
  exact ⟨hunique, hpackages,
    removals_perm_additions loopOnly loopReduced hunique hpackages none none⟩

end Comparison

end ApiSurface
