import ApiSurface.Comparison.Checker

/-!
# Findings

A check raises findings one after the other.  Here they are listed in the order of the visit,
without the registry, the mode and the references noted so far: every part of the visit raises a
list of findings that depends on the two codebases alone, and the report is what the registry
and the mode let through of it.
-/

namespace ApiSurface

namespace Change

/-- Whether a change alters something that stays, apart from its nullability. -/
def isPlain : Change → Bool
  | .added _ | .addedAbstract _ | .removed .. | .addedInterface _ | .removedInterface _ => false
  | .nullability .. | .unresolved _ => false
  | _ => true

theorem all_when (happened : Bool) (change : Change) (test : Change → Bool) :
    (when happened change).all test = (!happened || test change) := by
  cases happened <;> simp [when]

theorem unresolved_notMem
    {changes : List Change} (h : changes.all isPlain = true) (reference : Unresolved) :
    .unresolved reference ∉ changes := by
  intro hmem
  cases List.all_eq_true.mp h _ hmem

end Change

namespace Finding

/-- The reference that could not be resolved, if the finding is about one. -/
def unresolved? (f : Finding) : Option Unresolved :=
  match f.change with
  | .unresolved reference => some reference
  | _ => none

/-- The findings with each unresolved reference only where it is met first. -/
def dropRepeated (met : List Unresolved) : List Finding → List Finding
  | [] => []
  | f :: fs =>
    match f.unresolved? with
    | none => f :: dropRepeated met fs
    | some reference =>
      if reference ∈ met then dropRepeated met fs else f :: dropRepeated (reference :: met) fs

theorem unresolved?_eq_none
    {f : Finding} (h : ∀ reference, f.change ≠ .unresolved reference) : f.unresolved? = none := by
  rw [unresolved?]
  split
  · rename_i reference hchange
    exact absurd hchange (h reference)
  · rfl

end Finding

namespace Report

def ofEntries (entries : List Entry) : Report :=
  let count (severity : Severity) := entries.countP fun e => e.severity == severity
  { entries
    errors := count .error
    warnings := count .warning
    migrations := count .migration
    lints := count .lint
    infos := count .info }

/-- Counting entries as they come is counting them in the end. -/
theorem add_ofEntries
    {e : Entry} (h : e.severity ≠ .hidden) (entries : List Entry) :
    (ofEntries entries).add e = ofEntries (entries ++ [e]) := by
  cases hseverity : e.severity with
  | hidden => exact absurd hseverity h
  | _ => simp [add, ofEntries, hseverity]

end Report

namespace Comparison

open Change (when ofAccess ofStatic ofDeprecation)

/-! ## What is found, in the order of the visit -/

def compareMethods (cmp : Comparison) (oldClass newClass : ClassDecl) (old new : Method) :
    List Finding :=
  let location := Location.ofMember oldClass old.exactSignature
  let signature := newClass.signatureOf new
  let r := (Renaming.between oldClass.typeParameters newClass.typeParameters).within
    (Renaming.between old.typeParameters new.typeParameters)
  let results :=
    match old.returnType, new.returnType with
    | some s, some t =>
      cmp.typeChanges r .result (.result newClass.qualifiedName signature) s t
    | _, _ => []
  let parameters := (old.parameters.zip new.parameters).zipIdx.flatMap fun ((p, q), index) =>
    let target := Nullness.Target.parameter newClass.qualifiedName signature new.isConstructor index
    (cmp.typeChanges r .parameter target p.type q.type ++ parameterChanges p q).map
      (Finding.mk location (.parameter index old.isConstructor))
  let about := Finding.mk location (itemOf old)
  (methodModifierChanges oldClass old new ++ results).map about ++ parameters ++
    (throwsChanges old new ++ defaultChanges old.defaultValue new.defaultValue).map about

def compareFields (cmp : Comparison) (oldClass newClass : ClassDecl) (old new : Field) :
    List Finding :=
  let place := if old.modifiers.isFinal then Nullness.Place.finalField else .mutableField
  let target := Nullness.Target.field newClass.qualifiedName new.name
  let r := Renaming.between oldClass.typeParameters newClass.typeParameters
  (fieldModifierChanges old.modifiers new.modifiers ++
      cmp.typeChanges r place target old.type new.type ++
      valueChanges old new ++ ofDeprecation old.modifiers new.modifiers).map
    (Finding.mk (Location.ofMember oldClass old.name) .field)

def pairFindings (cmp : Comparison) (oldClass newClass : ClassDecl) (pairing : Pairing) :
    List Finding :=
  pairing.matched.flatMap fun (m, partners) =>
    partners.flatMap fun n => cmp.compareMethods oldClass newClass m n

def constructorFindings (cmp : Comparison) (oldClass newClass : ClassDecl) : List Finding :=
  let pairing := Pairing.between oldClass (oldClass.constructors.filter Method.isVisible)
    newClass (newClass.constructors.filter Method.isVisible)
  cmp.pairFindings oldClass newClass pairing ++ pairing.removed.map (removedMethod oldClass) ++
    pairing.added.flatMap (addedMethod newClass)

def methodFindings (cmp : Comparison) (oldClass newClass : ClassDecl) : List Finding :=
  let before := cmp.old.effectiveMembers oldClass
  let after := cmp.new.effectiveMembers newClass
  let pairing := Pairing.between oldClass (oldClass.methods.filter Method.isVisible)
    newClass (newClass.methods.filter Method.isVisible)
  let removed := pairing.removed.filter fun m =>
    (after.findInheritedMethod? (oldClass.signatureOf m)).isNone
  let added := pairing.added.filter fun m =>
    (before.findInheritedMethod? (newClass.signatureOf m)).isNone
  cmp.pairFindings oldClass newClass pairing ++ removed.map (removedMethod oldClass) ++
    added.flatMap (addedMethod newClass)

def fieldFindings (cmp : Comparison) (oldClass newClass : ClassDecl) : List Finding :=
  let before := cmp.old.effectiveMembers oldClass
  let after := cmp.new.effectiveMembers newClass
  let old := oldClass.fields.filter Field.isVisible
  let new := newClass.fields.filter Field.isVisible
  (old.flatMap fun f =>
    match new.find? fun g => g.name == f.name with
    | some g => cmp.compareFields oldClass newClass f g
    | none =>
      if (after.findInheritedField? f.name).isSome then [] else [removedField oldClass f]) ++
    ((new.filter fun g =>
      !old.any (fun f => f.name == g.name) && (before.findInheritedField? g.name).isNone).map
        (addedField newClass))

def compareClasses (cmp : Comparison) (old new : ClassDecl) : List Finding :=
  (declarationChanges old new ++ (cmp.new.unresolvedSuperclasses new).map Change.unresolved ++
      cmp.superclassChanges old new ++ (cmp.new.unresolved new).map Change.unresolved ++
      cmp.interfaceChanges old new).map
    (Finding.mk (Location.ofClass new) (.classDecl new.kind)) ++
    cmp.constructorFindings old new ++ cmp.methodFindings old new ++ cmp.fieldFindings old new

def classFindings (cmp : Comparison) (name : String) : List Finding :=
  match (cmp.old.class? name).filter ClassDecl.isVisible,
    (cmp.new.class? name).filter ClassDecl.isVisible with
  | some old, some new => cmp.compareClasses old new
  | some old, none => [removedClass old]
  | none, some new => [addedClass new]
  | none, none => []

def packageFindings (cmp : Comparison) (name : String) : List Finding :=
  match (visiblePackages cmp.old).contains name, (visiblePackages cmp.new).contains name with
  | true, false => [⟨{ package := name }, .package, .removed false name⟩]
  | false, true => [⟨{ package := name }, .package, .added name⟩]
  | _, _ =>
    ((classNames cmp.old name).union (classNames cmp.new name)).items.flatMap cmp.classFindings

/-- All findings in the order of the visit; a reference that cannot be resolved is reported once. -/
def findings (cmp : Comparison) : List Finding :=
  Finding.dropRepeated [] <|
    ((visiblePackages cmp.old).union (visiblePackages cmp.new)).items.flatMap cmp.packageFindings

/-- Whether the mode and the registry let an issue through. -/
def isReported (registry : Registry) (mode : Mode) (issue : Issue) : Bool :=
  issue.isEnabled mode && registry.severity issue != .hidden

/-! ## Plain changes -/

section Plain

open Change (isPlain all_when)

theorem all_isPlain_modifiers (old new : Modifiers) :
    (ofAccess old new).all isPlain = true ∧ (ofStatic old new).all isPlain = true ∧
      (ofDeprecation old new).all isPlain = true := by
  simp [ofAccess, ofStatic, ofDeprecation, all_when, isPlain]

theorem all_isPlain_methodModifierChanges (c : ClassDecl) (m n : Method) :
    (methodModifierChanges c m n).all isPlain = true := by
  simp [methodModifierChanges, all_isPlain_modifiers, all_when, isPlain]

theorem all_isPlain_defaultChanges (old new : Option String) :
    (defaultChanges old new).all isPlain = true := by
  cases old <;> simp [defaultChanges, all_when, isPlain]

theorem all_isPlain_parameterChanges (p q : Parameter) :
    (parameterChanges p q).all isPlain = true := by
  have hname : (nameChanges p q).all isPlain = true := by
    rw [nameChanges]
    split
    · simp [all_when, isPlain]
    · rfl
  simp [parameterChanges, hname, all_isPlain_defaultChanges, all_when, isPlain]

theorem all_isPlain_throwsChanges (m n : Method) : (throwsChanges m n).all isPlain = true := by
  simp [throwsChanges, isPlain]

theorem all_isPlain_fieldModifierChanges (old new : Modifiers) :
    (fieldModifierChanges old new).all isPlain = true := by
  simp [fieldModifierChanges, all_isPlain_modifiers, all_when, isPlain]

theorem all_isPlain_valueChanges (f g : Field) : (valueChanges f g).all isPlain = true := by
  simp [valueChanges, all_when, isPlain]

theorem all_isPlain_declarationChanges (c d : ClassDecl) :
    (declarationChanges c d).all isPlain = true := by
  simp [declarationChanges, all_isPlain_modifiers, all_when, isPlain]

variable (cmp : Comparison)

theorem all_isPlain_superclassChanges (c d : ClassDecl) :
    (cmp.superclassChanges c d).all isPlain = true := by
  rw [superclassChanges]
  split <;> rfl

theorem unresolved_notMem_typeChanges
    (reference : Unresolved) (r : Renaming) (place : Nullness.Place) (target : Nullness.Target)
    (old new : TypeRef) : .unresolved reference ∉ cmp.typeChanges r place target old new := by
  rw [typeChanges, nullnessChanges]
  split
  · split <;> simp
  · simp

theorem unresolved_notMem_interfaceChanges (reference : Unresolved) (c d : ClassDecl) :
    .unresolved reference ∉ cmp.interfaceChanges c d := by
  simp [interfaceChanges]

theorem unresolved?_of_mem_addedMethod
    {c : ClassDecl} {m : Method} {f : Finding} (h : f ∈ addedMethod c m) :
    f.unresolved? = none := by
  obtain ⟨change, hchange, rfl⟩ := List.mem_map.mp h
  rcases List.mem_cons.mp hchange with rfl | hchange
  · rfl
  · rw [when] at hchange
    split at hchange
    · cases List.mem_singleton.mp hchange
      rfl
    · cases hchange

end Plain

/-! ## One finding -/

namespace Checker

variable {k : Checker}

/-- The progress once a finding has been entered, if it is let through. -/
def entered (k : Checker) (s : Progress) (f : Finding) : Progress :=
  if isReported k.registry k.mode f.issue then
    { s with report := s.report.add (Entry.ofFinding k.registry f) }
  else s

/-- The progress once a finding has been met: a reference counts only where it is met first. -/
def visit (k : Checker) (s : Progress) (f : Finding) : Progress :=
  match f.unresolved? with
  | none => k.entered s f
  | some reference =>
    if reference ∈ s.unresolved then s
    else k.entered { s with unresolved := reference :: s.unresolved } f

theorem unresolved_entered (s : Progress) (f : Finding) :
    (k.entered s f).unresolved = s.unresolved := by
  rw [entered]
  split
  · rfl
  · rfl

/-- An entry is counted as it is entered. -/
theorem report_entered
    {s : Progress} {entries : List Entry} (h : s.report = .ofEntries entries) (f : Finding) :
    (k.entered s f).report = .ofEntries (entries ++
      if isReported k.registry k.mode f.issue then [Entry.ofFinding k.registry f] else []) := by
  rw [entered]
  split
  · rename_i hreported
    have hloud : (Entry.ofFinding k.registry f).severity ≠ .hidden :=
      bne_iff_ne.mp (Bool.and_eq_true_iff.mp hreported).2
    rw [h, Report.add_ofEntries hloud]
  · rw [h, List.append_nil]

theorem run_raise (f : Finding) (s : Progress) : (k.raise f).run s = ((), k.entered s f) := by
  rw [raise, entered, isReported]
  cases f.issue.isEnabled k.mode with
  | false => rfl
  | true =>
    by_cases hhidden : k.registry.severity f.issue = .hidden
    · rw [if_pos rfl, if_neg (not_not_intro hhidden), hhidden]
      rfl
    · rw [if_pos rfl, if_pos hhidden, if_pos (by simpa using hhidden)]
      rfl

/-! ## Parts of the visit -/

/-- The part of the visit meets these findings in this order, wherever the visit has got to. -/
def Raises (k : Checker) (act : Visit) (fs : List Finding) : Prop :=
  ∀ s, act.run s = ((), fs.foldl k.visit s)

theorem raises_pure : k.Raises (pure ()) [] :=
  fun _ => rfl

theorem Raises.seq
    {act act' : Visit} {fs gs : List Finding} (h : k.Raises act fs) (h' : k.Raises act' gs) :
    k.Raises (do act; act') (fs ++ gs) := by
  intro s
  rw [StateT.run_bind, h s, List.foldl_append]
  exact h' _

theorem raises_forM
    {α : Type} {xs : List α} {act : α → Visit} {found : α → List Finding}
    (h : ∀ x ∈ xs, k.Raises (act x) (found x)) : k.Raises (xs.forM act) (xs.flatMap found) := by
  induction xs with
  | nil => exact raises_pure
  | cons x xs ih =>
    rw [List.flatMap_cons]
    exact (h x List.mem_cons_self).seq (ih fun y hy => h y (List.mem_cons_of_mem x hy))

theorem raises_forM_filter
    {α : Type} {xs : List α} {p : α → Bool} {act : α → Visit} {found : α → List Finding}
    (h : ∀ x ∈ xs, k.Raises (act x) (found x)) :
    k.Raises (xs.forM fun x => if p x then act x else pure ()) ((xs.filter p).flatMap found) := by
  induction xs with
  | nil => exact raises_pure
  | cons x xs ih =>
    have htail := ih fun y hy => h y (List.mem_cons_of_mem x hy)
    cases hx : p x with
    | false =>
      rw [List.filter_cons_of_neg (by simp [hx])]
      refine Raises.seq (?_ : k.Raises _ []) htail
      simp only [hx, Bool.false_eq_true, if_false]
      exact raises_pure
    | true =>
      rw [List.filter_cons_of_pos hx, List.flatMap_cons]
      refine Raises.seq ?_ htail
      simp only [hx, if_true]
      exact h x List.mem_cons_self

theorem raises_raise {f : Finding} (h : f.unresolved? = none) : k.Raises (k.raise f) [f] := by
  intro s
  rw [run_raise, List.foldl_cons, List.foldl_nil, visit, h]

theorem raises_all
    {fs : List Finding} (h : ∀ f ∈ fs, f.unresolved? = none) : k.Raises (fs.forM k.raise) fs := by
  have hall := raises_forM fun f hf => raises_raise (k := k) (h f hf)
  rwa [List.flatMap_singleton'] at hall

/-! ## Changes and references -/

theorem raises_raiseChanges
    {changes : List Change} (h : ∀ reference, .unresolved reference ∉ changes)
    (location : Location) (item : Item) :
    k.Raises (k.raiseChanges location item changes) (changes.map (Finding.mk location item)) := by
  rw [List.map_eq_flatMap]
  refine raises_forM fun change hchange => raises_raise (Finding.unresolved?_eq_none ?_)
  rintro reference rfl
  exact h reference hchange

theorem raises_plain
    {changes : List Change} (h : changes.all Change.isPlain = true) (location : Location)
    (item : Item) :
    k.Raises (k.raiseChanges location item changes) (changes.map (Finding.mk location item)) :=
  raises_raiseChanges (Change.unresolved_notMem h) location item

theorem raises_typeChanges
    {r : Renaming} {place : Nullness.Place} {target : Nullness.Target} {old new : TypeRef}
    {location : Location} {item : Item} :
    k.Raises (k.raiseChanges location item (k.cmp.typeChanges r place target old new))
      ((k.cmp.typeChanges r place target old new).map (Finding.mk location item)) :=
  raises_raiseChanges (fun _ => k.cmp.unresolved_notMem_typeChanges _ r place target old new) _ _

theorem raises_noteUnresolved (c : ClassDecl) (references : List Unresolved) :
    k.Raises (k.noteUnresolved c references)
      (references.map fun reference =>
        ⟨Location.ofClass c, .classDecl c.kind, .unresolved reference⟩) := by
  rw [List.map_eq_flatMap]
  refine raises_forM fun reference _ s => ?_
  rw [List.foldl_cons, List.foldl_nil, visit]
  change StateT.run (if reference ∉ s.unresolved then _ else _) s = _
  by_cases hmet : reference ∈ s.unresolved
  · rw [if_neg (not_not_intro hmet)]
    simp only [Finding.unresolved?, if_pos hmet]
    rfl
  · rw [if_pos hmet]
    simp only [Finding.unresolved?, if_neg hmet]
    rw [StateT.run_bind]
    exact run_raise _ _

/-! ## Members -/

theorem raises_compareMethod (oldClass newClass : ClassDecl) (old new : Method) :
    k.Raises (k.compareMethod oldClass newClass old new)
      (k.cmp.compareMethods oldClass newClass old new) := by
  simp only [Comparison.compareMethods, List.map_append, List.append_assoc]
  refine (raises_plain (all_isPlain_methodModifierChanges ..) _ _).seq
    (Raises.seq ?_ ((raises_forM ?_).seq
      ((raises_plain (all_isPlain_throwsChanges ..) _ _).seq
        (raises_plain (all_isPlain_defaultChanges ..) _ _))))
  · cases old.returnType with
    | none => exact raises_pure
    | some s =>
      cases new.returnType with
      | none => exact raises_pure
      | some t => exact raises_typeChanges
  · rintro ⟨⟨p, q⟩, index⟩ -
    exact raises_typeChanges.seq
      (raises_plain (all_isPlain_parameterChanges ..) _ _)

theorem raises_compareField (oldClass newClass : ClassDecl) (old new : Field) :
    k.Raises (k.compareField oldClass newClass old new)
      (k.cmp.compareFields oldClass newClass old new) := by
  simp only [Comparison.compareFields, List.map_append, List.append_assoc]
  exact (raises_plain (all_isPlain_fieldModifierChanges ..) _ _).seq
    (raises_typeChanges.seq
      ((raises_plain (all_isPlain_valueChanges ..) _ _).seq
        (raises_plain (all_isPlain_modifiers ..).2.2 _ _)))

theorem raises_removeMethod (c : ClassDecl) (m : Method) :
    k.Raises (k.removeMethod c m) [removedMethod c m] :=
  raises_raise rfl

theorem raises_addMethod (c : ClassDecl) (m : Method) :
    k.Raises (k.addMethod c m) (addedMethod c m) :=
  raises_all fun _ => unresolved?_of_mem_addedMethod

theorem raises_comparePairs (old new : ClassDecl) (pairing : Pairing) :
    k.Raises (k.comparePairs old new pairing) (k.cmp.pairFindings old new pairing) :=
  raises_forM fun x _ => raises_forM fun n _ => raises_compareMethod old new x.1 n

theorem raises_compareConstructors (old new : ClassDecl) :
    k.Raises (k.compareConstructors old new) (k.cmp.constructorFindings old new) := by
  simp only [constructorFindings, List.append_assoc, List.map_eq_flatMap]
  exact (raises_comparePairs old new _).seq
    ((raises_forM fun m _ => raises_removeMethod old m).seq
      (raises_forM fun m _ => raises_addMethod new m))

theorem raises_compareMethods (old new : ClassDecl) :
    k.Raises
      (k.compareMethods (k.cmp.old.effectiveMembers old) (k.cmp.new.effectiveMembers new) old new)
      (k.cmp.methodFindings old new) := by
  simp only [methodFindings, List.append_assoc, List.map_eq_flatMap]
  exact (raises_comparePairs old new _).seq
    ((raises_forM_filter fun m _ => raises_removeMethod old m).seq
      (raises_forM_filter fun m _ => raises_addMethod new m))

theorem raises_compareFields (old new : ClassDecl) :
    k.Raises
      (k.compareFields (k.cmp.old.effectiveMembers old) (k.cmp.new.effectiveMembers new) old new)
      (k.cmp.fieldFindings old new) := by
  simp only [fieldFindings, List.map_eq_flatMap]
  refine (raises_forM fun f _ => ?_).seq ?_
  · cases (new.fields.filter Field.isVisible).find? fun g => g.name == f.name with
    | some g => exact raises_compareField old new f g
    | none =>
      cases (k.cmp.new.effectiveMembers new).findInheritedField? f.name with
      | some _ => exact raises_pure
      | none => exact raises_raise (f := removedField old f) rfl
  · refine raises_forM_filter
      (p := fun g => !(old.fields.filter Field.isVisible).any (fun f => f.name == g.name) &&
        ((k.cmp.old.effectiveMembers old).findInheritedField? g.name).isNone)
      fun g _ => raises_raise (f := addedField new g) rfl

/-! ## Classes and packages -/

theorem raises_compareHierarchy (old new : ClassDecl) :
    k.Raises (k.compareHierarchy old new)
      (((k.cmp.new.unresolvedSuperclasses new).map Change.unresolved ++
          k.cmp.superclassChanges old new ++ (k.cmp.new.unresolved new).map Change.unresolved ++
          k.cmp.interfaceChanges old new).map
        (Finding.mk (Location.ofClass new) (.classDecl new.kind))) := by
  simp only [List.map_append, List.map_map, List.append_assoc]
  exact (raises_noteUnresolved new _).seq
    ((raises_plain (all_isPlain_superclassChanges ..) _ _).seq
      ((raises_noteUnresolved new _).seq
        (raises_raiseChanges (fun _ => k.cmp.unresolved_notMem_interfaceChanges _ old new) _ _)))

/-! ## References that have been noted -/

theorem mem_unresolved_visit
    {s : Progress} {f : Finding} {reference : Unresolved}
    (h : reference ∈ s.unresolved ∨ f.unresolved? = some reference) :
    reference ∈ (k.visit s f).unresolved := by
  rw [visit]
  split
  · rename_i hnone
    rw [unresolved_entered]
    exact h.resolve_right fun hsome => by simp [hnone] at hsome
  · rename_i noted hsome
    split
    · rename_i hmet
      refine h.elim id fun hf => ?_
      rw [hsome] at hf
      cases hf
      exact hmet
    · rw [unresolved_entered]
      refine h.elim (List.mem_cons_of_mem noted) fun hf => ?_
      rw [hsome] at hf
      cases hf
      exact List.mem_cons_self

/-- Whatever has been met is noted. -/
theorem mem_unresolved_foldl
    {fs : List Finding} {s : Progress} {reference : Unresolved}
    (h : reference ∈ s.unresolved ∨ ∃ f ∈ fs, f.unresolved? = some reference) :
    reference ∈ (fs.foldl k.visit s).unresolved := by
  induction fs generalizing s with
  | nil => simpa using h
  | cons f fs ih =>
    rw [List.foldl_cons]
    refine ih ?_
    rcases h with hmem | ⟨g, hg, hreference⟩
    · exact .inl (mem_unresolved_visit (.inl hmem))
    · rcases List.mem_cons.mp hg with rfl | hg
      · exact .inl (mem_unresolved_visit (.inr hreference))
      · exact .inr ⟨g, hg, hreference⟩

/-- References that have all been noted change nothing when they are met again. -/
theorem foldl_visit_of_noted
    {fs : List Finding} {s : Progress}
    (h : ∀ f ∈ fs, ∃ reference ∈ s.unresolved, f.unresolved? = some reference) :
    fs.foldl k.visit s = s := by
  induction fs with
  | nil => rfl
  | cons f fs ih =>
    obtain ⟨⟨reference, hmet, hreference⟩, hothers⟩ := List.forall_mem_cons.mp h
    have hf : k.visit s f = s := by simp only [visit, hreference, if_pos hmet]
    rw [List.foldl_cons, hf]
    exact ih hothers

theorem Raises.of_noted
    {act : Visit} {fs noted gs : List Finding} (h : k.Raises act (fs ++ (noted ++ gs)))
    (hnoted : ∀ f ∈ noted, f.unresolved? ≠ none ∧ f ∈ fs) : k.Raises act (fs ++ gs) := by
  intro s
  have hagain : noted.foldl k.visit (fs.foldl k.visit s) = fs.foldl k.visit s := by
    refine foldl_visit_of_noted fun f hf => ?_
    obtain ⟨hsome, hmem⟩ := hnoted f hf
    obtain ⟨reference, hreference⟩ := Option.ne_none_iff_exists'.mp hsome
    exact ⟨reference, mem_unresolved_foldl (.inr ⟨f, hmem, hreference⟩), hreference⟩
  rw [h s, List.foldl_append, List.foldl_append, hagain, List.foldl_append]

/-! ## The whole visit -/

/-- The supertypes of a class are followed once for its interfaces and once for its members; the
second time nothing is new. -/
theorem raises_compareClass (old new : ClassDecl) :
    k.Raises (k.compareClass old new) (k.cmp.compareClasses old new) := by
  have hmembers : k.Raises (k.compareMembers old new) _ :=
    (raises_noteUnresolved new _).seq ((raises_compareConstructors old new).seq
      ((raises_compareMethods old new).seq (raises_compareFields old new)))
  have hclass : k.Raises (k.compareClass old new) _ :=
    (raises_plain (all_isPlain_declarationChanges old new) _ _).seq
      ((raises_compareHierarchy old new).seq hmembers)
  rw [← List.append_assoc] at hclass
  have hnoted := hclass.of_noted fun f hf => by
    obtain ⟨reference, hreference, rfl⟩ := List.mem_map.mp hf
    refine ⟨by simp [Finding.unresolved?], ?_⟩
    simp only [List.map_append, List.map_map, List.mem_append, List.mem_map]
    exact .inr (.inl (.inr ⟨reference, hreference, rfl⟩))
  simpa only [compareClasses, List.map_append, List.append_assoc] using hnoted

theorem raises_checkClass (name : String) :
    k.Raises (k.checkClass name) (k.cmp.classFindings name) := by
  rw [checkClass, classFindings]
  cases (k.cmp.old.class? name).filter ClassDecl.isVisible with
  | none =>
    cases (k.cmp.new.class? name).filter ClassDecl.isVisible with
    | none => exact raises_pure
    | some new => exact raises_raise rfl
  | some old =>
    cases (k.cmp.new.class? name).filter ClassDecl.isVisible with
    | none => exact raises_raise rfl
    | some new => exact raises_compareClass old new

theorem raises_checkPackage (name : String) :
    k.Raises (k.checkPackage name) (k.cmp.packageFindings name) := by
  have hboth : k.Raises
      (((classNames k.cmp.old name).union (classNames k.cmp.new name)).items.forM k.checkClass) _ :=
    raises_forM fun x _ => raises_checkClass x
  rw [checkPackage, packageFindings]
  cases (visiblePackages k.cmp.old).contains name with
  | false =>
    cases (visiblePackages k.cmp.new).contains name with
    | false => exact hboth
    | true => exact raises_raise rfl
  | true =>
    cases (visiblePackages k.cmp.new).contains name with
    | false => exact raises_raise rfl
    | true => exact hboth

theorem run_eq_foldl (k : Checker) :
    k.run = (((visiblePackages k.cmp.old).union (visiblePackages k.cmp.new)).items.flatMap
      k.cmp.packageFindings).foldl k.visit {} := by
  have hall : k.Raises k.checkPackages _ := raises_forM fun name _ => raises_checkPackage name
  rw [run, hall]

/-! ## What a run comes to -/

/-- Entries and counts, as findings are met one after the other. -/
theorem report_foldl
    {fs : List Finding} {s : Progress} {entries : List Entry} (h : s.report = .ofEntries entries) :
    (fs.foldl k.visit s).report =
      .ofEntries (entries ++
        ((Finding.dropRepeated s.unresolved fs).filter fun f =>
          isReported k.registry k.mode f.issue).map (Entry.ofFinding k.registry)) := by
  induction fs generalizing s entries with
  | nil => simpa [Finding.dropRepeated] using h
  | cons f fs ih =>
    -- A finding that is listed adds an entry exactly if it is let through.
    have hlisted : ∀ {met : List Unresolved} {s : Progress}, s.report = .ofEntries entries →
        s.unresolved = met →
        (fs.foldl k.visit (k.entered s f)).report =
          .ofEntries (entries ++ ((f :: Finding.dropRepeated met fs).filter fun f =>
            isReported k.registry k.mode f.issue).map (Entry.ofFinding k.registry)) := by
      intro met s h hmet
      rw [ih (report_entered h f), unresolved_entered, hmet, List.append_assoc, List.filter_cons]
      split
      · rfl
      · rfl
    rw [List.foldl_cons, Finding.dropRepeated, visit]
    cases f.unresolved? with
    | none => exact hlisted h rfl
    | some reference =>
      by_cases hmet : reference ∈ s.unresolved
      · simp only [if_pos hmet]
        exact ih h
      · simp only [if_neg hmet]
        exact hlisted h rfl

/-- Which references are noted depends on neither the registry nor the mode. -/
theorem unresolved_foldl_congr
    {k' : Checker} {fs : List Finding} {s s' : Progress} (h : s.unresolved = s'.unresolved) :
    (fs.foldl k.visit s).unresolved = (fs.foldl k'.visit s').unresolved := by
  induction fs generalizing s s' with
  | nil => exact h
  | cons f fs ih =>
    rw [List.foldl_cons, List.foldl_cons]
    refine ih ?_
    rw [visit, visit]
    cases f.unresolved? with
    | none => simpa only [unresolved_entered] using h
    | some reference =>
      simp only [h]
      split
      · exact h
      · simp only [unresolved_entered]

end Checker

/-- A report lists what is let through of the findings, in the order of their places. -/
theorem report_eq (cmp : Comparison) (registry : Registry) (mode : Mode) :
    cmp.report registry mode =
      .ofEntries (((cmp.findings.filter fun f => isReported registry mode f.issue).map
        (Entry.ofFinding registry)).mergeSort fun a b => (a.location.compare b.location).isLE) := by
  have hcount : ∀ (entries : List Entry) (le : Entry → Entry → Bool),
      { Report.ofEntries entries with entries := entries.mergeSort le } =
        Report.ofEntries (entries.mergeSort le) := by
    intro entries le
    simp only [Report.ofEntries, (List.mergeSort_perm entries le).countP_eq]
  rw [report, Checker.run_eq_foldl, Checker.report_foldl rfl]
  exact hcount _ _

end Comparison

end ApiSurface
