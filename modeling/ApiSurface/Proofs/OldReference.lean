import ApiSurface.Proofs.KeptSignatures
import ApiSurface.Proofs.Migration
import ApiSurface.Proofs.Reversal

/-!
# The old codebase as reference

A nullability that the new codebase declares is open in the old one, so with the old codebase as
reference every such change should be a migration.  The reference is asked for the erased signature
of the new method.  Where the old method has the same erased signature it is the one that is found.
Methods that are paired by written types may erase differently, though, if a bound has changed; then
the reference answers for another method or for none.
-/

namespace ApiSurface

/-- Constructors have no result and methods have one. -/
def Codebase.HasProperMembers (cb : Codebase) : Prop :=
  ∀ c ∈ cb.classes.items, (∀ m ∈ c.constructors, m.isConstructor = true) ∧
    ∀ m ∈ c.methods, m.isConstructor = false

namespace Pairing

variable {c d : ClassDecl} {old new : List Method} {m n : Method}

/-- Partners are paired by written types or have the same erased signature. -/
theorem HasPartner.exact_or_erased (h : (between c old d new).HasPartner m n) :
    m ∈ old ∧ n ∈ new ∧
      ((m, n) ∈ (exact old new).pairs ∨ d.signatureOf n = c.signatureOf m) := by
  obtain ⟨partners, hmatched, hn⟩ := h
  rcases List.mem_append.mp hmatched with hpaired | hpending
  · obtain ⟨p, hp, heq⟩ := List.mem_map.mp hpaired
    cases heq
    cases List.mem_singleton.mp hn
    exact ⟨(mem_of_mem_pairs hp).1, (mem_of_mem_pairs hp).2, .inl hp⟩
  · obtain ⟨m', hm', heq⟩ := List.mem_map.mp hpending
    cases heq
    obtain ⟨hfree, hsignature⟩ := mem_closest hn
    exact ⟨(pending_sublist old new).subset (List.mem_of_mem_filter hm'), mem_of_mem_free hfree,
      .inr hsignature⟩

theorem hasPartner_of_mem_pairs (h : (m, n) ∈ (exact old new).pairs) :
    (between c old d new).HasPartner m n :=
  ⟨[n], List.mem_append_left _ (List.mem_map.mpr ⟨(m, n), h, rfl⟩), List.mem_singleton_self n⟩

end Pairing

namespace Comparison

open Nullness (Place Target)

variable {cmp : Comparison} {c d : ClassDecl}

/-! ## Findings at spots -/

theorem nullability_mem_typeChanges
    {r : Renaming} {s t : TypeRef} (hsame : r.sameType s t = true)
    (hold : s.nullability = .unknown) (hnew : t.nullability ≠ .unknown) (place : Place)
    (target : Target) :
    .nullability (target.migrate cmp.reference .newlyAnnotatedNullability) place
        s.nullability t.nullability ∈ cmp.typeChanges r place target s t := by
  rw [typeChanges, if_pos hsame, nullnessChanges,
    Nullness.classify_eq_newlyAnnotated_iff.mpr ⟨hold, hnew⟩]
  exact List.mem_singleton_self _

theorem mem_compareMethods_of_isMethodSpot
    (cmp : Comparison) {m n : Method} {s : Spot} (hspot : IsMethodSpot c d m n s)
    (hannotated : s.IsAnnotated) :
    s.finding (s.target.migrate cmp.reference .newlyAnnotatedNullability) ∈
      cmp.compareMethods c d m n := by
  simp only [compareMethods, List.mem_append, List.mem_map, List.mem_flatMap]
  cases hspot with
  | result hold hnew hsame =>
    refine .inl (.inl ⟨_, .inr ?_, rfl⟩)
    rw [hold, hnew]
    exact nullability_mem_typeChanges hsame hannotated.1 hannotated.2 _ _
  | @parameter index p q hold hnew hsame =>
    have hindex : ((p, q), index) ∈ (m.parameters.zip n.parameters).zipIdx :=
      List.mem_zipIdx_iff_getElem?.mpr (List.getElem?_zip_eq_some.mpr ⟨hold, hnew⟩)
    refine .inl (.inr ⟨_, hindex, _, .inl ?_, rfl⟩)
    exact nullability_mem_typeChanges hsame hannotated.1 hannotated.2 _ _

theorem mem_pairFindings_of_hasPartner
    {pairing : Pairing} {m n : Method} (hpartner : pairing.HasPartner m n) {f : Finding}
    (hf : f ∈ cmp.compareMethods c d m n) : f ∈ cmp.pairFindings c d pairing := by
  obtain ⟨partners, hmatched, hn⟩ := hpartner
  exact List.mem_flatMap.mpr ⟨_, hmatched, List.mem_flatMap.mpr ⟨n, hn, hf⟩⟩

theorem mem_findings_of_compares
    (hclasses : cmp.Compares c d) {f : Finding} (hf : f.unresolved? = none)
    (hfound : f ∈ cmp.compareClasses c d) : f ∈ cmp.findings := by
  obtain ⟨name, hlisted, hold, hnew⟩ := hclasses
  refine mem_findings_of_isListed hlisted hf ?_
  rwa [classFindings, hold, hnew]

/-- At every spot where a nullability is newly declared there is a finding. -/
theorem mem_findings_of_isSpot {s : Spot} (hspot : cmp.IsSpot s) (hannotated : s.IsAnnotated) :
    s.finding (s.target.migrate cmp.reference .newlyAnnotatedNullability) ∈ cmp.findings := by
  cases hspot with
  | ofConstructors hclasses hpartner hspot =>
    refine mem_findings_of_compares hclasses rfl ?_
    have hpair := mem_pairFindings_of_hasPartner hpartner
      (cmp.mem_compareMethods_of_isMethodSpot hspot hannotated)
    simp only [compareClasses, constructorFindings, List.mem_append]
    exact .inl (.inl (.inr (.inl (.inl hpair))))
  | ofMethods hclasses hpartner hspot =>
    refine mem_findings_of_compares hclasses rfl ?_
    have hpair := mem_pairFindings_of_hasPartner hpartner
      (cmp.mem_compareMethods_of_isMethodSpot hspot hannotated)
    simp only [compareClasses, methodFindings, List.mem_append]
    exact .inl (.inr (.inl (.inl hpair)))
  | ofFields hclasses hold hnew hsame =>
    refine mem_findings_of_compares hclasses rfl ?_
    simp only [compareClasses, fieldFindings, List.mem_append, List.mem_flatMap]
    refine .inr (.inl ⟨_, hold, ?_⟩)
    rw [hnew]
    simp only [compareFields, List.mem_map, List.mem_append]
    refine ⟨_, .inl (.inl (.inr ?_)), rfl⟩
    exact nullability_mem_typeChanges hsame hannotated.1 hannotated.2 _ _

/-- A nullability is found to be newly declared exactly if there is a spot that says so and that the
reference does not leave open. -/
theorem exists_newlyAnnotated_iff :
    (∃ f ∈ cmp.findings, f.issue = .newlyAnnotatedNullability) ↔
      ∃ s, cmp.IsSpot s ∧ s.IsAnnotated ∧ ∀ cb ∈ cmp.reference, ¬ s.target.IsOpenIn cb := by
  constructor
  · rintro ⟨f, hf, hissue⟩
    obtain ⟨trace, htold, hfound⟩ := cmp.traces_findings
    have htrace : cmp.findings = trace.map (told cmp.reference) := hfound cmp.reference
    rw [htrace] at hf
    obtain ⟨x, hx, rfl⟩ := List.mem_map.mp hf
    cases x with
    | inl f => exact absurd hissue (htold _ hx)
    | inr s =>
      obtain ⟨hspot, hannotated⟩ := htold _ hx
      refine ⟨s, hspot, hannotated, fun cb hcb hopen => ?_⟩
      have hmigrated : s.target.migrate cmp.reference .newlyAnnotatedNullability =
          .nullabilityUnderMigration := by
        rw [Option.mem_def.mp hcb, Target.migrate_some, if_pos hopen]
      cases hmigrated.symm.trans hissue
  · rintro ⟨s, hspot, hannotated, hclosed⟩
    refine ⟨_, mem_findings_of_isSpot hspot hannotated, ?_⟩
    cases hreference : cmp.reference with
    | none => rw [s.issue_finding, s.target.migrate_none]
    | some cb => rw [s.issue_finding, s.target.migrate_some, if_neg (hclosed cb hreference)]

theorem exists_newlyAnnotated_entry_iff (cmp : Comparison) (registry : Registry) (mode : Mode) :
    (∃ e ∈ (cmp.report registry mode).entries, e.issue = .newlyAnnotatedNullability) ↔
      registry.severity .newlyAnnotatedNullability ≠ .hidden ∧
        ∃ f ∈ cmp.findings, f.issue = .newlyAnnotatedNullability := by
  constructor
  · rintro ⟨e, he, hissue⟩
    obtain ⟨f, hf, hreported, rfl⟩ := mem_report_iff.mp he
    have hfissue : f.issue = .newlyAnnotatedNullability := hissue
    rw [hfissue] at hreported
    exact ⟨bne_iff_ne.mp (Bool.and_eq_true_iff.mp hreported).2, f, hf, hfissue⟩
  · rintro ⟨hseverity, f, hf, hissue⟩
    refine ⟨_, mem_report_iff.mpr ⟨f, hf, ?_, rfl⟩, hissue⟩
    rw [hissue]
    exact Bool.and_eq_true_iff.mpr ⟨rfl, bne_iff_ne.mpr hseverity⟩

/-! ## Spots that the old codebase leaves open -/

theorem Compares.class?_eq_some (h : cmp.Compares c d) :
    cmp.old.class? d.qualifiedName = some c ∧ c ∈ cmp.old.classes.items ∧
      d ∈ cmp.new.classes.items := by
  obtain ⟨name, -, hold, hnew⟩ := h
  have hc := (Option.filter_eq_some_iff.mp hold).1
  have hd := (Option.filter_eq_some_iff.mp hnew).1
  have hname : d.qualifiedName = name := Catalog.key_of_find? hd
  exact ⟨hname ▸ hc, Catalog.mem_of_find? hc, Catalog.mem_of_find? hd⟩

/-- A reference that finds the old method under the erased signature of the new one leaves open what
the old method leaves open. -/
theorem IsMethodSpot.isOpenIn
    {cb : Codebase} {m n : Method} {s : Spot} (hspot : IsMethodSpot c d m n s)
    (hold : s.old = .unknown) (hclass : cb.class? d.qualifiedName = some c)
    (hfound : (if n.isConstructor then c.findConstructor? (d.signatureOf n)
      else c.findMethod? (d.signatureOf n)) = some m) : s.target.IsOpenIn cb := by
  cases hspot with
  | result hresult hnew _ =>
    have hmethod : n.isConstructor = false := by simp [Method.isConstructor, hnew]
    rw [hmethod] at hfound
    exact ⟨c, hclass, m, hfound, _, hresult, hold⟩
  | parameter hparameter _ _ => exact ⟨c, hclass, m, hfound, _, hparameter, hold⟩

/-- Where signatures are unique, a reference that looks among the old methods leaves open what an
old method leaves open, unless its partner erases differently. -/
theorem IsMethodSpot.isOpenIn_of_hasPartner
    {cb : Codebase} {olds news : List Method} {m n : Method} {s : Spot}
    (hspot : IsMethodSpot c d m n s) (hold : s.old = .unknown)
    (hclass : cb.class? d.qualifiedName = some c)
    (hpartner : (Pairing.between c (olds.filter Method.isVisible) d
      (news.filter Method.isVisible)).HasPartner m n)
    (hunique : (olds.map c.signatureOf).Nodup)
    (hfind : n ∈ news → (if n.isConstructor then c.findConstructor? (d.signatureOf n)
      else c.findMethod? (d.signatureOf n)) =
        olds.find? fun x => c.signatureOf x == d.signatureOf n)
    (hpair : (m, n) ∈ (Pairing.exact (olds.filter Method.isVisible)
        (news.filter Method.isVisible)).pairs →
      d.signatureOf n ≠ c.signatureOf m → s.target.IsOpenIn cb) : s.target.IsOpenIn cb := by
  obtain ⟨hm, hn, hkind⟩ := hpartner.exact_or_erased
  by_cases hsignature : d.signatureOf n = c.signatureOf m
  · refine hspot.isOpenIn hold hclass ?_
    rw [hfind (List.mem_of_mem_filter hn), hsignature]
    exact find?_eq_some_of_nodup hunique (List.mem_of_mem_filter hm)
  · exact hpair (hkind.resolve_right hsignature) hsignature

/-- Methods and constructors that are paired by written types although they erase differently have
no spot that the old codebase does not leave open for the new erased signature. -/
def CoversAnnotations (cmp : Comparison) : Prop :=
  ∀ c d, cmp.Compares c d → ∀ m n,
    (m, n) ∈ (Pairing.exact (c.constructors.filter Method.isVisible)
        (d.constructors.filter Method.isVisible)).pairs ∨
      (m, n) ∈ (Pairing.exact (c.methods.filter Method.isVisible)
        (d.methods.filter Method.isVisible)).pairs →
    d.signatureOf n ≠ c.signatureOf m →
    ∀ s, IsMethodSpot c d m n s → s.IsAnnotated → s.target.IsOpenIn cmp.old

/-- Where members are unique, all spots are open in the old codebase except those of pairs that
erase differently. -/
theorem isOpenIn_old_of_coversAnnotations
    (hsignatures : cmp.old.HasUniqueSignatures) (hfields : cmp.old.HasUniqueFields)
    (hproper : cmp.new.HasProperMembers) (hcovers : cmp.CoversAnnotations) {s : Spot}
    (hspot : cmp.IsSpot s) (hannotated : s.IsAnnotated) : s.target.IsOpenIn cmp.old := by
  cases hspot with
  | @ofConstructors c d m n s hclasses hpartner hspot =>
    obtain ⟨hclass, hc, hd⟩ := hclasses.class?_eq_some
    refine hspot.isOpenIn_of_hasPartner hannotated.1 hclass hpartner (hsignatures c hc).1
      (fun hn => ?_) fun hpair hne => hcovers c d hclasses m n (.inl hpair) hne s hspot hannotated
    rw [(hproper d hd).1 n hn]
    rfl
  | @ofMethods c d m n s hclasses hpartner hspot =>
    obtain ⟨hclass, hc, hd⟩ := hclasses.class?_eq_some
    refine hspot.isOpenIn_of_hasPartner hannotated.1 hclass hpartner (hsignatures c hc).2
      (fun hn => ?_) fun hpair hne => hcovers c d hclasses m n (.inr hpair) hne s hspot hannotated
    rw [(hproper d hd).2 n hn]
    rfl
  | @ofFields c d f g hclasses hold hnew hsame =>
    obtain ⟨hclass, hc, -⟩ := hclasses.class?_eq_some
    have hname : g.name = f.name := by simpa using List.find?_some hnew
    have hfound : c.findField? g.name = some f := by
      rw [hname]
      exact find?_eq_some_of_nodup (hfields c hc) (List.mem_of_mem_filter hold)
    exact ⟨c, hclass, f, hfound, hannotated.1⟩

/-- With the old codebase as reference no nullability is reported as newly declared, unless a method
or constructor is paired by written types with one that erases differently and the old codebase does
not leave open the types of that one. -/
theorem newlyAnnotated_unreported_iff
    (old new : Codebase) (hsignatures : old.HasUniqueSignatures) (hfields : old.HasUniqueFields)
    (hproper : new.HasProperMembers) (registry : Registry) (mode : Mode) :
    (∀ e ∈ (report { old, new, reference := some old } registry mode).entries,
        e.issue ≠ .newlyAnnotatedNullability) ↔
      registry.severity .newlyAnnotatedNullability = .hidden ∨
        CoversAnnotations { old, new, reference := some old } := by
  have hentry := exists_newlyAnnotated_entry_iff { old, new, reference := some old } registry mode
  rw [exists_newlyAnnotated_iff] at hentry
  constructor
  · intro hnone
    rw [or_iff_not_imp_left]
    intro hseverity c d hclasses m n hpair hsignature s hspot hannotated
    by_contra hclosed
    have hisSpot : IsSpot { old, new, reference := some old } s := by
      rcases hpair with hpair | hpair
      · exact .ofConstructors hclasses (Pairing.hasPartner_of_mem_pairs hpair) hspot
      · exact .ofMethods hclasses (Pairing.hasPartner_of_mem_pairs hpair) hspot
    obtain ⟨e, he, hissue⟩ := hentry.mpr ⟨hseverity, s, hisSpot, hannotated, by simpa using hclosed⟩
    exact hnone e he hissue
  · intro hcovers e he hissue
    obtain ⟨hseverity, s, hspot, hannotated, hclosed⟩ := hentry.mp ⟨e, he, hissue⟩
    exact hclosed old rfl (isOpenIn_old_of_coversAnnotations hsignatures hfields hproper
      (hcovers.resolve_left hseverity) hspot hannotated)

/-! ## A bound that changes together with an annotation -/

/-- The method `put` with a parameter that is declared nonnull. -/
def annotatedPut : Method :=
  { putMethod "T" with
    parameters := [{ type := { TypeRef.named "T" with nullability := .nonNull } }] }

theorem boxOnly_hasUniqueSignatures
    {bound : String} {methods : List Method}
    (h : (methods.map (boxClass bound methods).signatureOf).Nodup) :
    (boxOnly bound methods).HasUniqueSignatures := by
  intro c hc
  cases List.mem_singleton.mp hc
  exact ⟨List.nodup_nil, h⟩

theorem boxOnly_hasUniqueFields (bound : String) (methods : List Method) :
    (boxOnly bound methods).HasUniqueFields := by
  intro c hc
  cases List.mem_singleton.mp hc
  exact List.nodup_nil

theorem boxOnly_hasProperMembers
    {bound : String} {methods : List Method} (h : ∀ m ∈ methods, m.isConstructor = false) :
    (boxOnly bound methods).HasProperMembers := by
  intro c hc
  cases List.mem_singleton.mp hc
  exact ⟨List.forall_mem_nil _, h⟩

/-- An old method happens to have the erased signature that the new bound gives to `put`. -/
theorem coveredBound_newlyAnnotated_unreported :
    let old := boxOnly "java.lang.Number" [putMethod "T", putMethod "java.lang.String"]
    let new := boxOnly "java.lang.String" [annotatedPut]
    old.HasUniqueSignatures ∧ old.HasUniqueFields ∧ new.HasProperMembers ∧
      ∀ e ∈ (report { old, new, reference := some old } {} .released).entries,
        e.issue ≠ .newlyAnnotatedNullability := by
  intro old new
  have hsignatures : old.HasUniqueSignatures := boxOnly_hasUniqueSignatures (by decide)
  have hfields : old.HasUniqueFields := boxOnly_hasUniqueFields _ _
  have hproper : new.HasProperMembers := boxOnly_hasProperMembers (by decide)
  refine ⟨hsignatures, hfields, hproper,
    (newlyAnnotated_unreported_iff old new hsignatures hfields hproper {} .released).mpr (.inr ?_)⟩
  intro c d hclasses m n hpair _ s hspot hannotated
  obtain ⟨-, hc, hd⟩ := hclasses.class?_eq_some
  cases List.mem_singleton.mp hc
  cases List.mem_singleton.mp hd
  rcases hpair with hpair | hpair
  · cases hpair
  · have hpairs :
        (Pairing.exact [putMethod "T", putMethod "java.lang.String"] [annotatedPut]).pairs =
          [(putMethod "T", annotatedPut)] := by decide
    have hmem : (m, n) ∈ [(putMethod "T", annotatedPut)] := hpairs ▸ hpair
    cases List.mem_singleton.mp hmem
    cases hspot with
    | result hold _ _ =>
      cases hold
      have hvoid : (TypeRef.named "void").nullability ≠ .unknown := by decide
      exact absurd hannotated.1 hvoid
    | @parameter index p q _ hnew _ =>
      obtain rfl : index = 0 := by
        have hlt := (List.getElem?_eq_some_iff.mp hnew).1
        exact Nat.lt_one_iff.mp hlt
      have hopen : (Target.parameter "a.Box" "put(java.lang.String)" false 0).IsOpenIn
          (boxOnly "java.lang.Number" [putMethod "T", putMethod "java.lang.String"]) := by decide
      exact hopen

/-- The bound of the type variable changes and the parameter is annotated: the old codebase has the
method, and leaves its parameter open, but under another erased signature. -/
theorem changedBound_newlyAnnotated :
    let old := boxOnly "java.lang.Number" [putMethod "T"]
    let new := boxOnly "java.lang.String" [annotatedPut]
    old.HasUniqueSignatures ∧ old.HasUniqueFields ∧ new.HasUniqueSignatures ∧ new.HasUniqueFields ∧
      new.HasProperMembers ∧ ∀ mode,
        ∃ e ∈ (report { old, new, reference := some old } {} mode).entries,
          e.issue = .newlyAnnotatedNullability := by
  intro old new
  refine ⟨boxOnly_hasUniqueSignatures (by decide), boxOnly_hasUniqueFields _ _,
    boxOnly_hasUniqueSignatures (by decide), boxOnly_hasUniqueFields _ _,
    boxOnly_hasProperMembers (by decide), fun mode => ?_⟩
  refine (exists_newlyAnnotated_entry_iff _ _ _).mpr ⟨by decide, exists_newlyAnnotated_iff.mpr ?_⟩
  refine ⟨_, .ofMethods ⟨"a.Box", ?_, rfl, rfl⟩
    (Pairing.hasPartner_of_mem_pairs (m := putMethod "T") (n := annotatedPut) ?_)
    (@IsMethodSpot.parameter _ _ _ _ 0 _ _ rfl rfl rfl), ?_, ?_⟩
  · exact ⟨"a", .head _, .head _, .inl (.head _)⟩
  · exact .head _
  · exact ⟨rfl, by decide⟩
  · rintro cb ⟨⟩
    decide

end Comparison

end ApiSurface
