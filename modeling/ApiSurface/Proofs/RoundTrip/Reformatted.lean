import ApiSurface.Proofs.Decisions
import ApiSurface.Proofs.RoundTrip.Told

/-!
# Texts that are formatted twice

A text is formatted by reading it, settling its surface and writing what is on it.  The second time
the classes and members that are not on the surface are gone.  A class can be on the surface because
a show rule covers the class around it which itself is too narrow to appear; without that class
nothing shows it any more.  So a formatted text stays as it is exactly if settling its surface alone
shows all of it, which it does if show rules pass through written classes only.
-/

namespace ApiSurface

open Signature (View WriteSettings)

/-! ## The surface of a codebase -/

/-- What is written of a codebase once its surface is settled. -/
def Codebase.surface (rules : SurfaceRules) (order : MemberOrder) (cb : Codebase) : Codebase :=
  (cb.settle rules).told.published .live order

namespace Surface

/-- What is written of a class once it is settled. -/
def written (rules : SurfaceRules) (order : MemberOrder) (cb : Codebase) (c : ClassDecl) :
    ClassDecl :=
  (settleClass rules cb c).told.published .live order

/-- Settling looks at states and changes nothing else. -/
theorem bare_settle (cb : Codebase) (rules : SurfaceRules) : (cb.settle rules).bare = cb.bare := by
  refine (Codebase.mk.injEq ..).mpr ⟨?_, ?_⟩
  · exact Catalog.map_map cb.packages (settlePackage rules) _ (fun _ => rfl) _
  · refine (Catalog.map_map cb.classes (settleClass rules cb) _ (fun _ => rfl) _).trans ?_
    refine Catalog.map_congr fun c => ?_
    simp only [Function.comp_apply, ClassDecl.bare, settleClass, List.map_map]
    rfl

section

variable {rules : SurfaceRules} {order : MemberOrder} {cb : Codebase}

theorem mem_classes_surface {c : ClassDecl} :
    c ∈ (cb.surface rules order).classes.items ↔
      ∃ d ∈ cb.classes.items, (settleClass rules cb d).isVisible = true ∧
        written rules order cb d = c := by
  rw [Codebase.surface, Codebase.mem_classes_published]
  constructor
  · rintro ⟨d, hd, hshown, rfl⟩
    obtain ⟨e, he, rfl⟩ := Codebase.mem_classes_told.mp hd
    obtain ⟨o, ho, rfl⟩ := mem_classes_settle.mp he
    exact ⟨o, ho, hshown, rfl⟩
  · rintro ⟨o, ho, hshown, rfl⟩
    refine ⟨_, Codebase.mem_classes_told.mpr ⟨_, mem_classes_settle.mpr ⟨o, ho, rfl⟩, rfl⟩, ?_, rfl⟩
    exact hshown

theorem class?_surface (name : String) :
    (cb.surface rules order).class? name =
      ((cb.class? name).filter fun c => (settleClass rules cb c).isVisible).map
        (written rules order cb) := by
  refine Option.ext fun c => ?_
  simp only [Codebase.class?_eq_some_iff, mem_classes_surface, Option.map_eq_some_iff,
    Option.filter_eq_some_iff]
  constructor
  · rintro ⟨⟨d, hd, hshown, rfl⟩, hname⟩
    exact ⟨d, ⟨⟨hd, hname⟩, hshown⟩, rfl⟩
  · rintro ⟨d, ⟨⟨hd, hname⟩, hshown⟩, rfl⟩
    exact ⟨⟨d, hd, hshown, rfl⟩, hname⟩

theorem around?_surface (c : ClassDecl) :
    (cb.surface rules order).around? (written rules order cb c) =
      ((cb.around? c).filter fun e => (settleClass rules cb e).isVisible).map
        (written rules order cb) := by
  have hsame : (cb.surface rules order).around? (written rules order cb c) =
      (cb.surface rules order).around? c := Codebase.around?_congr rfl rfl
  rw [hsame, Codebase.around?, Codebase.around?]
  cases c.containingClass with
  | none => rfl
  | some name => exact class?_surface name

/-- A written class around a written class passes down what is decided about it on the surface. -/
theorem outerContext_surface
    {c e : ClassDecl} (haround : cb.around? c = some e)
    (hvisible : (settleClass rules cb e).isVisible = true) :
    outerContext rules (cb.surface rules order) (written rules order cb c) =
      (decision rules (cb.surface rules order) (written rules order cb e)).context := by
  rw [outerContext, around?_surface, haround, Option.filter, if_pos hvisible]
  rfl

/-- On the surface, a class that is not written passes nothing down. -/
theorem outerContext_surface_eq_empty
    {c : ClassDecl} (h : ∀ e, cb.around? c = some e → ¬ (settleClass rules cb e).isVisible = true) :
    outerContext rules (cb.surface rules order) (written rules order cb c) = {} := by
  rw [outerContext, around?_surface]
  cases haround : cb.around? c with
  | none => rfl
  | some e =>
    rw [Option.filter, if_neg (h e haround)]
    rfl

end

/-! ## Members -/

/-- A method that was settled and written is decided as before, where the same is passed down. -/
theorem settleMethod_written
    (rules : SurfaceRules) (parent : Context) {m : Method} (h : m.IsFresh) :
    (settleMethod rules parent (settleMethod rules parent m).told.bare).exposure =
      (settleMethod rules parent m).exposure := by
  rw [settleMethod, settleMethod, ← h.1]
  rfl

/-- A field that was settled and written is decided as before, where the same is passed down. -/
theorem settleField_written
    (rules : SurfaceRules) (parent : Context) {x : Field} (h : x.IsFresh) :
    (settleField rules parent (settleField rules parent x).told.bare).exposure =
      (settleField rules parent x).exposure := by
  rw [settleField, settleField, ← h.1]
  rfl

section

variable (rules : SurfaceRules) (parent : Context) (order : MemberOrder)

/-- What is written of methods once they are settled. -/
def writtenMethods (ms : List Method) : List Method :=
  ((order.sortMethods ((ms.map (settleMethod rules parent)).map Method.told)).filter
    View.live.showsMethod).map Method.bare

/-- What is written of fields once they are settled. -/
def writtenFields (xs : List Field) : List Field :=
  ((order.sortFields ((xs.map (settleField rules parent)).map Field.told)).filter
    View.live.showsField).map Field.bare

theorem mem_writtenMethods {ms : List Method} {m : Method} :
    m ∈ writtenMethods rules parent order ms ↔
      ∃ o ∈ ms, View.live.showsMethod (settleMethod rules parent o) = true ∧
        (settleMethod rules parent o).told.bare = m := by
  simp only [writtenMethods, List.mem_map, List.mem_filter, MemberOrder.sortMethods,
    List.mem_mergeSort]
  constructor
  · rintro ⟨_, ⟨⟨_, ⟨o, ho, rfl⟩, rfl⟩, hshows⟩, rfl⟩
    exact ⟨o, ho, hshows, rfl⟩
  · rintro ⟨o, ho, hshows, rfl⟩
    exact ⟨_, ⟨⟨_, ⟨o, ho, rfl⟩, rfl⟩, hshows⟩, rfl⟩

theorem mem_writtenFields {xs : List Field} {x : Field} :
    x ∈ writtenFields rules parent order xs ↔
      ∃ o ∈ xs, View.live.showsField (settleField rules parent o) = true ∧
        (settleField rules parent o).told.bare = x := by
  simp only [writtenFields, List.mem_map, List.mem_filter, MemberOrder.sortFields,
    List.mem_mergeSort]
  constructor
  · rintro ⟨_, ⟨⟨_, ⟨o, ho, rfl⟩, rfl⟩, hshows⟩, rfl⟩
    exact ⟨o, ho, hshows, rfl⟩
  · rintro ⟨o, ho, hshows, rfl⟩
    exact ⟨_, ⟨⟨_, ⟨o, ho, rfl⟩, rfl⟩, hshows⟩, rfl⟩

/-- Methods that were settled and written are all written again. -/
theorem writtenMethods_again {ms : List Method} (h : ∀ m ∈ ms, m.IsFresh) :
    writtenMethods rules parent order (writtenMethods rules parent order ms) =
      writtenMethods rules parent order ms := by
  rw [writtenMethods, List.map_map]
  refine MemberOrder.map_filter_mergeSort_again (f := Method.bare)
    (g := Method.told ∘ settleMethod rules parent)
    (fun a b => show order.compareMethods a.bare b.bare = order.compareMethods a b from rfl)
    (fun _ _ => rfl) rfl fun m hm => ?_
  obtain ⟨o, ho, hshows, rfl⟩ := (mem_writtenMethods rules parent order).mp hm
  have hexposure := settleMethod_written rules parent (h o ho)
  refine ⟨?_, rfl⟩
  rw [View.showsMethod, Function.comp_apply, Method.told, hexposure]
  exact hshows

/-- Fields that were settled and written are all written again. -/
theorem writtenFields_again {xs : List Field} (h : ∀ x ∈ xs, x.IsFresh) :
    writtenFields rules parent order (writtenFields rules parent order xs) =
      writtenFields rules parent order xs := by
  rw [writtenFields, List.map_map]
  refine MemberOrder.map_filter_mergeSort_again (f := Field.bare)
    (g := Field.told ∘ settleField rules parent)
    (fun a b => show order.compareFields a.bare b.bare = order.compareFields a b from rfl)
    (fun _ _ => rfl) rfl fun x hx => ?_
  obtain ⟨o, ho, hshows, rfl⟩ := (mem_writtenFields rules parent order).mp hx
  have hexposure := settleField_written rules parent (h o ho)
  refine ⟨?_, rfl⟩
  rw [View.showsField, Function.comp_apply, Field.told, hexposure]
  exact hshows

/-- A method on the surface is on the surface again. -/
theorem exists_visible_writtenMethods
    {ms : List Method} (h : ∀ m ∈ ms, m.IsFresh)
    (hvisible : ∃ m ∈ ms.map (settleMethod rules parent), m.exposure.lifecycle = .visible) :
    ∃ m ∈ (writtenMethods rules parent order ms).map (settleMethod rules parent),
      m.exposure.lifecycle = .visible := by
  obtain ⟨_, hm, hlifecycle⟩ := hvisible
  obtain ⟨o, ho, rfl⟩ := List.mem_map.mp hm
  have hshows : View.live.showsMethod (settleMethod rules parent o) = true := by
    have hsynthetic : (settleMethod rules parent o).synthetic = false := (h o ho).2
    rw [View.showsMethod, hsynthetic, hlifecycle]
    rfl
  refine ⟨_, List.mem_map.mpr ⟨_, (mem_writtenMethods rules parent order).mpr
    ⟨o, ho, hshows, rfl⟩, rfl⟩, ?_⟩
  rw [settleMethod_written rules parent (h o ho), hlifecycle]

/-- A field on the surface is on the surface again. -/
theorem exists_visible_writtenFields
    {xs : List Field} (h : ∀ x ∈ xs, x.IsFresh)
    (hvisible : ∃ x ∈ xs.map (settleField rules parent), x.exposure.lifecycle = .visible) :
    ∃ x ∈ (writtenFields rules parent order xs).map (settleField rules parent),
      x.exposure.lifecycle = .visible := by
  obtain ⟨_, hx, hlifecycle⟩ := hvisible
  obtain ⟨o, ho, rfl⟩ := List.mem_map.mp hx
  have hshows : View.live.showsField (settleField rules parent o) = true := by
    have hsynthetic : (settleField rules parent o).synthetic = false := (h o ho).2
    rw [View.showsField, hsynthetic, hlifecycle]
    rfl
  refine ⟨_, List.mem_map.mpr ⟨_, (mem_writtenFields rules parent order).mpr
    ⟨o, ho, hshows, rfl⟩, rfl⟩, ?_⟩
  rw [settleField_written rules parent (h o ho), hlifecycle]

end

/-- What is written of a class, part by part. -/
theorem written_eq (rules : SurfaceRules) (order : MemberOrder) (cb : Codebase) (c : ClassDecl) :
    written rules order cb c =
      { c with
        modifiers := c.modifiers.ofClass
        superclass := c.toldSuperclass
        constructors := writtenMethods rules (decision rules cb c).context order c.constructors
        methods := writtenMethods rules (decision rules cb c).context order c.methods
        fields := writtenFields rules (decision rules cb c).context order c.fields
        exposure := {}
        tags := {} } :=
  rfl

/-! ## Settling the surface alone -/

/-- Show rules pass through written classes only: where the class directly around a written class is
not written, no class around it has a show annotation. -/
def IsSelfContained (rules : SurfaceRules) (cb : Codebase) : Prop :=
  ∀ c ∈ cb.classes.items, (settleClass rules cb c).isVisible = true →
    ∀ e ∈ cb.around? c, (settleClass rules cb e).isVisible = false →
      ∀ o ∈ cb.enclosing c, Annotation.hasAny o.annotations rules.showAnnotations = false

instance (rules : SurfaceRules) (cb : Codebase) : Decidable (IsSelfContained rules cb) :=
  inferInstanceAs (Decidable (∀ c ∈ _, _ → ∀ e ∈ _, _ → ∀ o ∈ _, _))

section

variable {rules : SurfaceRules} {order : MemberOrder} {cb : Codebase} (hindexed : cb.IsIndexed)
  (hfresh : cb.IsFresh)

include hindexed hfresh

/-- A class is judged alike in a codebase and on its surface, where the same is passed down. -/
theorem judgeClass_written
    {c : ClassDecl} (hc : c ∈ cb.classes.items)
    (hvisible : (settleClass rules cb c).isVisible = true)
    (outer : Context) :
    judgeClass rules (cb.surface rules order) outer (written rules order cb c) =
      judgeClass rules cb outer c := by
  have hderived : (cb.surface rules order).IsDerived :=
    Codebase.isDerived_published (isIndexed_settle hindexed rules).told .live order
  have hsurface : ∀ p ∈ (cb.surface rules order).packages.items, p.tags = {} := by
    intro p hp
    rw [hderived.plain p hp]
  have huntagged : ∀ p ∈ cb.packages.items, p.tags = {} := by
    intro p hp
    rw [hfresh.packages p hp]
  have hmem : written rules order cb c ∈ (cb.surface rules order).classes.items :=
    mem_classes_surface.mpr ⟨c, hc, hvisible, rfl⟩
  rw [judgeClass, judgeClass, packageContext_eq hderived.toIsIndexed hsurface hmem,
    packageContext_eq hindexed huntagged hc, (hfresh.classes c hc).tags]
  rfl

/-- The decision about a written class stays if show rules pass through written classes only. -/
theorem decision_surface
    (hcontained : IsSelfContained rules cb) {c : ClassDecl} (hc : c ∈ cb.classes.items)
    (hvisible : (settleClass rules cb c).isVisible = true) :
    decision rules (cb.surface rules order) (written rules order cb c) = decision rules cb c := by
  revert hc hvisible
  induction c using cb.around?_induction with
  | step c ih =>
    intro hc hvisible
    rw [decision_eq, judgeClass_written hindexed hfresh hc hvisible]
    cases haround : cb.around? c with
    | none =>
      rw [outerContext_surface_eq_empty fun e he => absurd (haround.symm.trans he) nofun,
        decision_eq, outerContext, haround]
    | some e =>
      have he := Codebase.mem_classes_of_around? haround
      have hcontext : outerContext rules cb c = (decision rules cb e).context := by
        rw [outerContext, haround]
      by_cases hshown : (settleClass rules cb e).isVisible = true
      · rw [outerContext_surface haround hshown, ih e haround he hshown, decision_eq rules cb c,
          hcontext]
      · -- the class around it is gone; it passed nothing down that could show the class
        have hshowing : (decision rules cb e).showing = false := by
          rw [decision_showing, ← Codebase.enclosing_eq_cons haround, List.any_eq_false]
          intro o ho
          rw [hcontained c hc hvisible e haround (by simpa using hshown) o ho]
          exact Bool.false_ne_true
        have hremoved : (decision rules cb e).context.removed = false := by
          have hstays : (decision rules cb e).exposure.lifecycle ≠ .removed :=
            decision_not_removed (fun p hp => by rw [hfresh.packages p hp])
              (fun o ho => (hfresh.classes o ho).tags) he
          simpa [Decision.context] using hstays
        have happears := appears_of_isVisible hvisible
        have hnone : ∀ o, cb.around? c = some o → ¬ (settleClass rules cb o).isVisible = true := by
          intro o ho
          cases haround.symm.trans ho
          exact hshown
        rw [outerContext_surface_eq_empty hnone]
        rw [decision_eq, hcontext] at happears ⊢
        refine judge_eq_of_appears ?_ ?_ (fun h => ?_) happears
        · rw [hremoved]
        · exact hshowing.symm
        · rw [Bool.or_false] at h
          rw [h, Bool.true_or]

/-- A written class is written again if show rules pass through written classes only. -/
theorem written_again
    (hcontained : IsSelfContained rules cb) {c : ClassDecl} (hc : c ∈ cb.classes.items)
    (hvisible : (settleClass rules cb c).isVisible = true) :
    (settleClass rules (cb.surface rules order) (written rules order cb c)).isVisible = true ∧
      written rules order (cb.surface rules order) (written rules order cb c) =
        written rules order cb c := by
  have hclass := hfresh.classes c hc
  have hdecision : decision rules (cb.surface rules order) (written rules order cb c) =
      decision rules cb c := decision_surface hindexed hfresh hcontained hc hvisible
  -- what is decided about the members follows from what the class passes down
  constructor
  · rw [isVisible_settleClass_iff, hdecision]
    refine (isVisible_settleClass_iff.mp hvisible).imp_right (And.imp_right ?_)
    simp only [HasVisibleMember, settleClass, hdecision, List.mem_append, or_and_right, exists_or]
    refine Or.imp (Or.imp ?_ ?_) ?_
    · exact exists_visible_writtenMethods rules _ order hclass.constructors
    · exact exists_visible_writtenMethods rules _ order hclass.methods
    · exact exists_visible_writtenFields rules _ order hclass.fields
  · have hsuperclass : (written rules order cb c).toldSuperclass = c.toldSuperclass :=
      c.toldSuperclass_told
    rw [written_eq rules order (cb.surface rules order), hdecision, hsuperclass,
      written_eq rules order cb c]
    simp only
    rw [writtenMethods_again rules _ order hclass.constructors,
      writtenMethods_again rules _ order hclass.methods,
      writtenFields_again rules _ order hclass.fields]
    rfl

/-- The surface of the surface is the surface if show rules pass through written classes only. -/
theorem surface_surface (hcontained : IsSelfContained rules cb) :
    (cb.surface rules order).surface rules order = cb.surface rules order := by
  have hderived : (cb.surface rules order).IsDerived :=
    Codebase.isDerived_published (isIndexed_settle hindexed rules).told .live order
  have hderived' : ((cb.surface rules order).surface rules order).IsDerived :=
    Codebase.isDerived_published (isIndexed_settle hderived.toIsIndexed rules).told .live order
  refine hderived'.eq_of_classes_eq hderived (Catalog.eq_of_mem_iff fun d => ?_)
  rw [mem_classes_surface]
  constructor
  · rintro ⟨e, he, -, rfl⟩
    obtain ⟨c, hc, hvisible, rfl⟩ := mem_classes_surface.mp he
    rw [(written_again hindexed hfresh hcontained hc hvisible).2]
    exact he
  · intro hd
    obtain ⟨c, hc, hvisible, rfl⟩ := mem_classes_surface.mp hd
    exact ⟨_, hd, written_again hindexed hfresh hcontained hc hvisible⟩

end

end Surface

/-! ## Formatting -/

namespace Signature

open Surface (IsSelfContained)

/-- Options for a text of the second or third version that tells all of the surface and nothing but
what its version announces. -/
structure WriteOptions.IsRegular (o : WriteOptions) : Prop where
  format : o.format ≠ .v1
  header : o.header = true
  defaultValues : o.defaultValues = true
  compatible : o.compatible ≠ some true
  kotlinNulls : o.kotlinNulls = none
  omitCommon : o.omitCommon = false
  view : o.view = .live

theorem write_of_isRegular {o : WriteOptions} (h : o.IsRegular) (cb : Codebase) :
    write o cb = .ok ((o.format.settings none .live o.order).codebaseText cb) := by
  obtain ⟨format, kotlinNulls, defaultValues, omitCommon, compatible, header, view, order, common,
    requireLossless⟩ := o
  obtain ⟨hformat, rfl, rfl, hcompatible, rfl, rfl, rfl⟩ := h
  cases format with
  | v1 => exact absurd rfl hformat
  | v2 =>
    rcases compatible with _ | _ | _
    · cases requireLossless <;> rfl
    · cases requireLossless <;> rfl
    · exact absurd rfl hcompatible
  | v3 =>
    rcases compatible with _ | _ | _
    · cases requireLossless <;> rfl
    · cases requireLossless <;> rfl
    · exact absurd rfl hcompatible

/-- Read a text, settle its surface and write it. -/
def reformat (rules : SurfaceRules) (o : WriteOptions) (text : String) : Except Fault String := do
  let cb ← read {} text
  write o (cb.settle rules)

/-- No word in front of a member of the class is taken for a keyword, and no annotation for a
deprecation. -/
structure HasPlainMembers (c : ClassDecl) : Prop where
  named : c.constructors ≠ [] → Modifiers.isKeyword c.name = false
  methods : ∀ m ∈ c.methods, AreOfMember m.annotations
  fields : ∀ x ∈ c.fields, AreOfMember x.annotations

instance (c : ClassDecl) : Decidable (HasPlainMembers c) :=
  decidable_of_iff
    ((c.constructors ≠ [] → Modifiers.isKeyword c.name = false) ∧
      (∀ m ∈ c.methods, AreOfMember m.annotations) ∧ ∀ x ∈ c.fields, AreOfMember x.annotations)
    ⟨fun ⟨h₁, h₂, h₃⟩ => ⟨h₁, h₂, h₃⟩, fun ⟨h₁, h₂, h₃⟩ => ⟨h₁, h₂, h₃⟩⟩

theorem hasPlainMembers_settleClass
    {rules : SurfaceRules} {cb : Codebase} {c : ClassDecl} (h : HasPlainMembers c) :
    HasPlainMembers (Surface.settleClass rules cb c) where
  named := fun hne => h.named (by simpa [Surface.settleClass] using hne)
  methods := List.forall_mem_map.mpr h.methods
  fields := List.forall_mem_map.mpr h.fields

theorem hasPlainMembers_written
    {rules : SurfaceRules} {order : MemberOrder} {cb : Codebase} {c : ClassDecl}
    (h : HasPlainMembers c) : HasPlainMembers (Surface.written rules order cb c) where
  named := by
    intro hne
    obtain ⟨m, hm⟩ := List.exists_mem_of_ne_nil _ hne
    obtain ⟨o, ho, -⟩ := (Surface.mem_writtenMethods _ _ _).mp hm
    exact h.named (List.ne_nil_of_mem ho)
  methods := by
    intro m hm
    obtain ⟨o, ho, -, rfl⟩ := (Surface.mem_writtenMethods _ _ _).mp hm
    exact h.methods o ho
  fields := by
    intro x hx
    obtain ⟨o, ho, -, rfl⟩ := (Surface.mem_writtenFields _ _ _).mp hx
    exact h.fields o ho

section

variable {rules : SurfaceRules} {format : Format} (hformat : format ≠ .v1) {order : MemberOrder}
  {cb : Codebase}

include hformat

/-- A settled codebase is read back as its surface. -/
theorem read_settled
    (h : IsReadCodebase none cb) (hplain : ∀ c ∈ cb.classes.items, HasPlainMembers c) :
    read {} ((format.settings none .live order).codebaseText (cb.settle rules)) =
      .ok (cb.surface rules order) := by
  have hsettled : IsReadCodebase none (cb.settle rules) := by
    rw [← isReadCodebase_bare, Surface.bare_settle, isReadCodebase_bare]
    exact h
  have hagree := agree_settings hformat none .live order
  have hcompatible := compatible_settings hformat none .live order
  rw [← WriteSettings.codebaseText_told hcompatible rfl hsettled.indexed]
  refine read_eq_published rfl hagree (isReadCodebase_told hsettled) hcompatible fun c hc => ?_
  obtain ⟨d, hd, rfl⟩ := Codebase.mem_classes_told.mp hc
  obtain ⟨o, ho, rfl⟩ := Surface.mem_classes_settle.mp hd
  obtain ⟨hnamed, hmethods, hfields⟩ := hasPlainMembers_settleClass (hplain o ho)
  exact isExpressible_told hnamed hmethods hfields

/-- A settled codebase and its surface have the same text. -/
theorem codebaseText_surface (h : cb.IsIndexed) :
    (format.settings none .live order).codebaseText (cb.surface rules order) =
      (format.settings none .live order).codebaseText (cb.settle rules) := by
  have hindexed := Surface.isIndexed_settle h rules
  exact (WriteSettings.codebaseText_published rfl hindexed.told).trans
    (WriteSettings.codebaseText_told (compatible_settings hformat none .live order) rfl hindexed)

end

/-- A formatted text is read as the surface.  It stays as it is exactly if the surface of the
surface is the surface, and it is so if show rules pass through written classes only. -/
theorem reformat_eq_self_iff
    {rules : SurfaceRules} {o : WriteOptions} (ho : o.IsRegular) {text formatted : String}
    {cb : Codebase} (hread : read {} text = .ok cb)
    (hplain : ∀ c ∈ cb.classes.items, HasPlainMembers c)
    (hformatted : reformat rules o text = .ok formatted) :
    read {} formatted = .ok (cb.surface rules o.order) ∧
      (reformat rules o formatted = .ok formatted ↔
        (cb.surface rules o.order).surface rules o.order = cb.surface rules o.order) ∧
      (IsSelfContained rules cb → reformat rules o formatted = .ok formatted) := by
  have hcb : IsReadCodebase none cb := isReadCodebase_of_read (by simp) hread
  rw [reformat, hread, ok_bind, write_of_isRegular ho] at hformatted
  obtain rfl := Except.ok.inj hformatted
  have hsurface : read {} ((o.format.settings none .live o.order).codebaseText (cb.settle rules)) =
      .ok (cb.surface rules o.order) := read_settled ho.format hcb hplain
  have hagain : read {} ((o.format.settings none .live o.order).codebaseText
      ((cb.surface rules o.order).settle rules)) =
        .ok ((cb.surface rules o.order).surface rules o.order) := by
    refine read_settled ho.format (isReadCodebase_of_read (by simp) hsurface) fun c hc => ?_
    obtain ⟨d, hd, -, rfl⟩ := Surface.mem_classes_surface.mp hc
    exact hasPlainMembers_written (hplain d hd)
  have htwice : reformat rules o
      ((o.format.settings none .live o.order).codebaseText (cb.settle rules)) =
        .ok ((o.format.settings none .live o.order).codebaseText
          ((cb.surface rules o.order).settle rules)) := by
    rw [reformat, hsurface, ok_bind, write_of_isRegular ho]
  have hfixed : (cb.surface rules o.order).surface rules o.order = cb.surface rules o.order →
      reformat rules o ((o.format.settings none .live o.order).codebaseText (cb.settle rules)) =
        .ok ((o.format.settings none .live o.order).codebaseText (cb.settle rules)) := by
    intro h
    have hindexed := (isReadCodebase_of_read (by simp) hsurface).indexed
    rw [htwice, ← codebaseText_surface ho.format hindexed, h,
      codebaseText_surface ho.format hcb.indexed]
  refine ⟨hsurface, ⟨fun h => ?_, hfixed⟩, fun hcontained => ?_⟩
  · rw [Except.ok.inj (htwice.symm.trans h), hsurface] at hagain
    exact (Except.ok.inj hagain).symm
  · exact hfixed (Surface.surface_surface hcb.indexed (isFresh_of_read hread) hcontained)

/-- A class that is shown together with a class inside it, and a field that is not. -/
def shelfText : String :=
  "package a \x7b @Show public default class Shelf \x7b field private int size; \x7d " ++
    "public class Shelf.Book extends java.lang.Object? \x7b\x7d \x7d"

/-- What is public is on the surface if a show annotation covers it. -/
def shelfRules : SurfaceRules :=
  { level := .pub, showAnnotations := ["Show"] }

def shelfAndBook : Codebase :=
  let declare (name : String) : ClassDecl :=
    (ClassDecl.declare "a" name .ordinary).withModifiers { access := .pub }
  let size : Field :=
    { name := "size", owner := "a.Shelf", modifiers := { access := .priv }, type := .named "int" }
  { packages :=
      ⟨[{ name := "a", classNames := ⟨["a.Shelf", "a.Shelf.Book"], by decide⟩ }], by decide⟩
    classes :=
      ⟨[{ declare "Shelf" with
          modifiers := { access := .pub, isDefault := true }
          annotations := [{ name := "Show" }]
          fields := [size] },
        declare "Shelf.Book"], by decide⟩ }

/-- The text without the private field and without what is not written of the classes. -/
def shelfFormatted : String :=
  "// Signature format: 3.0\npackage a \x7b\n\n  @Show public class Shelf \x7b\n  \x7d\n\n" ++
    "  public class Shelf.Book \x7b\n  \x7d\n\n\x7d\n\n"

theorem shelfFormatted_reformat_eq_self :
    reformat shelfRules { order := .name } shelfText = .ok shelfFormatted ∧
      reformat shelfRules { order := .name } shelfFormatted = .ok shelfFormatted := by
  have hregular : ({ order := .name } : WriteOptions).IsRegular :=
    ⟨nofun, rfl, rfl, nofun, rfl, rfl, rfl⟩
  have hread : read {} shelfText = .ok shelfAndBook := by decide +kernel
  have hplain : ∀ c ∈ shelfAndBook.classes.items, HasPlainMembers c := by decide
  have hcontained : IsSelfContained shelfRules shelfAndBook := by decide +kernel
  have hformatted : reformat shelfRules { order := .name } shelfText = .ok shelfFormatted := by
    rw [reformat, hread, ok_bind]
    decide +kernel
  exact ⟨hformatted, (reformat_eq_self_iff hregular hread hplain hformatted).2.2 hcontained⟩

/-- A book on a shelf that is too narrow to appear. -/
def bookText : String :=
  "package a \x7b @Show class Shelf \x7b\x7d public class Shelf.Book \x7b\x7d \x7d"

def bookFormatted : String :=
  "// Signature format: 3.0\npackage a \x7b\n\n  public class Shelf.Book \x7b\n  \x7d\n\n\x7d\n\n"

/-- The shelf is not written but shows the book; once it is gone nothing shows the book. -/
theorem bookFormatted_reformat_ne_self :
    reformat shelfRules {} bookText = .ok bookFormatted ∧
      reformat shelfRules {} bookFormatted = .ok "// Signature format: 3.0\n" := by
  decide +kernel

end Signature
end ApiSurface
