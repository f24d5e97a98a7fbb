import ApiSurface.Proofs.Index
import ApiSurface.Surface
import Mathlib.Tactic.SplitIfs
import Mathlib.Tactic.Tauto

/-!
# Decisions about classes

A decision about an item follows from its marks and from what its container passes down: whether it
is removed, hidden, or covered by a show rule.  A decision about a class depends on the class, on
its package and on the decision about the class around it.  What a container hides matters only
where no show rule applies, so an item that appears is decided alike in a container that hides less.
-/

namespace ApiSurface

namespace Surface

/-! ## One item -/

/-- The item is on the surface, or it is kept out only for want of a show rule. -/
def Decision.Appears (d : Decision) : Prop :=
  d.exposure.lifecycle = .visible ∨ d.filtered = true

/-- The item carries an annotation that shows it. -/
def Subject.ShowMarked (rules : SurfaceRules) (item : Subject) : Prop :=
  ∃ a ∈ item.annotations, a.name ∈ rules.showAnnotations ∨ a.name ∈ rules.showSingleAnnotations

/-- The item is tagged as hidden or carries an annotation that hides it. -/
def Subject.HideMarked (rules : SurfaceRules) (item : Subject) : Prop :=
  item.tags.hide = true ∨ ∃ a ∈ item.annotations, a.name ∈ rules.hideAnnotations

instance (rules : SurfaceRules) (item : Subject) : Decidable (item.ShowMarked rules) :=
  inferInstanceAs (Decidable (∃ a ∈ item.annotations, _))

instance (rules : SurfaceRules) (item : Subject) : Decidable (item.HideMarked rules) :=
  inferInstanceAs (Decidable (_ ∨ ∃ a ∈ item.annotations, _))

/-- A show rule applies to the item, or it covers what is inside the container. -/
def Shown (rules : SurfaceRules) (parent : Context) (item : Subject) : Prop :=
  item.ShowMarked rules ∨ parent.showing = true

/-- The item is wide enough, and a show rule applies to it if it is to be hidden. -/
def Kept (rules : SurfaceRules) (parent : Context) (item : Subject) : Prop :=
  (item.HideMarked rules ∨ parent.hidden = true → Shown rules parent item) ∧
    rules.level.admits item.access = true

/-- A show rule applies to the item unless none is asked for. -/
def Selected (rules : SurfaceRules) (parent : Context) (item : Subject) : Prop :=
  rules.hasShowRules = true → rules.showUnannotated = true ∨ Shown rules parent item

open Annotation (hasAny)

theorem hasAny_iff {annotations : List Annotation} {names : List String} :
    hasAny annotations names = true ↔ ∃ a ∈ annotations, a.name ∈ names := by
  simp [hasAny]

section

variable {rules : SurfaceRules} {parent parent' : Context} {item : Subject}

theorem shown_iff :
    Shown rules parent item ↔
      (hasAny item.annotations rules.showAnnotations ||
        hasAny item.annotations rules.showSingleAnnotations ||
        parent.showing) = true := by
  simp only [Bool.or_eq_true, hasAny_iff, Shown, Subject.ShowMarked, and_or_left, exists_or]

theorem kept_iff :
    Kept rules parent item ↔
      ¬ ((item.tags.hide || hasAny item.annotations rules.hideAnnotations ||
          parent.hidden) &&
        !(hasAny item.annotations rules.showAnnotations ||
          hasAny item.annotations rules.showSingleAnnotations ||
          parent.showing)) = true ∧
        ¬ (!rules.level.admits item.access) = true := by
  rw [Kept, shown_iff, Subject.HideMarked, ← hasAny_iff, ← Bool.or_eq_true, ← Bool.or_eq_true,
    Bool.and_eq_true, not_and, Bool.not_eq_true', Bool.not_eq_false, Bool.not_eq_true',
    Bool.not_eq_false]

theorem selected_iff :
    Selected rules parent item ↔
      ¬ (rules.hasShowRules && !rules.showUnannotated &&
        !(hasAny item.annotations rules.showAnnotations ||
          hasAny item.annotations rules.showSingleAnnotations ||
          parent.showing)) = true := by
  rw [Selected, shown_iff, Bool.and_eq_true, Bool.and_eq_true, Bool.not_eq_true', Bool.not_eq_true',
    ← Bool.not_eq_true, ← Bool.not_eq_true]
  tauto

theorem judge_showing :
    (judge rules parent item).showing =
      (hasAny item.annotations rules.showAnnotations || parent.showing) := by
  simp only [judge]
  split_ifs <;> rfl

theorem judge_shown_iff :
    (judge rules parent item).exposure.shown = true ↔ Shown rules parent item := by
  rw [shown_iff]
  simp only [judge]
  split_ifs <;> rfl

theorem judge_synthetic (h : item.synthetic = true) :
    (judge rules parent item).exposure.lifecycle = .hidden := by
  simp only [judge, h, if_true]

theorem judge_removed_iff :
    (judge rules parent item).exposure.lifecycle = .removed ↔
      item.synthetic = false ∧ (item.tags.removed = true ∨ parent.removed = true) := by
  rw [← Bool.or_eq_true, ← Bool.not_eq_true]
  simp only [judge]
  split_ifs <;> simp only [false_iff, true_iff] <;> tauto

theorem judge_visible_iff :
    (judge rules parent item).exposure.lifecycle = .visible ↔
      item.synthetic = false ∧ ¬ (item.tags.removed = true ∨ parent.removed = true) ∧
        (rules.level = .hidden ∨ Kept rules parent item ∧ Selected rules parent item) := by
  rw [kept_iff, selected_iff, ← Bool.or_eq_true, ← Bool.not_eq_true]
  simp only [judge]
  split_ifs <;> simp only [false_iff, true_iff] <;> tauto

theorem judge_filtered_iff :
    (judge rules parent item).filtered = true ↔
      item.synthetic = false ∧ ¬ (item.tags.removed = true ∨ parent.removed = true) ∧
        rules.level ≠ .hidden ∧ Kept rules parent item ∧ ¬ Selected rules parent item := by
  rw [kept_iff, selected_iff, ← Bool.or_eq_true, ← Bool.not_eq_true]
  simp only [judge]
  split_ifs <;> simp only [false_iff, true_iff] <;> tauto

/-- An item that appears is decided alike in a container that hides less. -/
theorem judge_eq_of_appears
    (hremoved : parent'.removed = parent.removed) (hshowing : parent'.showing = parent.showing)
    (hhidden : parent'.hidden = true → parent.hidden = true)
    (happears : (judge rules parent item).Appears) :
    judge rules parent' item = judge rules parent item := by
  obtain ⟨hidden, removed, showing⟩ := parent
  obtain ⟨hidden', removed', showing'⟩ := parent'
  cases hremoved
  cases hshowing
  rw [Decision.Appears] at happears
  simp only [judge] at happears ⊢
  by_cases hsynthetic : item.synthetic = true
  · rw [if_pos hsynthetic, if_pos hsynthetic]
  rw [if_neg hsynthetic] at happears
  rw [if_neg hsynthetic, if_neg hsynthetic]
  by_cases hgone : (item.tags.removed || removed) = true
  · rw [if_pos hgone, if_pos hgone]
  rw [if_neg hgone] at happears
  rw [if_neg hgone, if_neg hgone]
  by_cases hlevel : rules.level = .hidden
  · rw [if_pos hlevel, if_pos hlevel]
  rw [if_neg hlevel] at happears
  rw [if_neg hlevel, if_neg hlevel]
  -- what hides the item in the first container does not, since the item appears
  split at happears
  · rcases happears with happears | happears
    · cases happears
    · cases happears
  · rename_i hmarked
    rw [if_neg hmarked, if_neg]
    intro hmarked'
    apply hmarked
    simp only [Bool.and_eq_true, Bool.or_eq_true] at hmarked' ⊢
    exact ⟨hmarked'.1.imp_right hhidden, hmarked'.2⟩

end

/-! ## Classes -/

variable {rules : SurfaceRules} {cb : Codebase}

/-- What the class around a class passes down. -/
def outerContext (rules : SurfaceRules) (cb : Codebase) (c : ClassDecl) : Context :=
  match cb.around? c with
  | none => {}
  | some e => (decision rules cb e).context

theorem decision_eq (rules : SurfaceRules) (cb : Codebase) (c : ClassDecl) :
    decision rules cb c = judgeClass rules cb (outerContext rules cb c) c := by
  rw [decision, outerContext]
  cases haround : cb.around? c with
  | none =>
    rw [Codebase.enclosing_eq_nil haround]
    rfl
  | some e =>
    rw [Codebase.enclosing_eq_cons haround]
    rfl

/-- Classes that are judged alike and stand inside of each other alike are decided alike. -/
theorem decision_eq_of_judgeClass_eq
    {cb' : Codebase} {f : ClassDecl → ClassDecl}
    (haround : ∀ c, cb'.around? (f c) = (cb.around? c).map f)
    (hjudge : ∀ outer c, judgeClass rules cb' outer (f c) = judgeClass rules cb outer c)
    (c : ClassDecl) : decision rules cb' (f c) = decision rules cb c := by
  induction c using cb.around?_induction with
  | step c ih =>
    have houter : outerContext rules cb' (f c) = outerContext rules cb c := by
      rw [outerContext, outerContext, haround]
      cases he : cb.around? c with
      | none => rfl
      | some e => exact congrArg Decision.context (ih e he)
    rw [decision_eq, decision_eq, houter, hjudge]

theorem chainContext_showing (rules : SurfaceRules) (cb : Codebase) (chain : List ClassDecl) :
    (chainContext rules cb chain).showing =
      chain.any fun o => hasAny o.annotations rules.showAnnotations := by
  induction chain with
  | nil => rfl
  | cons c outers ih =>
    rw [List.any_cons, ← ih]
    exact judge_showing

/-- A show rule covers the inside of a class exactly if the class or one around it has a show
annotation. -/
theorem decision_showing (rules : SurfaceRules) (cb : Codebase) (c : ClassDecl) :
    (decision rules cb c).showing =
      (c :: cb.enclosing c).any fun o => hasAny o.annotations rules.showAnnotations :=
  chainContext_showing rules cb (c :: cb.enclosing c)

/-- Where nothing is tagged as removed, no class is. -/
theorem decision_not_removed
    (hpackages : ∀ p ∈ cb.packages.items, p.tags = {})
    (hclasses : ∀ c ∈ cb.classes.items, c.tags = {})
    {c : ClassDecl} (hc : c ∈ cb.classes.items) :
    (decision rules cb c).exposure.lifecycle ≠ .removed := by
  revert hc
  induction c using cb.around?_induction with
  | step c ih =>
    intro hc
    have hpackage : (packageContext rules cb c.package).removed = false := by
      rw [packageContext]
      split
      · rename_i p hp
        rw [hpackages p (Catalog.mem_of_find? hp)]
      · rfl
    have houter : (outerContext rules cb c).removed = false := by
      rw [outerContext]
      split
      · rfl
      · rename_i e he
        have hne := ih e he (Codebase.mem_classes_of_around? he)
        simpa [Decision.context] using hne
    rw [decision_eq, judgeClass, Ne, judge_removed_iff, hclasses c hc, hpackage, houter]
    rintro ⟨-, h | h⟩
    · cases h
    · cases h

/-- What an untagged package passes down follows from its name. -/
theorem packageContext_eq
    (hindexed : cb.IsIndexed) (hpackages : ∀ p ∈ cb.packages.items, p.tags = {}) {c : ClassDecl}
    (hc : c ∈ cb.classes.items) :
    packageContext rules cb c.package =
      { hidden := rules.level != .hidden && rules.hidesPackage c.package } := by
  obtain ⟨p, hp, hname⟩ := hindexed.packaged c hc
  have hfound : cb.package? c.package = some p := Catalog.find?_eq_some_iff.mpr ⟨hp, hname⟩
  rw [packageContext, hfound]
  simp only [hides, hpackages p hp, hname, Bool.false_or]

/-- Some member of the class is on the surface. -/
def HasVisibleMember (c : ClassDecl) : Prop :=
  (∃ m ∈ c.constructors ++ c.methods, m.exposure.lifecycle = .visible) ∨
    ∃ x ∈ c.fields, x.exposure.lifecycle = .visible

theorem isVisible_settleClass_iff {c : ClassDecl} :
    (settleClass rules cb c).isVisible = true ↔
      (decision rules cb c).exposure.lifecycle = .visible ∨
        ((decision rules cb c).filtered = true ∧ HasVisibleMember (settleClass rules cb c)) := by
  have hmember : HasVisibleMember (settleClass rules cb c) ↔
      ((c.constructors.map (settleMethod rules (decision rules cb c).context) ++
          c.methods.map (settleMethod rules (decision rules cb c).context)).any
            (fun m => m.exposure.lifecycle == .visible) ||
        (c.fields.map (settleField rules (decision rules cb c).context)).any
          fun x => x.exposure.lifecycle == .visible) = true := by
    rw [Bool.or_eq_true, List.any_eq_true, List.any_eq_true]
    simp only [beq_iff_eq]
    rfl
  rw [hmember, ClassDecl.isVisible, beq_iff_eq, settleClass]
  simp only
  split
  · rename_i h
    exact ⟨fun _ => .inr (by simpa only [Bool.and_eq_true] using h), fun _ => rfl⟩
  · rename_i h
    rw [Bool.and_eq_true] at h
    exact ⟨.inl, fun hor => hor.resolve_right h⟩

theorem appears_of_isVisible {c : ClassDecl} (h : (settleClass rules cb c).isVisible = true) :
    (decision rules cb c).Appears :=
  (isVisible_settleClass_iff.mp h).imp_right And.left

theorem class?_settle (name : String) :
    (cb.settle rules).class? name = (cb.class? name).map (settleClass rules cb) :=
  Catalog.find?_map cb.classes (settleClass rules cb) (fun _ => rfl) name

theorem package?_settle (cb : Codebase) (name : String) :
    (cb.settle rules).package? name = (cb.package? name).map (settlePackage rules) :=
  Catalog.find?_map cb.packages (settlePackage rules) (fun _ => rfl) name

theorem mem_classes_settle {c : ClassDecl} :
    c ∈ (cb.settle rules).classes.items ↔ ∃ d ∈ cb.classes.items, settleClass rules cb d = c :=
  List.mem_map

theorem isIndexed_settle (h : cb.IsIndexed) (rules : SurfaceRules) :
    (cb.settle rules).IsIndexed := by
  have hnames : ∀ p, (settlePackage rules p).classNames = p.classNames := fun _ => rfl
  have hpackage : ∀ c, (settleClass rules cb c).package = c.package := fun _ => rfl
  exact (Codebase.isIndexed_map _ _ hnames hpackage).mpr h

end Surface
end ApiSurface
