import ApiSurface.Proofs.Standing

/-!
# Wider levels

A wider level only adds to the surface.  At the narrower level a class may be kept out because it is
not wide enough, and at the wider one for want of a show rule; in both cases it hides what is
inside.  So what a container passes down under the wider level is the same, but that it may hide
less.
-/

namespace ApiSurface

namespace Level

/-- The place of a level in the order from narrowest to widest. -/
def breadth : Level → Nat
  | .pub => 0
  | .prot => 1
  | .pack => 2
  | .priv => 3
  | .hidden => 4

theorem admits_iff {level : Level} {access : Access} :
    level.admits access = true ↔ 3 ≤ level.breadth + access.rank := by
  cases level <;> cases access <;> decide

theorem admits_of_breadth_le
    {narrow wide : Level} (h : narrow.breadth ≤ wide.breadth) {access : Access}
    (hadmits : narrow.admits access = true) : wide.admits access = true := by
  rw [admits_iff] at hadmits ⊢
  omega

theorem eq_hidden_of_breadth_le
    {narrow wide : Level} (h : narrow.breadth ≤ wide.breadth) (hnarrow : narrow = .hidden) :
    wide = .hidden := by
  subst hnarrow
  cases wide with
  | hidden => rfl
  | _ => exact absurd h (by decide)

end Level

namespace Surface

/-- One container passes down what another does, but that it may hide less. -/
structure Context.Widens (narrow wide : Context) : Prop where
  removed : wide.removed = narrow.removed
  showing : wide.showing = narrow.showing
  hidden : wide.hidden = true → narrow.hidden = true

variable {rules : SurfaceRules} {wider : Level} {cb : Codebase}

/-! ## One item -/

section

variable {parent parent' : Context} {item : Subject} (h : parent.Widens parent')
include h

theorem shown_widen_iff :
    Shown { rules with level := wider } parent' item ↔ Shown rules parent item := by
  rw [Shown, Shown, h.showing]
  rfl

theorem selected_widen_iff :
    Selected { rules with level := wider } parent' item ↔ Selected rules parent item := by
  rw [Selected, Selected, shown_widen_iff h]
  rfl

variable (hlevel : rules.level.breadth ≤ wider.breadth)
include hlevel

theorem kept_widen (hkept : Kept rules parent item) :
    Kept { rules with level := wider } parent' item := by
  refine ⟨fun hmark => ?_, Level.admits_of_breadth_le hlevel hkept.2⟩
  exact (shown_widen_iff h).mpr (hkept.1 (hmark.imp_right h.hidden))

theorem judge_visible_widen (hvisible : (judge rules parent item).exposure.lifecycle = .visible) :
    (judge { rules with level := wider } parent' item).exposure.lifecycle = .visible := by
  rw [judge_visible_iff] at hvisible ⊢
  rw [h.removed, selected_widen_iff h]
  obtain ⟨hsynthetic, hremoved, hshows⟩ := hvisible
  refine ⟨hsynthetic, hremoved, hshows.imp ?_ ?_⟩
  · exact Level.eq_hidden_of_breadth_le hlevel
  · rintro ⟨hkept, hselected⟩
    exact ⟨kept_widen h hlevel hkept, hselected⟩

theorem judge_appears_widen (happears : (judge rules parent item).Appears) :
    (judge { rules with level := wider } parent' item).Appears := by
  rcases happears with hvisible | hfiltered
  · exact .inl (judge_visible_widen h hlevel hvisible)
  · obtain ⟨hsynthetic, hremoved, -, hkept, hselected⟩ := judge_filtered_iff.mp hfiltered
    have hkept' := kept_widen h hlevel hkept
    rw [Decision.Appears, judge_visible_iff, judge_filtered_iff, h.removed, selected_widen_iff h]
    by_cases hwidest : wider = .hidden
    · exact .inl ⟨hsynthetic, hremoved, .inl hwidest⟩
    · exact .inr ⟨hsynthetic, hremoved, hwidest, hkept', hselected⟩

/-- A wider level changes what an item passes down in nothing but that it may hide less. -/
theorem judge_context_widens :
    (judge rules parent item).context.Widens
      (judge { rules with level := wider } parent' item).context where
  removed := by
    rw [Bool.eq_iff_iff]
    simp only [Decision.context, beq_iff_eq, judge_removed_iff, h.removed]
  showing := by
    simp only [Decision.context, judge_showing, h.showing]
  hidden := by
    simp only [Decision.context, Bool.and_eq_true, beq_iff_eq, Bool.not_eq_true',
      ← Bool.not_eq_true, judge_shown_iff, shown_widen_iff h]
    rintro ⟨hhidden, hshown⟩
    refine ⟨?_, hshown⟩
    -- what is not hidden at the narrower level would not be hidden at the wider one
    cases hlifecycle : (judge rules parent item).exposure.lifecycle with
    | visible =>
      rw [judge_visible_widen h hlevel hlifecycle] at hhidden
      cases hhidden
    | hidden => rfl
    | removed =>
      rw [judge_removed_iff, ← h.removed, ← judge_removed_iff] at hlifecycle
      rw [hlifecycle] at hhidden
      cases hhidden

end

/-! ## Containers -/

theorem packageContext_widens (hlevel : rules.level.breadth ≤ wider.breadth) (name : String) :
    (packageContext rules cb name).Widens
      (packageContext { rules with level := wider } cb name) := by
  rw [packageContext, packageContext]
  cases cb.package? name with
  | none => exact ⟨rfl, rfl, id⟩
  | some p =>
    refine ⟨rfl, rfl, ?_⟩
    simp only [hides, Bool.and_eq_true, bne_iff_ne, ne_eq]
    exact And.imp_left (mt (Level.eq_hidden_of_breadth_le hlevel))

theorem classContext_widens
    (hlevel : rules.level.breadth ≤ wider.breadth) (c : ClassDecl) {outers : List ClassDecl}
    (houters : (chainContext rules cb outers).Widens
      (chainContext { rules with level := wider } cb outers)) :
    (classContext rules cb c outers).Widens
      (classContext { rules with level := wider } cb c outers) where
  removed := by
    simp only [classContext, Context.within, houters.removed,
      (packageContext_widens hlevel c.package).removed]
  showing := houters.showing
  hidden := by
    simp only [classContext, Context.within, Bool.or_eq_true]
    exact Or.imp (packageContext_widens hlevel c.package).hidden houters.hidden

theorem chainContext_widens
    (hlevel : rules.level.breadth ≤ wider.breadth) (cb : Codebase) (chain : List ClassDecl) :
    (chainContext rules cb chain).Widens
      (chainContext { rules with level := wider } cb chain) := by
  induction chain with
  | nil => exact ⟨rfl, rfl, id⟩
  | cons c outers ih =>
    rw [chainContext_cons, chainContext_cons]
    exact judge_context_widens (classContext_widens hlevel c ih) hlevel

theorem hasVisibleMember_widen
    (hlevel : rules.level.breadth ≤ wider.breadth) {c : ClassDecl}
    (h : HasVisibleMember (settleClass rules cb c)) :
    HasVisibleMember (settleClass { rules with level := wider } cb c) := by
  rw [hasVisibleMember_iff] at h ⊢
  obtain ⟨kind, index, m, hm, hvisible⟩ := h
  rw [member?_settleClass] at hm
  obtain ⟨x, hx, rfl⟩ := Option.map_eq_some_iff.mp hm
  have hwide := judge_visible_widen (chainContext_widens hlevel cb _) hlevel hvisible
  exact ⟨kind, index, _, by rw [member?_settleClass, hx, Option.map_some], hwide⟩

/-- Every item on the surface at some level is on the surface at every wider level. -/
theorem lifecycle?_settle_widen
    (cb : Codebase) (rules : SurfaceRules) {wider : Level}
    (hlevel : rules.level.breadth ≤ wider.breadth) {site : Site}
    (hvisible : (cb.settle rules).lifecycle? site = some .visible) :
    (cb.settle { rules with level := wider }).lifecycle? site = some .visible := by
  cases site with
  | ofClass name =>
    obtain ⟨c, hc, hself⟩ := lifecycle?_settle_ofClass.mp hvisible
    refine lifecycle?_settle_ofClass.mpr ⟨c, hc, ?_⟩
    rw [← beq_iff_eq, ← ClassDecl.isVisible, isVisible_settleClass_iff] at hself ⊢
    have hparent := classContext_widens hlevel c (chainContext_widens hlevel cb (cb.enclosing c))
    rcases hself with hself | ⟨hfiltered, hmember⟩
    · exact .inl (judge_visible_widen hparent hlevel hself)
    · -- the members that keep the class at the narrower level keep it at the wider one
      exact (judge_appears_widen hparent hlevel (.inr hfiltered)).imp_right
        fun hfiltered' => ⟨hfiltered', hasVisibleMember_widen hlevel hmember⟩
  | ofMember owner kind index =>
    obtain ⟨c, hc, m, hm, hself⟩ := lifecycle?_settle_ofMember.mp hvisible
    refine lifecycle?_settle_ofMember.mpr ⟨c, hc, m, hm, ?_⟩
    exact judge_visible_widen (chainContext_widens hlevel cb _) hlevel hself

/-- A class without annotations, and a method in it that is shown by one. -/
def porch : Codebase :=
  { packages := ⟨[{ name := "a", classNames := ⟨["a.Door"], by decide⟩ }], by decide⟩
    classes :=
      ⟨[{ package := "a", name := "Door", kind := .ordinary, modifiers := { access := .pub }
          methods := [{ name := "open", owner := "a.Door", modifiers := { access := .pub }
                        returnType := some { name := "void" }
                        annotations := [{ name := "b.Show" }] }] }], by decide⟩ }

/-- Rules that admit public items which are shown by an annotation of their own. -/
def porchRules : SurfaceRules :=
  { level := .pub, showSingleAnnotations := ["b.Show"] }

theorem porch_class_widen :
    (porch.settle porchRules).lifecycle? (.ofClass "a.Door") = some .visible ∧
      (porch.settle { porchRules with level := .pack }).lifecycle? (.ofClass "a.Door") =
        some .visible := by
  have hvisible : (porch.settle porchRules).lifecycle? (.ofClass "a.Door") = some .visible := by
    decide +kernel
  exact ⟨hvisible, lifecycle?_settle_widen porch porchRules (by decide) hvisible⟩

end Surface
end ApiSurface
