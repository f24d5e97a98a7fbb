import ApiSurface.Proofs.Standing

/-!
# Hidden items stay hidden

What hides an item stands on the item itself, on a class around it or on its package.  It travels
inwards through any depth of nesting, and below the level that shows everything only a show rule on
the way stops it.
-/

namespace ApiSurface
namespace Surface

variable {rules : SurfaceRules} {cb : Codebase}

/-! ## Marks -/

/-- A package is the other one or lies below it. -/
def LiesWithin (package other : String) : Prop :=
  package = other ∨ ∃ below, package = other ++ "." ++ below

/-- The package is tagged as hidden, or it lies within a package to hide. -/
def PackageHideMarked (rules : SurfaceRules) (p : Package) : Prop :=
  p.tags.hide = true ∨ ∃ other ∈ rules.hidePackages, LiesWithin p.name other

/-- A mark that hides stands on the item, on a class around it or on its package. -/
def Placed.HideMarked (rules : SurfaceRules) (x : Placed) : Prop :=
  x.subject.HideMarked rules ∨ (∃ c ∈ x.around, c.subject.HideMarked rules) ∨
    ∃ p ∈ x.package, PackageHideMarked rules p

/-- An annotation that shows stands on the item or on a class around it. -/
def Placed.ShowMarked (rules : SurfaceRules) (x : Placed) : Prop :=
  x.subject.ShowMarked rules ∨ ∃ c ∈ x.around, c.subject.ShowMarked rules

theorem hidesPackage_iff {package : String} :
    rules.hidesPackage package = true ↔ ∃ other ∈ rules.hidePackages, LiesWithin package other := by
  rw [SurfaceRules.hidesPackage, List.any_eq_true]
  refine exists_congr fun other => and_congr_right fun _ => ?_
  constructor
  · intro h
    split at h
    · rename_i rest hafter
      have hpackage : package = other ++ String.ofList rest := by
        rw [← String.toList_inj, Text.after?_eq_some hafter]
        simp
      rcases rest with _ | ⟨dot, below⟩
      · exact .inl (by simpa using hpackage)
      · have hdot : dot = '.' := by simpa using h
        refine .inr ⟨String.ofList below, ?_⟩
        rw [hpackage, hdot, ← String.toList_inj]
        simp
    · cases h
  · rintro (rfl | ⟨below, rfl⟩)
    · have hafter := Text.after?_append package.toList []
      rw [List.append_nil] at hafter
      rw [hafter]
      rfl
    · have hafter := Text.after?_append other.toList ('.' :: below.toList)
      have hlist : (other ++ "." ++ below).toList = other.toList ++ '.' :: below.toList := by simp
      rw [hlist, hafter]
      rfl

instance (rules : SurfaceRules) (p : Package) : Decidable (PackageHideMarked rules p) :=
  decidable_of_iff (p.tags.hide = true ∨ rules.hidesPackage p.name = true)
    (or_congr_right hidesPackage_iff)

instance (rules : SurfaceRules) (x : Placed) : Decidable (x.HideMarked rules) :=
  inferInstanceAs (Decidable (_ ∨ (∃ c ∈ x.around, _) ∨ ∃ p ∈ x.package, _))

instance (rules : SurfaceRules) (x : Placed) : Decidable (x.ShowMarked rules) :=
  inferInstanceAs (Decidable (_ ∨ ∃ c ∈ x.around, _))

theorem hides_iff (hlevel : rules.level ≠ .hidden) {p : Package} :
    hides rules p = true ↔ PackageHideMarked rules p := by
  simp [hides, PackageHideMarked, hidesPackage_iff, hlevel]

/-- What is inside cannot appear unless a show rule applies to it. -/
def Context.Conceals (x : Context) : Prop :=
  x.hidden = true ∨ x.removed = true

theorem packageContext_conceals
    (hlevel : rules.level ≠ .hidden) {name : String} {p : Package} (hp : cb.package? name = some p)
    (hmark : PackageHideMarked rules p) : (packageContext rules cb name).Conceals := by
  rw [packageContext, hp]
  exact .inl ((hides_iff hlevel).mpr hmark)

theorem within_conceals {package outer : Context} :
    (package.within outer).Conceals ↔ package.Conceals ∨ outer.Conceals := by
  simp only [Context.Conceals, Context.within, Bool.or_eq_true]
  tauto

section

variable {parent : Context} {item : Subject}

theorem judge_not_appears
    (hlevel : rules.level ≠ .hidden) (hshown : ¬ Shown rules parent item)
    (hmark : item.HideMarked rules ∨ parent.Conceals) :
    ¬ (judge rules parent item).Appears := by
  have hlost : item.tags.removed = true ∨ parent.removed = true ∨ ¬ Kept rules parent item := by
    rcases hmark with h | h | h
    · exact .inr (.inr fun hkept => hshown (hkept.1 (.inl h)))
    · exact .inr (.inr fun hkept => hshown (hkept.1 (.inr h)))
    · exact .inr (.inl h)
  rw [Decision.Appears, judge_visible_iff, judge_filtered_iff]
  tauto

theorem judge_conceals
    (hlevel : rules.level ≠ .hidden) (hshown : ¬ Shown rules parent item)
    (hmark : item.HideMarked rules ∨ parent.Conceals) :
    (judge rules parent item).context.Conceals := by
  have happears := judge_not_appears hlevel hshown hmark
  have hunshown : (judge rules parent item).exposure.shown = false := by
    rwa [Bool.eq_false_iff, ne_eq, judge_shown_iff]
  rw [Context.Conceals, Decision.context]
  cases hlifecycle : (judge rules parent item).exposure.lifecycle with
  | visible => exact absurd (.inl hlifecycle) happears
  | hidden => exact .inl (by rw [hunshown]; rfl)
  | removed => exact .inr rfl

end

theorem chainContext_not_showing
    {chain : List ClassDecl} (h : ∀ c ∈ chain, ¬ c.subject.ShowMarked rules) :
    (chainContext rules cb chain).showing = false := by
  rw [chainContext_showing, List.any_eq_false]
  intro c hc hshow
  obtain ⟨a, ha, hname⟩ := hasAny_iff.mp hshow
  exact h c hc ⟨a, ha, .inl hname⟩

/-- No show rule applies to an item if neither it nor a class around it carries an annotation that
shows. -/
theorem not_shown
    {parent : Context} {item : Subject} {chain : List ClassDecl}
    (hparent : parent.showing = (chainContext rules cb chain).showing)
    (hitem : ¬ item.ShowMarked rules) (hchain : ∀ c ∈ chain, ¬ c.subject.ShowMarked rules) :
    ¬ Shown rules parent item := by
  rw [Shown, hparent, chainContext_not_showing hchain]
  simpa using hitem

/-- Where no show rule applies to a chain of classes, it conceals what is inside if one of them is
marked to be hidden or its package conceals it. -/
theorem chainContext_conceals
    (hlevel : rules.level ≠ .hidden) {chain : List ClassDecl}
    (hshow : ∀ c ∈ chain, ¬ c.subject.ShowMarked rules)
    (hmark : ∃ c ∈ chain,
      c.subject.HideMarked rules ∨ (packageContext rules cb c.package).Conceals) :
    (chainContext rules cb chain).Conceals := by
  -- from the outermost class inwards: once something is concealed, each class passes it on
  induction chain with
  | nil =>
    obtain ⟨c, hc, -⟩ := hmark
    cases hc
  | cons c outers ih =>
    obtain ⟨hself, houters⟩ := List.forall_mem_cons.mp hshow
    rw [chainContext_cons]
    refine judge_conceals hlevel (not_shown rfl hself houters) ?_
    rw [classContext, within_conceals]
    obtain ⟨o, ho, hmark⟩ := hmark
    rcases List.mem_cons.mp ho with rfl | ho
    · exact hmark.imp_right .inl
    · exact .inr (.inr (ih houters ⟨o, ho, hmark⟩))

/-- At a level below `hidden`, an item is not on the surface if it, its package or a class around it
is marked to be hidden, unless it or a class around it is marked to be shown. -/
theorem lifecycle?_settle_of_hideMarked
    (cb : Codebase) {rules : SurfaceRules} (hlevel : rules.level ≠ .hidden) {site : Site}
    {x : Placed} (hx : cb.placed? site = some x)
    (hhide : x.HideMarked rules) (hshow : ¬ x.ShowMarked rules) :
    (cb.settle rules).lifecycle? site = some .hidden ∨
      (cb.settle rules).lifecycle? site = some .removed := by
  obtain ⟨hself, haround⟩ := not_or.mp hshow
  simp only [not_exists, not_and] at haround
  suffices h : ∃ l, (cb.settle rules).lifecycle? site = some l ∧ l ≠ .visible by
    obtain ⟨l, hl, hvisible⟩ := h
    rw [hl]
    cases l with
    | visible => exact absurd rfl hvisible
    | hidden => exact .inl rfl
    | removed => exact .inr rfl
  cases site with
  | ofClass name =>
    obtain ⟨c, hc, rfl⟩ := Codebase.placed?_ofClass.mp hx
    refine ⟨_, lifecycle?_settle_ofClass.mpr ⟨c, hc, rfl⟩, fun hvisible => ?_⟩
    -- the chain around the class conceals it, or its package does, or it is marked itself
    have hshown : ¬ Shown rules (classContext rules cb c (cb.enclosing c)) c.subject :=
      not_shown rfl hself haround
    refine judge_not_appears hlevel hshown ?_ (appears_of_isVisible (beq_iff_eq.mpr hvisible))
    rw [classContext, within_conceals]
    rcases hhide with hmark | ⟨o, ho, hmark⟩ | ⟨p, hp, hmark⟩
    · exact .inl hmark
    · exact .inr (.inr (chainContext_conceals hlevel haround ⟨o, ho, .inl hmark⟩))
    · exact .inr (.inl (packageContext_conceals hlevel hp hmark))
  | ofMember owner kind index =>
    obtain ⟨c, hc, m, hm, rfl⟩ := Codebase.placed?_ofMember.mp hx
    refine ⟨_, lifecycle?_settle_ofMember.mpr ⟨c, hc, m, hm, rfl⟩, fun hvisible => ?_⟩
    -- the class of the member stands in its package, so the chain passes the package on
    refine judge_not_appears hlevel (not_shown rfl hself haround) ?_ (.inl hvisible)
    rcases hhide with hmark | ⟨o, ho, hmark⟩ | ⟨p, hp, hmark⟩
    · exact .inl hmark
    · exact .inr (chainContext_conceals hlevel haround ⟨o, ho, .inl hmark⟩)
    · have hpackage := packageContext_conceals hlevel hp hmark
      exact .inr (chainContext_conceals hlevel haround ⟨c, List.mem_cons_self, .inr hpackage⟩)

/-- A class that is tagged as hidden, and two levels deeper a class with a method. -/
def attic : Codebase :=
  { packages :=
      ⟨[{ name := "a", classNames := ⟨["a.Box", "a.Box.Lid", "a.Box.Lid.Pin"], by decide⟩ }],
        by decide⟩
    classes :=
      ⟨[{ package := "a", name := "Box", kind := .ordinary, modifiers := { access := .pub }
          tags := { hide := true } },
        { package := "a", name := "Box.Lid", kind := .ordinary, modifiers := { access := .pub } },
        { package := "a", name := "Box.Lid.Pin", kind := .ordinary, modifiers := { access := .pub }
          methods := [{ name := "turn", owner := "a.Box.Lid.Pin", modifiers := { access := .pub }
                        returnType := some { name := "void" } }] }], by decide⟩ }

/-- Rules that admit every access and ask for no show annotation. -/
def atticRules : SurfaceRules :=
  { level := .priv, showAnnotations := ["b.Show"], showUnannotated := true }

theorem attic_method_not_visible :
    (∃ x ∈ attic.placed? (.ofMember "a.Box.Lid.Pin" .method 0),
      x.HideMarked atticRules ∧ ¬ x.ShowMarked atticRules) ∧
      ((attic.settle atticRules).lifecycle? (.ofMember "a.Box.Lid.Pin" .method 0) = some .hidden ∨
        (attic.settle atticRules).lifecycle? (.ofMember "a.Box.Lid.Pin" .method 0) =
          some .removed) := by
  have hmarks : ∃ x ∈ attic.placed? (.ofMember "a.Box.Lid.Pin" .method 0),
      x.HideMarked atticRules ∧ ¬ x.ShowMarked atticRules := by decide +kernel
  obtain ⟨x, hx, hhide, hshow⟩ := id hmarks
  exact ⟨hmarks, lifecycle?_settle_of_hideMarked attic (by decide) hx hhide hshow⟩

end Surface
end ApiSurface
