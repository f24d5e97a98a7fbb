import ApiSurface.Proofs.Merging
import ApiSurface.Proofs.RoundTrip.Fresh
import ApiSurface.Signature.Load

/-!
# Merging in another order

A codebase that was read tells nothing of its packages but their names and their classes.  So
merging such codebases one after the other gives their union, whichever of them comes first: all
their classes, and all packages that one of them has.  Merging fails exactly if a class is declared
in two of them; only where it stops depends on the order.
-/

namespace ApiSurface
namespace Codebase

variable {cb other d e : Codebase} {cbs others : List Codebase}

/-- Merge codebases one after the other into an empty one, or stop at the first class whose name is
taken. -/
def mergedAll (cbs : List Codebase) : Except Fault Codebase :=
  cbs.foldlM merged ∅

/-- There is a package of a name, or a class that belongs to it. -/
def Mentions (cb : Codebase) (name : String) : Prop :=
  (cb.package? name).isSome ∨ ∃ c ∈ cb.classes.items, c.package = name

theorem IsIndexed.mentions_iff (h : cb.IsIndexed) {name : String} :
    cb.Mentions name ↔ (cb.package? name).isSome := by
  refine or_iff_left_of_imp ?_
  rintro ⟨c, hc, rfl⟩
  obtain ⟨p, hp, hname⟩ := h.packaged c hc
  rw [package?, Catalog.find?_eq_some_iff.mpr ⟨hp, hname⟩]
  rfl

/-- Packages tell nothing but their names and their classes. -/
def IsPlain (cb : Codebase) : Prop :=
  ∀ p ∈ cb.packages.items, p.unlisted = { name := p.name }

theorem IsFresh.isPlain (h : cb.IsFresh) : cb.IsPlain := by
  intro p hp
  rw [h.packages p hp]
  rfl

/-- The codebase has the classes and the packages of all codebases of a list, and no others. -/
structure IsUnion (cbs : List Codebase) (d : Codebase) : Prop where
  indexed : d.IsIndexed
  plain : d.IsPlain
  classes : ∀ c, c ∈ d.classes.items ↔ ∃ cb ∈ cbs, c ∈ cb.classes.items
  packages : ∀ name, (d.package? name).isSome ↔ ∃ cb ∈ cbs, cb.Mentions name

theorem isUnion_singleton (hindexed : cb.IsIndexed) (hplain : cb.IsPlain) : IsUnion [cb] cb :=
  ⟨hindexed, hplain, by simp, fun name => by simp [hindexed.mentions_iff]⟩

/-- There is one union, whatever the order of the codebases is. -/
theorem IsUnion.eq
    (h : IsUnion cbs d) (h' : IsUnion others e) (hmem : ∀ cb, cb ∈ cbs ↔ cb ∈ others) : d = e := by
  have hunlisted : ∀ {d : Codebase}, d.IsPlain → ∀ name,
      (d.package? name).map Package.unlisted =
        if (d.package? name).isSome then some { name } else none := by
    intro d hplain name
    cases hp : d.package? name with
    | none => rfl
    | some p =>
      obtain ⟨hmem, rfl⟩ := Catalog.find?_eq_some_iff.mp hp
      exact congrArg some (hplain p hmem)
  refine h.indexed.eq_of_unlisted_eq h'.indexed (Catalog.eq_of_mem_iff fun c => ?_) fun name => ?_
  · simp only [h.classes, h'.classes, hmem]
  · rw [hunlisted h.plain, hunlisted h'.plain]
    refine if_congr ?_ rfl rfl
    simp only [h.packages, h'.packages, hmem]

/-! ## One merge -/

theorem IsPlain.unlisted_filled
    (h : cb.IsPlain) {p : Package} (hp : p.unlisted = { name := p.name }) :
    (cb.filled p).unlisted = { name := p.name } := by
  have hdocumentation : p.documentation = none := (congrArg Package.documentation hp :)
  rw [filled, packageOrNew, hdocumentation]
  cases hq : cb.package? p.name with
  | none => rfl
  | some q =>
    obtain ⟨hmem, hname⟩ := Catalog.find?_eq_some_iff.mp hq
    have hplain := h q hmem
    rw [hname] at hplain
    rw [Option.getD_some, Option.or_none]
    exact hplain

theorem IsJoined.isPlain
    {added : List ClassDecl} (h : IsJoined cb other added d) (hcb : cb.IsPlain)
    (hother : other.IsPlain) : d.IsPlain := by
  intro p hp
  have hfound : d.package? p.name = some p := Catalog.find?_eq_some_iff.mpr ⟨hp, rfl⟩
  have hunlisted := h.packages p.name
  rw [hfound, Option.map_some] at hunlisted
  cases hq : other.package? p.name with
  | some q =>
    obtain ⟨hmem, hname⟩ := Catalog.find?_eq_some_iff.mp hq
    rw [hq, Option.map_some, Option.some_or, Option.map_some, Option.some_or,
      hcb.unlisted_filled (hother q hmem), hname] at hunlisted
    exact Option.some.inj hunlisted
  | none =>
    rw [hq, Option.map_none, Option.none_or] at hunlisted
    cases hq : cb.package? p.name with
    | some q =>
      obtain ⟨hmem, hname⟩ := Catalog.find?_eq_some_iff.mp hq
      rw [hq, Option.map_some, Option.some_or, hcb q hmem, hname] at hunlisted
      exact Option.some.inj hunlisted
    | none =>
      rw [hq, Option.map_none, Option.none_or] at hunlisted
      split at hunlisted
      · exact Option.some.inj hunlisted
      · cases hunlisted

theorem IsJoined.mentions_iff
    (h : IsJoined cb other other.classes.items d) (hindexed : d.IsIndexed) {name : String} :
    d.Mentions name ↔ cb.Mentions name ∨ other.Mentions name := by
  have hsome : (d.package? name).isSome ↔ ((other.package? name).isSome ∨
      (cb.package? name).isSome) ∨ ∃ c ∈ other.classes.items, c.package = name := by
    have hunlisted := congrArg Option.isSome (h.packages name)
    rw [Option.isSome_map, Option.isSome_or, Option.isSome_map, Option.isSome_or,
      Option.isSome_map] at hunlisted
    rw [hunlisted, Bool.or_eq_true, Bool.or_eq_true]
    refine or_congr_right ?_
    split
    · rename_i hclass
      exact ⟨fun _ => hclass, fun _ => rfl⟩
    · rename_i hclass
      exact ⟨nofun, fun h => absurd h hclass⟩
  constructor
  · intro hd
    rcases hsome.mp (hindexed.mentions_iff.mp hd) with (hother | hcb) | hclass
    · exact .inr (.inl hother)
    · exact .inl (.inl hcb)
    · exact .inr (.inr hclass)
  · rintro ((hcb | ⟨c, hc, hname⟩) | hother | hclass)
    · exact .inl (hsome.mpr (.inl (.inr hcb)))
    · exact .inr ⟨c, (h.classes c).mpr (.inr hc), hname⟩
    · exact .inl (hsome.mpr (.inl (.inl hother)))
    · exact .inl (hsome.mpr (.inr hclass))

/-- A codebase that two were merged into stands for both of them. -/
theorem IsUnion.of_joined
    (h : IsUnion (e :: cbs) d) (hjoined : IsJoined cb other other.classes.items e)
    (hindexed : e.IsIndexed) : IsUnion (cb :: other :: cbs) d := by
  refine ⟨h.indexed, h.plain, fun c => ?_, fun name => ?_⟩
  · rw [h.classes]
    simp only [List.exists_mem_cons_iff, hjoined.classes]
    tauto
  · rw [h.packages]
    simp only [List.exists_mem_cons_iff, hjoined.mentions_iff hindexed]
    tauto

/-- Whether a class is declared can be asked of two codebases or of what they were merged into. -/
theorem IsJoined.countP_eq
    (h : IsJoined cb other other.classes.items d)
    (hfree : ∀ c ∈ other.classes.items, cb.class? c.qualifiedName = none) (name : String) :
    (d :: cbs).countP (fun x => (x.class? name).isSome) =
      (cb :: other :: cbs).countP fun x => (x.class? name).isSome := by
  have hdeclared : (d.class? name).isSome ↔
      (cb.class? name).isSome ∨ (other.class? name).isSome := by
    simp only [class?_isSome_iff, h.classes]
    constructor
    · rintro ⟨c, hc | hc, hname⟩
      · exact .inr ⟨c, hc, hname⟩
      · exact .inl ⟨c, hc, hname⟩
    · rintro (⟨c, hc, hname⟩ | ⟨c, hc, hname⟩)
      · exact ⟨c, .inr hc, hname⟩
      · exact ⟨c, .inl hc, hname⟩
  have hone : ¬((cb.class? name).isSome ∧ (other.class? name).isSome) := by
    rintro ⟨hcb, hother⟩
    obtain ⟨c, hc, rfl⟩ := class?_isSome_iff.mp hother
    rw [hfree c hc] at hcb
    cases hcb
  simp only [List.countP_cons, hdeclared]
  by_cases hcb : (cb.class? name).isSome
  · have hother : ¬(other.class? name).isSome := fun hother => hone ⟨hcb, hother⟩
    simp [hcb, hother]
  · simp [hcb]

/-! ## All merges -/

/-- Merging gives the union if each class is declared once, and fails otherwise.  The induction is
on the codebases that are left; those merged so far are counted as one. -/
theorem foldlM_merged_cases
    (hindexed : cb.IsIndexed) (hplain : cb.IsPlain) (hcbs : ∀ x ∈ cbs, x.IsPlain) :
    ((∀ name, ((cb :: cbs).countP fun x => (x.class? name).isSome) ≤ 1) ∧
      ∃ d, cbs.foldlM merged cb = .ok d ∧ IsUnion (cb :: cbs) d) ∨
    ((∃ name, 2 ≤ (cb :: cbs).countP fun x => (x.class? name).isSome) ∧
      ∃ container signature,
        cbs.foldlM merged cb = .error (.duplicate container signature)) := by
  induction cbs generalizing cb with
  | nil =>
    refine .inl ⟨fun name => ?_, cb, rfl, isUnion_singleton hindexed hplain⟩
    exact List.countP_le_length
  | cons other cbs ih =>
    obtain ⟨hother, hrest⟩ := List.forall_mem_cons.mp hcbs
    rw [List.foldlM_cons, merged]
    rcases merge_cases cb other with
      ⟨hfree, e, he, hjoined⟩ | ⟨_, c, _, hclasses, -, htaken, e, he, -⟩
    · have heindexed : e.IsIndexed := by
        have hmerged := hindexed.merge other
        rwa [he] at hmerged
      simp only [he, ← hjoined.countP_eq hfree]
      refine (ih heindexed (hjoined.isPlain hplain hother) hrest).imp ?_ id
      rintro ⟨hcount, d, hd, hunion⟩
      exact ⟨hcount, d, hd, hunion.of_joined hjoined heindexed⟩
    · simp only [he]
      refine .inr ⟨⟨c.qualifiedName, ?_⟩, _, _, rfl⟩
      have hdeclared : (other.class? c.qualifiedName).isSome :=
        class?_isSome_iff.mpr ⟨c, by simp [hclasses], rfl⟩
      simp [htaken, hdeclared]

theorem IsUnion.of_empty (h : IsUnion (∅ :: cbs) d) : IsUnion cbs d := by
  have hclass : ∀ c, c ∉ (∅ : Codebase).classes.items := fun _ => List.not_mem_nil
  have hpackage : ∀ name, ¬(∅ : Codebase).Mentions name := by
    rintro name (hp | ⟨c, hc, -⟩)
    · cases hp
    · exact hclass c hc
  refine ⟨h.indexed, h.plain, fun c => ?_, fun name => ?_⟩
  · rw [h.classes, List.exists_mem_cons_iff]
    exact or_iff_right (hclass c)
  · rw [h.packages, List.exists_mem_cons_iff]
    exact or_iff_right (hpackage name)

theorem mergedAll_cases (hplain : ∀ cb ∈ cbs, cb.IsPlain) :
    ((∀ name, (cbs.countP fun cb => (cb.class? name).isSome) ≤ 1) ∧
      ∃ d, mergedAll cbs = .ok d ∧ IsUnion cbs d) ∨
    ((∃ name, 2 ≤ cbs.countP fun cb => (cb.class? name).isSome) ∧
      ∃ container signature, mergedAll cbs = .error (.duplicate container signature)) := by
  have hempty : IsPlain ∅ := fun p hp => absurd hp List.not_mem_nil
  have hcount : ∀ name, ((∅ :: cbs).countP fun cb : Codebase => (cb.class? name).isSome) =
      cbs.countP fun cb => (cb.class? name).isSome := fun _ => rfl
  have hcases := foldlM_merged_cases isIndexed_empty hempty hplain
  simp only [hcount] at hcases
  refine hcases.imp ?_ id
  rintro ⟨hone, d, hd, hunion⟩
  exact ⟨hone, d, hd, hunion.of_empty⟩

/-- Merging codebases that were read gives one outcome in every order: their union, unless a class
is declared in two of them, and then a fault that says so. -/
theorem mergedAll_perm
    (hread : ∀ cb ∈ cbs, ∃ options text, Signature.read options text = .ok cb)
    (hperm : cbs.Perm others) :
    ((∀ name, (cbs.countP fun cb => (cb.class? name).isSome) ≤ 1) ∧
      ∃ d, mergedAll cbs = .ok d ∧ mergedAll others = .ok d ∧ IsUnion cbs d) ∨
    ((∃ name, 2 ≤ cbs.countP fun cb => (cb.class? name).isSome) ∧
      (∃ container signature, mergedAll cbs = .error (.duplicate container signature)) ∧
      ∃ container signature, mergedAll others = .error (.duplicate container signature)) := by
  have hplain : ∀ cb ∈ cbs, cb.IsPlain := by
    intro cb hcb
    obtain ⟨options, text, hcb⟩ := hread cb hcb
    exact (Signature.isFresh_of_read hcb).isPlain
  have hothers := mergedAll_cases fun cb hcb => hplain cb (hperm.mem_iff.mpr hcb)
  simp only [← hperm.countP_eq] at hothers
  rcases mergedAll_cases hplain with ⟨hone, d, hd, hunion⟩ | ⟨⟨name, htwo⟩, hfault⟩
  · rcases hothers with ⟨-, e, he, hunion'⟩ | ⟨⟨name, htwo⟩, -⟩
    · obtain rfl : d = e := hunion.eq hunion' fun _ => hperm.mem_iff
      exact .inl ⟨hone, d, hd, he, hunion⟩
    · have hle := hone name
      omega
  · rcases hothers with ⟨hone, -⟩ | ⟨-, hfault'⟩
    · have hle := hone name
      omega
    · exact .inr ⟨⟨name, htwo⟩, hfault, hfault'⟩

def drawerText : String :=
  "package a \x7b public class Drawer \x7b \x7d \x7d"

/-- A text with another class of that package, and with a package without classes. -/
def caseText : String :=
  "package b \x7b \x7d package a \x7b public class Case \x7b \x7d \x7d"

/-- A codebase with another class of that package, and with a package without classes. -/
def caseOnly : Codebase :=
  { packages :=
      ⟨[{ name := "a", classNames := ⟨["a.Case"], by decide⟩ }, { name := "b" }], by decide⟩
    classes :=
      ⟨[{ ClassDecl.declare "a" "Case" .ordinary with modifiers := { access := .pub } }],
        List.pairwise_singleton _ _⟩ }

/-- The drawer and the other class, whichever comes first. -/
theorem mergedAll_drawer_case :
    Signature.read {} drawerText = .ok (drawerOnly {} none) ∧
      Signature.read {} caseText = .ok caseOnly ∧
      ∃ d, mergedAll [drawerOnly {} none, caseOnly] = .ok d ∧
        mergedAll [caseOnly, drawerOnly {} none] = .ok d := by
  have hdrawer : Signature.read {} drawerText = .ok (drawerOnly {} none) := by decide +kernel
  have hcase : Signature.read {} caseText = .ok caseOnly := by decide +kernel
  have hread : ∀ cb ∈ [drawerOnly {} none, caseOnly],
      ∃ options text, Signature.read options text = .ok cb := by
    simp only [List.forall_mem_cons]
    exact ⟨⟨{}, drawerText, hdrawer⟩, ⟨{}, caseText, hcase⟩, nofun⟩
  refine ⟨hdrawer, hcase, ?_⟩
  rcases mergedAll_perm hread (.swap _ _ _) with ⟨-, d, hd, hd', -⟩ | ⟨-, ⟨_, _, hfault⟩, -⟩
  · exact ⟨d, hd, hd'⟩
  · have hmerged : (mergedAll [drawerOnly {} none, caseOnly]).isOk = true := by decide +kernel
    rw [hfault] at hmerged
    cases hmerged

end Codebase
end ApiSurface
