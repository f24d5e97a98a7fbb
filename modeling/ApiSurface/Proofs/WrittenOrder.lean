import ApiSurface.Proofs.Reordering
import ApiSurface.Proofs.RoundTrip.ShownText
import Mathlib.Data.String.Basic

/-!
# Texts in which the order of declaration does not show

Members are sorted before they are written.  The order is total on members that are told apart by
name and parameter types, so such members are written alike however they were declared.  Packages
and classes are listed by name, and packages without a class are not written, so it does not matter
in which order packages and classes were added, nor which packages were added on their own.
-/

namespace ApiSurface

/-! ## Sorting members -/

/-- The constructors of the class are told apart by name and written parameter types, and so are its
methods; its fields are told apart by name. -/
structure ClassDecl.HasDistinctMembers (c : ClassDecl) : Prop where
  constructors : (c.constructors.map fun m => (m.name, m.parameterText)).Nodup
  methods : (c.methods.map fun m => (m.name, m.parameterText)).Nodup
  fields : (c.fields.map Field.name).Nodup

namespace MemberOrder

/-- Items of which no two compare as equal are sorted alike from any order. -/
theorem mergeSort_eq_of_perm
    {α : Type} {cmp : α → α → Ordering} [Std.TransCmp cmp] {xs ys : List α} (h : xs.Perm ys)
    (hdistinct : ∀ a ∈ xs, ∀ b ∈ xs, cmp a b = .eq → a = b) :
    (xs.mergeSort fun a b => (cmp a b).isLE) = ys.mergeSort fun a b => (cmp a b).isLE := by
  have hswap : ∀ a b : α, cmp b a = (cmp a b).swap := fun a b => Std.OrientedCmp.eq_swap
  have htotal : ∀ a b : α, ((cmp a b).isLE || (cmp b a).isLE) = true := by
    intro a b
    rw [hswap a b]
    cases cmp a b <;> rfl
  have hsorted : ∀ zs : List α, (zs.mergeSort fun a b => (cmp a b).isLE).Pairwise fun a b =>
      (cmp a b).isLE = true :=
    fun zs => List.pairwise_mergeSort (fun _ _ _ => Std.TransCmp.isLE_trans) htotal zs
  have hperm := (xs.mergeSort_perm fun a b => (cmp a b).isLE).trans
    (h.trans (ys.mergeSort_perm fun a b => (cmp a b).isLE).symm)
  refine hperm.eq_of_pairwise ?_ (hsorted xs) (hsorted ys)
  intro a b ha hb hab hba
  refine hdistinct a (List.mem_mergeSort.mp ha) b (h.mem_iff.mpr (List.mem_mergeSort.mp hb)) ?_
  rw [hswap a b] at hba
  revert hab hba
  cases cmp a b <;> decide

variable (order : MemberOrder)

theorem sortMethods_eq_of_perm
    {ms ms' : List Method} (h : ms.Perm ms')
    (hdistinct : (ms.map fun m => (m.name, m.parameterText)).Nodup) :
    order.sortMethods ms = order.sortMethods ms' := by
  refine mergeSort_eq_of_perm h fun a ha b hb heq => ?_
  rw [compareMethods, Ordering.then_eq_eq, Ordering.then_eq_eq, compare_eq_iff_eq,
    compare_eq_iff_eq] at heq
  exact List.inj_on_of_nodup_map hdistinct ha hb (Prod.ext heq.1.2 heq.2)

theorem sortFields_eq_of_perm
    {xs xs' : List Field} (h : xs.Perm xs') (hdistinct : (xs.map Field.name).Nodup) :
    order.sortFields xs = order.sortFields xs' := by
  refine mergeSort_eq_of_perm h fun a ha b hb heq => ?_
  rw [compareFields, Ordering.then_eq_eq, compare_eq_iff_eq] at heq
  exact List.inj_on_of_nodup_map hdistinct ha hb heq.2

end MemberOrder

/-! ## Texts -/

namespace Signature

namespace View

theorem showsMember_of_reorders (view : View) {c d : ClassDecl} (h : c.Reorders d) :
    view.showsMember d = view.showsMember c := by
  obtain ⟨hconstructors, hmethods, hfields⟩ := h
  simp only [showsMember, hconstructors.any_eq, hmethods.any_eq, hfields.any_eq]

theorem showsClass_of_reorders (view : View) {c d : ClassDecl} (h : c.Reorders d) :
    view.showsClass d = view.showsClass c := by
  have hmember := View.removed.showsMember_of_reorders h
  have hvisible := h.isVisible
  cases view with
  | live => exact hvisible
  | removed =>
    rw [showsClass, showsClass, hmember, hvisible]
    cases h
    rfl

end View

namespace WriteSettings

variable (s : WriteSettings)

/-- A class is written alike whatever the order of its members is. -/
theorem classText_of_reorders
    {c d : ClassDecl} (h : c.Reorders d) (hdistinct : c.HasDistinctMembers) :
    s.classText d = s.classText c := by
  have hmethodText : s.methodText d = s.methodText c := by
    cases h
    rfl
  have hmembers : s.membersText d = s.membersText c := by
    obtain ⟨hconstructors, hmethods, hfields⟩ := h
    simp only [membersText, hmethodText,
      s.order.sortMethods_eq_of_perm hconstructors hdistinct.constructors,
      s.order.sortMethods_eq_of_perm hmethods hdistinct.methods,
      s.order.sortFields_eq_of_perm hfields hdistinct.fields]
  refine classText_congr ?_ ?_ ?_ ?_ ?_ ?_ ?_ hmembers
  all_goals
    cases h
    rfl

/-- The section of a package is determined by its name and the texts of its classes. -/
theorem sectionText_congr
    (package : String) {cs ds : List ClassDecl}
    (h : ds.map s.classText = cs.map s.classText) :
    s.sectionText package ds = s.sectionText package cs := by
  cases cs with
  | nil =>
    rw [List.map_nil, List.map_eq_nil_iff] at h
    rw [h]
  | cons c cs =>
    cases ds with
    | nil => cases h
    | cons d ds =>
      rw [sectionText, sectionText, h]
      · exact List.cons_ne_nil c cs
      · exact List.cons_ne_nil d ds

/-- A package is written alike if its classes are the same but for the order of their members. -/
theorem packageText_of_reorders
    {cb cb' : Codebase} (h : cb.Reorders cb')
    (hdistinct : ∀ c ∈ cb.classes.items, c.HasDistinctMembers) (p : Package) :
    s.packageText cb' p = s.packageText cb p := by
  have hdistinct : ∀ c ∈ cb.classesIn p, c.HasDistinctMembers := by
    intro c hc
    exact hdistinct c (Codebase.class?_eq_some_iff.mp (Codebase.mem_classesIn_iff.mp hc).2).1
  have hsection : ∀ cb : Codebase, s.packageText cb p =
      s.sectionText p.name ((cb.classesIn p).filter s.view.showsClass) :=
    fun cb => packageText.eq_def s cb p
  rw [hsection, hsection]
  apply sectionText_congr
  have hreorders := h.classesIn p
  generalize cb.classesIn p = cs, cb'.classesIn p = ds at hreorders hdistinct
  induction hreorders with
  | nil => rfl
  | @cons c d cs ds hcd _ ih =>
    obtain ⟨hc, hcs⟩ := List.forall_mem_cons.mp hdistinct
    have hshown := s.view.showsClass_of_reorders hcd
    by_cases hview : s.view.showsClass c = true
    · rw [List.filter_cons_of_pos hview, List.filter_cons_of_pos (hshown.trans hview),
        List.map_cons, List.map_cons, ih hcs, s.classText_of_reorders hcd hc]
    · rw [List.filter_cons_of_neg hview, List.filter_cons_of_neg (by rwa [hshown]), ih hcs]

theorem codebaseText_of_reorders
    {cb cb' : Codebase} (h : cb.Reorders cb')
    (hdistinct : ∀ c ∈ cb.classes.items, c.HasDistinctMembers) :
    s.codebaseText cb' = s.codebaseText cb := by
  have hpackages : s.packageText cb' = s.packageText cb :=
    funext (s.packageText_of_reorders h hdistinct)
  rw [codebaseText, codebaseText, h.packages, hpackages]

end WriteSettings

end Signature

/-! ## Adding packages and classes -/

namespace Codebase

/-- A step in building a codebase: something that is added to it. -/
inductive BuildStep where
  | package (name : String)
  | declaration (c : ClassDecl)

namespace BuildStep

def class? : BuildStep → Option ClassDecl
  | package _ => none
  | declaration c => some c

end BuildStep

def add (cb : Codebase) : BuildStep → Except Fault Codebase
  | .package name => .ok (cb.addPackage name)
  | .declaration c => cb.addClass c

/-- The codebase that is built by steps, one after the other. -/
def build (steps : List BuildStep) : Except Fault Codebase :=
  steps.foldlM add ∅

/-- Steps that add classes under distinct and free names build a codebase with the classes that were
there and those that are added. -/
theorem foldlM_add
    {cb : Codebase} (hindexed : cb.IsIndexed) {steps : List BuildStep}
    (hdistinct : ((steps.filterMap BuildStep.class?).map ClassDecl.qualifiedName).Nodup)
    (hfree : ∀ c ∈ steps.filterMap BuildStep.class?, cb.class? c.qualifiedName = none) :
    ∃ d, steps.foldlM add cb = .ok d ∧ d.IsIndexed ∧
      ∀ c, c ∈ d.classes.items ↔
        c ∈ cb.classes.items ∨ c ∈ steps.filterMap BuildStep.class? := by
  induction steps generalizing cb with
  | nil => exact ⟨cb, rfl, hindexed, by simp⟩
  | cons step steps ih =>
    cases step with
    | package name =>
      exact ih (hindexed.addPackage name) hdistinct hfree
    | declaration c =>
      have hcons : (BuildStep.declaration c :: steps).filterMap BuildStep.class? =
          c :: steps.filterMap BuildStep.class? := rfl
      rw [hcons] at hdistinct hfree ⊢
      obtain ⟨hnew, hdistinct⟩ := List.nodup_cons.mp hdistinct
      obtain ⟨hname, hfree⟩ := List.forall_mem_cons.mp hfree
      obtain ⟨e, hadd⟩ : ∃ e, cb.addClass c = .ok e := ⟨_, addClass_eq_ok.mpr ⟨hname, rfl⟩⟩
      have hclasses : ∀ x, x ∈ e.classes.items ↔ x = c ∨ x ∈ cb.classes.items :=
        fun x => mem_classes_of_addClass hadd
      have hstill : ∀ x ∈ steps.filterMap BuildStep.class?, e.class? x.qualifiedName = none := by
        intro x hx
        refine Catalog.find?_eq_none_iff.mpr fun y hy hsame => ?_
        rcases (hclasses y).mp hy with rfl | hy
        · exact hnew (List.mem_map.mpr ⟨x, hx, hsame.symm⟩)
        · exact Catalog.find?_eq_none_iff.mp (hfree x hx) y hy hsame
      obtain ⟨d, hd, hdindexed, hdclasses⟩ := ih (hindexed.addClass hadd) hdistinct hstill
      refine ⟨d, ?_, hdindexed, fun x => ?_⟩
      · rw [List.foldlM_cons, add, hadd]
        exact hd
      · rw [hdclasses, hclasses, List.mem_cons, or_comm (a := x = c), or_assoc]

variable {cb cb' : Codebase}

/-- Where classes are listed does not depend on the order of their members. -/
theorem IsIndexed.of_reorders (h : cb.IsIndexed) (hreorders : cb.Reorders cb') :
    cb'.IsIndexed := by
  have hkeys : (cb'.classes.items.map fun c => (c.package, c.qualifiedName)) =
      cb.classes.items.map fun c => (c.package, c.qualifiedName) := by
    have hclasses := hreorders.classes
    generalize cb.classes.items = cs, cb'.classes.items = ds at hclasses
    induction hclasses with
    | nil => rfl
    | cons hcd _ ih =>
      rw [List.map_cons, List.map_cons, ih]
      cases hcd
      rfl
  have hdeclared : ∀ package name,
      (∃ c ∈ cb'.classes.items, c.package = package ∧ c.qualifiedName = name) ↔
        ∃ c ∈ cb.classes.items, c.package = package ∧ c.qualifiedName = name := by
    intro package name
    simpa using Iff.of_eq (congrArg ((package, name) ∈ ·) hkeys)
  constructor
  · intro p hp name
    rw [hreorders.packages] at hp
    rw [h.listed p hp, hdeclared]
  · intro d hd
    obtain ⟨c, hc, hpackage, -⟩ := (hdeclared d.package d.qualifiedName).mp ⟨d, hd, rfl, rfl⟩
    rw [hreorders.packages, ← hpackage]
    exact h.packaged c hc

end Codebase

namespace Signature

variable {cb : Codebase}

/-- Indexed codebases whose classes are the same but for the order of their members have the same
text, whatever packages without classes they have. -/
theorem WriteSettings.codebaseText_of_classes_reorder
    (s : WriteSettings) {cb' : Codebase} (h : cb.IsIndexed) (h' : cb'.IsIndexed)
    (hclasses : List.Forall₂ ClassDecl.Reorders cb.classes.items cb'.classes.items)
    (hdistinct : ∀ c ∈ cb.classes.items, c.HasDistinctMembers) :
    s.codebaseText cb' = s.codebaseText cb := by
  -- The packages are those of one codebase, the classes those of the other.
  let mixed : Codebase := { packages := cb.packages, classes := cb'.classes }
  have hreorders : cb.Reorders mixed := ⟨rfl, hclasses⟩
  rw [← s.codebaseText_of_reorders hreorders hdistinct]
  exact codebaseText_eq_of_classes (f := id) (h.of_reorders hreorders) h' rfl (fun _ => rfl)
    (fun _ => rfl) (fun d => by simp [mixed]) fun _ _ => rfl

/-- A codebase in which members are told apart is written alike whatever the order of the members of
its classes is.  If packages list their own classes, as they do wherever packages and classes are
added, the text is also that of any codebase to which the same classes were added in another order,
and packages at any time. -/
theorem write_eq_of_reorders
    (hdistinct : ∀ c ∈ cb.classes.items, c.HasDistinctMembers) (options : WriteOptions) :
    (∀ cb', cb.Reorders cb' → write options cb' = write options cb) ∧
      (cb.IsIndexed → ∀ classes, List.Forall₂ ClassDecl.Reorders cb.classes.items classes →
        ∀ steps : List Codebase.BuildStep,
          (steps.filterMap Codebase.BuildStep.class?).Perm classes →
          ∃ cb', Codebase.build steps = .ok cb' ∧
            write options cb' = write options cb) := by
  have hwrite : ∀ {cb'}, (∀ s : WriteSettings, s.codebaseText cb' = s.codebaseText cb) →
      write options cb' = write options cb := by
    intro cb' htext
    rw [write, write]
    simp only [htext]
  refine ⟨fun cb' h => hwrite fun s => s.codebaseText_of_reorders h hdistinct, ?_⟩
  intro hindexed classes hclasses steps hperm
  have hnames : classes.map ClassDecl.qualifiedName =
      cb.classes.items.map ClassDecl.qualifiedName := by
    clear hindexed hdistinct hwrite hperm
    generalize cb.classes.items = cs at hclasses
    induction hclasses with
    | nil => rfl
    | cons hcd _ ih => rw [List.map_cons, List.map_cons, ih, hcd.qualifiedName]
  have hordered : classes.Pairwise fun c d => c.qualifiedName < d.qualifiedName := by
    have hsorted := List.pairwise_map.mpr cb.classes.ordered
    rw [← hnames] at hsorted
    exact List.pairwise_map.mp hsorted
  have hnodup : (classes.map ClassDecl.qualifiedName).Nodup :=
    List.pairwise_map.mpr (hordered.imp ne_of_lt)
  obtain ⟨cb', hbuilt, hindexed', hmem⟩ := Codebase.foldlM_add Codebase.isIndexed_empty
    ((hperm.map _).nodup_iff.mpr hnodup) fun _ _ => rfl
  refine ⟨cb', hbuilt, hwrite fun s => ?_⟩
  have hitems : cb'.classes.items = classes := by
    refine eq_of_pairwise_lt_of_mem_iff cb'.classes.ordered hordered fun c => ?_
    rw [hmem, hperm.mem_iff]
    exact or_iff_right List.not_mem_nil
  exact s.codebaseText_of_classes_reorder hindexed hindexed' (hitems ▸ hclasses) hdistinct

/-- A class with an overloaded method and with fields. -/
def trayClass : ClassDecl :=
  { ClassDecl.declare "a" "Tray" .ordinary with
    modifiers := { access := .pub }
    methods :=
      [{ name := "put", owner := "a.Tray", modifiers := { access := .pub }
         returnType := some (.named "void"), parameters := [{ type := .named "int" }] },
       { name := "put", owner := "a.Tray", modifiers := { access := .pub }
         returnType := some (.named "void") }]
    fields :=
      [{ name := "base", owner := "a.Tray", modifiers := { access := .prot }
         type := .named "int" },
       { name := "depth", owner := "a.Tray", modifiers := { access := .pub }
         type := .named "int" }] }

/-- The class with its methods and its fields the other way round. -/
def trayTurned : ClassDecl :=
  { trayClass with methods := trayClass.methods.reverse, fields := trayClass.fields.reverse }

def lidClass : ClassDecl :=
  { ClassDecl.declare "a" "Lid" .ordinary with modifiers := { access := .pub } }

def trayAndLid : Codebase :=
  { packages :=
      ⟨[{ name := "a", classNames := ⟨["a.Lid", "a.Tray"], by decide⟩ }],
        List.pairwise_singleton _ _⟩
    classes := ⟨[lidClass, trayClass], by decide⟩ }

/-- Turning the members, adding the other class first and adding packages on the way changes the
codebase but not its text. -/
theorem trayAndLid_write :
    Codebase.build [.declaration trayClass, .declaration lidClass] = .ok trayAndLid ∧
      ∃ cb, Codebase.build [.package "b", .declaration lidClass, .package "a",
          .declaration trayTurned] = .ok cb ∧
        cb ≠ trayAndLid ∧ write {} cb = write {} trayAndLid := by
  have hbuilt : Codebase.build [.declaration trayClass, .declaration lidClass] =
      .ok trayAndLid := by decide +kernel
  have hindexed : trayAndLid.IsIndexed := by
    have hadded : ∃ d, Codebase.build [.declaration trayClass, .declaration lidClass] = .ok d ∧
        d.IsIndexed ∧ _ :=
      Codebase.foldlM_add Codebase.isIndexed_empty (by decide +kernel) fun _ _ => rfl
    obtain ⟨d, hd, hindexed, -⟩ := hadded
    rw [hbuilt] at hd
    cases hd
    exact hindexed
  have hdistinct : ∀ c ∈ trayAndLid.classes.items, c.HasDistinctMembers := by
    refine List.forall_mem_cons.mpr ⟨⟨?_, ?_, ?_⟩, List.forall_mem_singleton.mpr ⟨?_, ?_, ?_⟩⟩
    all_goals decide +kernel
  have hturned : trayClass.Reorders trayTurned :=
    .intro (.refl _) (List.reverse_perm _).symm (List.reverse_perm _).symm
  have hlid : lidClass.Reorders lidClass := .intro (.refl _) (.refl _) (.refl _)
  obtain ⟨cb, hcb, hwrite⟩ := (write_eq_of_reorders hdistinct {}).2 hindexed [lidClass, trayTurned]
    (.cons hlid (.cons hturned .nil))
    [.package "b", .declaration lidClass, .package "a", .declaration trayTurned] (.refl _)
  refine ⟨hbuilt, cb, hcb, ?_, hwrite⟩
  rintro rfl
  revert hcb
  decide +kernel

end Signature
end ApiSurface
