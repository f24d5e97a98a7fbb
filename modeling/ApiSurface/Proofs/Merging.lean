import ApiSurface.Proofs.Standing

/-!
# Merging

Merging adds the packages of a codebase and then its classes, each to the package of its name, up to
the first class whose name is taken.  A codebase that lists each class in its own package is
recovered by merging it into an empty one.  Of a package only the name and the documentation are
carried over, though: its tags and what was decided about it are not, and settling the outcome hides
and removes less wherever such a tag counts.
-/

namespace ApiSurface

namespace Package

/-- The package without the list of its classes. -/
def unlisted (p : Package) : Package :=
  { p with classNames := ∅ }

/-- What merging carries over of a package into a codebase without one of its name. -/
def carried (p : Package) : Package :=
  { name := p.name, classNames := p.classNames, documentation := p.documentation }

def amended (tags : DocTags) (lifecycle : Lifecycle) (documentation : Option String)
    (p : Package) : Package :=
  { p with tags, documentation, exposure := { p.exposure with lifecycle } }

end Package

namespace Codebase

variable {cb d : Codebase}

/-! ## Codebases that are built step by step -/

/-- The codebase in which the package of a name, if there is one, is amended. -/
def amendPackage (cb : Codebase) (name : String) (tags : DocTags) (lifecycle : Lifecycle)
    (documentation : Option String) : Codebase :=
  { cb with packages := cb.packages.modify name (Package.amended tags lifecycle documentation) }

/-- The codebase is built from nothing by adding packages and classes and by amending packages. -/
inductive IsBuilt : Codebase → Prop where
  | empty : IsBuilt ∅
  | addPackage {cb : Codebase} (built : IsBuilt cb) (name : String) : IsBuilt (cb.addPackage name)
  | addClass {cb d : Codebase} {c : ClassDecl} (built : IsBuilt cb)
      (added : cb.addClass c = .ok d) : IsBuilt d
  | amendPackage {cb : Codebase} (built : IsBuilt cb) (name : String) (tags : DocTags)
      (lifecycle : Lifecycle) (documentation : Option String) :
      IsBuilt (cb.amendPackage name tags lifecycle documentation)

theorem package?_addPackage (cb : Codebase) (name other : String) :
    (cb.addPackage name).package? other =
      if name = other then some (cb.packageOrNew name) else cb.package? other := by
  rw [addPackage, package?, Catalog.find?_insert, packageOrNew_name]
  rfl

theorem package?_addClass {c : ClassDecl} (hadd : cb.addClass c = .ok d) (name : String) :
    d.package? name = if c.package = name then some (cb.listing c) else cb.package? name := by
  obtain ⟨-, rfl⟩ := addClass_eq_ok.mp hadd
  rw [package?, Catalog.find?_insert, listing_name]
  rfl

theorem package?_amendPackage
    (cb : Codebase) (name : String) (tags : DocTags) (lifecycle : Lifecycle)
    (documentation : Option String) (other : String) :
    (cb.amendPackage name tags lifecycle documentation).package? other =
      if name = other then (cb.package? other).map (Package.amended tags lifecycle documentation)
      else cb.package? other :=
  Catalog.find?_modify (f := Package.amended tags lifecycle documentation) cb.packages name
    (fun _ => rfl) other

/-- Whether a codebase is indexed depends on its classes and on the classes that its packages
list. -/
theorem IsIndexed.of_classNames
    (h : cb.IsIndexed) (hclasses : d.classes = cb.classes)
    (hnames : ∀ name,
      (d.package? name).map Package.classNames = (cb.package? name).map Package.classNames) :
    d.IsIndexed := by
  have hpackage : ∀ {a b : Codebase}, (∀ name,
      (a.package? name).map Package.classNames = (b.package? name).map Package.classNames) →
      ∀ p ∈ a.packages.items, ∃ q ∈ b.packages.items,
        q.name = p.name ∧ q.classNames = p.classNames := by
    intro a b hnames p hp
    have hfound : a.package? p.name = some p := Catalog.find?_eq_some_iff.mpr ⟨hp, rfl⟩
    have hsame := hnames p.name
    rw [hfound, Option.map_some] at hsame
    obtain ⟨q, hq, hlist⟩ := Option.map_eq_some_iff.mp hsame.symm
    exact ⟨q, Catalog.mem_of_find? hq, Catalog.key_of_find? hq, hlist⟩
  constructor
  · intro p hp name
    obtain ⟨q, hq, hname, hlist⟩ := hpackage hnames p hp
    rw [← hlist, ← hname, hclasses]
    exact h.listed q hq name
  · intro c hc
    rw [hclasses] at hc
    obtain ⟨p, hp, hname⟩ := h.packaged c hc
    obtain ⟨q, hq, hsame, -⟩ := hpackage (fun name => (hnames name).symm) p hp
    exact ⟨q, hq, hsame.trans hname⟩

theorem IsIndexed.amendPackage
    (h : cb.IsIndexed) (name : String) (tags : DocTags) (lifecycle : Lifecycle)
    (documentation : Option String) :
    (cb.amendPackage name tags lifecycle documentation).IsIndexed := by
  refine h.of_classNames rfl fun other => ?_
  rw [package?_amendPackage]
  split
  · rw [Option.map_map]
    rfl
  · rfl

theorem IsBuilt.isIndexed (h : cb.IsBuilt) : cb.IsIndexed := by
  induction h with
  | empty => exact isIndexed_empty
  | addPackage _ name ih => exact ih.addPackage name
  | addClass _ hadd ih => exact ih.addClass hadd
  | amendPackage _ name tags lifecycle documentation ih =>
    exact ih.amendPackage name tags lifecycle documentation

/-- No step decides that a package is shown. -/
theorem IsBuilt.shown_eq_false (h : cb.IsBuilt) :
    ∀ p ∈ cb.packages.items, p.exposure.shown = false := by
  have hfound : ∀ {cb : Codebase}, (∀ p ∈ cb.packages.items, p.exposure.shown = false) →
      ∀ name, (cb.packageOrNew name).exposure.shown = false := by
    intro cb hall name
    rw [packageOrNew]
    cases hp : cb.package? name with
    | none => rfl
    | some p => exact hall p (Catalog.mem_of_find? hp)
  induction h with
  | empty => exact List.forall_mem_nil _
  | addPackage _ name ih =>
    intro p hp
    rcases Catalog.mem_insert_iff.mp hp with rfl | ⟨hp, -⟩
    · exact hfound ih name
    · exact ih p hp
  | @addClass cb d c _ hadd ih =>
    obtain ⟨-, rfl⟩ := addClass_eq_ok.mp hadd
    intro p hp
    rcases Catalog.mem_insert_iff.mp hp with rfl | ⟨hp, -⟩
    · exact hfound ih c.package
    · exact ih p hp
  | @amendPackage cb _ name tags lifecycle documentation ih =>
    intro p hp
    have hamended := package?_amendPackage cb name tags lifecycle documentation p.name
    have hself : (cb.amendPackage name tags lifecycle documentation).package? p.name = some p :=
      Catalog.find?_eq_some_iff.mpr ⟨hp, rfl⟩
    rw [hself] at hamended
    split at hamended
    · obtain ⟨q, hq, rfl⟩ := Option.map_eq_some_iff.mp hamended.symm
      exact ih q (Catalog.mem_of_find? hq)
    · exact ih p (Catalog.mem_of_find? hamended.symm)

/-- Codebases that list each class in its own package are determined by their classes and by what
else is known about their packages. -/
theorem IsIndexed.eq_of_unlisted_eq
    (h : cb.IsIndexed) (h' : d.IsIndexed) (hclasses : cb.classes = d.classes)
    (hpackages : ∀ name,
      (cb.package? name).map Package.unlisted = (d.package? name).map Package.unlisted) :
    cb = d := by
  have hfound : ∀ name, cb.package? name = d.package? name := by
    intro name
    have hsame := hpackages name
    cases hp : cb.package? name with
    | none =>
      rw [hp, Option.map_none] at hsame
      exact (Option.map_eq_none_iff.mp hsame.symm).symm
    | some p =>
      rw [hp, Option.map_some] at hsame
      obtain ⟨q, hq, hunlisted⟩ := Option.map_eq_some_iff.mp hsame.symm
      have hname : q.name = p.name := (congrArg Package.name hunlisted :)
      have hlists : q.classNames = p.classNames := by
        refine Catalog.eq_of_mem_iff fun n => ?_
        rw [h.listed p (Catalog.mem_of_find? hp), h'.listed q (Catalog.mem_of_find? hq), hname,
          hclasses]
      have heq : q = p := by
        cases q
        cases p
        simp only [Package.unlisted, Package.mk.injEq] at hunlisted hlists ⊢
        exact ⟨hunlisted.1, hlists, hunlisted.2.2⟩
      rw [hq, heq]
  have hcatalogs : cb.packages = d.packages := Catalog.eq_of_find?_eq hfound
  cases cb
  cases d
  cases hclasses
  cases hcatalogs
  rfl

/-! ## Merging packages -/

/-- The package of a name after a package of that name was merged. -/
def filled (cb : Codebase) (p : Package) : Package :=
  { cb.packageOrNew p.name with
    documentation := (cb.packageOrNew p.name).documentation.or p.documentation }

theorem package?_mergePackage (cb : Codebase) (p : Package) (name : String) :
    (cb.mergePackage p).package? name =
      if p.name = name then some (cb.filled p) else cb.package? name := by
  have hname : (cb.filled p).name = p.name := packageOrNew_name cb p.name
  have hfound := cb.packages.find?_insert (cb.filled p) name
  rwa [hname] at hfound

theorem IsIndexed.mergePackage (h : cb.IsIndexed) (p : Package) :
    (cb.mergePackage p).IsIndexed := by
  refine (h.addPackage p.name).of_classNames rfl fun name => ?_
  rw [package?_mergePackage, package?_addPackage]
  split <;> rfl

/-- Packages of different names are merged independently. -/
theorem package?_foldl_mergePackage
    {ps : List Package} (hps : ps.Pairwise fun p q => p.name < q.name) (cb : Codebase)
    (name : String) :
    (ps.foldl Codebase.mergePackage cb).package? name =
      ((ps.find? fun p => p.name == name).map cb.filled).or (cb.package? name) := by
  induction ps generalizing cb with
  | nil => rfl
  | cons p ps ih =>
    obtain ⟨hfirst, hrest⟩ := List.pairwise_cons.mp hps
    rw [List.foldl_cons, ih hrest, package?_mergePackage]
    by_cases hname : p.name = name
    · -- no later package has this name, so the merged one stays as it is
      have hnone : (ps.find? fun q => q.name == name) = none := by
        refine List.find?_eq_none.mpr fun q hq heq => ?_
        have hlt := hfirst q hq
        rw [hname, ← beq_iff_eq.mp heq] at hlt
        exact String.lt_irrefl _ hlt
      simp [hname, hnone]
    · have hfilled : ∀ q, q.name = name → (cb.mergePackage p).filled q = cb.filled q := by
        rintro q rfl
        simp only [filled, packageOrNew, package?_mergePackage, if_neg hname]
      cases hq : ps.find? fun q => q.name == name with
      | none => simp [hname, hq]
      | some q => simp [hname, hq, hfilled q (by simpa using List.find?_some hq)]

theorem classes_foldl_mergePackage (cb : Codebase) (ps : List Package) :
    (ps.foldl Codebase.mergePackage cb).classes = cb.classes := by
  induction ps generalizing cb with
  | nil => rfl
  | cons p ps ih => exact ih (cb.mergePackage p)

theorem IsIndexed.foldl_mergePackage (h : cb.IsIndexed) (ps : List Package) :
    (ps.foldl Codebase.mergePackage cb).IsIndexed := by
  induction ps generalizing cb with
  | nil => exact h
  | cons p ps ih => exact ih (h.mergePackage p)

/-! ## Adding classes one by one -/

/-- Of packages, a new class changes only what its own one lists; it is created if need be. -/
theorem map_unlisted_addClass
    {c : ClassDecl} (hadd : cb.addClass c = .ok d) (name : String) :
    (d.package? name).map Package.unlisted =
      ((cb.package? name).map Package.unlisted).or
        (if c.package = name then some { name } else none) := by
  rw [package?_addClass hadd]
  split
  · rename_i hname
    subst hname
    rw [listing, packageOrNew]
    cases cb.package? c.package with
    | none => rfl
    | some p => rfl
  · rw [Option.or_none]

/-- Classes of different names that are not declared yet are all added, and what follows them is
added to the outcome. -/
theorem exists_addClasses_append
    {cs : List ClassDecl} (hcs : cs.Pairwise fun c d => c.qualifiedName < d.qualifiedName)
    (hfree : ∀ c ∈ cs, cb.class? c.qualifiedName = none) :
    ∃ d : Codebase, (∀ ds, cb.addClasses (cs ++ ds) = d.addClasses ds) ∧
      (∀ x, x ∈ d.classes.items ↔ x ∈ cs ∨ x ∈ cb.classes.items) ∧
      ∀ name, (d.package? name).map Package.unlisted =
        ((cb.package? name).map Package.unlisted).or
          (if ∃ c ∈ cs, c.package = name then some { name } else none) := by
  induction cs generalizing cb with
  | nil => exact ⟨cb, fun _ => rfl, fun x => by simp, fun name => by simp⟩
  | cons c cs ih =>
    obtain ⟨hfirst, hrest⟩ := List.pairwise_cons.mp hcs
    obtain ⟨e, hadd⟩ : ∃ e, cb.addClass c = .ok e :=
      ⟨_, addClass_eq_ok.mpr ⟨hfree c List.mem_cons_self, rfl⟩⟩
    -- the other classes are still free after the first one
    have hfree' : ∀ x ∈ cs, e.class? x.qualifiedName = none := by
      intro x hx
      refine Catalog.find?_eq_none_iff.mpr fun y hy hname => ?_
      rcases (mem_classes_of_addClass hadd).mp hy with rfl | hy
      · exact String.lt_irrefl _ (hname ▸ hfirst x hx)
      · exact Catalog.find?_eq_none_iff.mp (hfree x (List.mem_cons_of_mem _ hx)) y hy hname
    obtain ⟨d, hd, hclasses, hlists⟩ := ih hrest hfree'
    refine ⟨d, fun ds => ?_, fun x => ?_, fun name => ?_⟩
    · rw [List.cons_append, addClasses, hadd]
      exact hd ds
    · rw [hclasses, mem_classes_of_addClass hadd, List.mem_cons]
      tauto
    · rw [hlists, map_unlisted_addClass hadd, Option.or_assoc]
      by_cases hname : c.package = name
      · simp [hname]
      · simp [hname]

theorem IsIndexed.addClasses (h : cb.IsIndexed) (cs : List ClassDecl) :
    (cb.addClasses cs).1.IsIndexed := by
  induction cs generalizing cb with
  | nil => exact h
  | cons c cs ih =>
    rw [Codebase.addClasses]
    split
    · rename_i hadd
      exact ih (h.addClass hadd)
    · exact h

/-! ## Merging -/

/-- A codebase with the packages of another one, and with some classes, added to it. -/
structure IsJoined (cb other : Codebase) (added : List ClassDecl) (d : Codebase) : Prop where
  classes : ∀ x, x ∈ d.classes.items ↔ x ∈ added ∨ x ∈ cb.classes.items
  packages : ∀ name, (d.package? name).map Package.unlisted =
    ((((other.package? name).map cb.filled).or (cb.package? name)).map Package.unlisted).or
      (if ∃ c ∈ added, c.package = name then some { name } else none)

theorem IsIndexed.merge (h : cb.IsIndexed) (other : Codebase) : (cb.merge other).1.IsIndexed :=
  (h.foldl_mergePackage other.packages.items).addClasses other.classes.items

/-- Classes in front of the first one whose name is taken are added in any case. -/
theorem exists_merged_append
    (other : Codebase) {before : List ClassDecl}
    (hordered : before.Pairwise fun c d => c.qualifiedName < d.qualifiedName)
    (hfree : ∀ c ∈ before, cb.class? c.qualifiedName = none) :
    ∃ d : Codebase, IsJoined cb other before d ∧ ∀ after,
      (other.packages.items.foldl mergePackage cb).addClasses (before ++ after) =
        d.addClasses after := by
  have hfree' : ∀ c ∈ before,
      (other.packages.items.foldl mergePackage cb).class? c.qualifiedName = none := by
    intro c hc
    rw [class?, classes_foldl_mergePackage]
    exact hfree c hc
  obtain ⟨d, hd, hmembers, hlists⟩ := exists_addClasses_append hordered hfree'
  refine ⟨d, ⟨fun x => ?_, fun name => ?_⟩, hd⟩
  · rw [hmembers, classes_foldl_mergePackage]
  · rw [hlists, package?_foldl_mergePackage other.packages.ordered]
    rfl

/-- The codebase without the classes from a name on. -/
def cutAt (cb : Codebase) (name : String) : Codebase :=
  { cb with classes := cb.classes.filter fun c => decide (c.qualifiedName < name) }

theorem items_cutAt
    {before after : List ClassDecl} {c : ClassDecl} (h : cb.classes.items = before ++ c :: after) :
    (cb.cutAt c.qualifiedName).classes.items = before := by
  have hordered := cb.classes.ordered
  rw [h] at hordered
  obtain ⟨-, hbehind, hacross⟩ := List.pairwise_append.mp hordered
  have hbefore : before.filter (fun d => decide (d.qualifiedName < c.qualifiedName)) = before := by
    refine List.filter_eq_self.mpr fun d hd => ?_
    simpa using hacross d hd c List.mem_cons_self
  have hafter : (c :: after).filter (fun d => decide (d.qualifiedName < c.qualifiedName)) = [] := by
    refine List.filter_eq_nil_iff.mpr fun d hd => ?_
    rcases List.mem_cons.mp hd with rfl | hd
    · simp
    · have hlt := (List.pairwise_cons.mp hbehind).1 d hd
      simpa using fun hgt => String.lt_irrefl _ (String.lt_trans hlt hgt)
  calc
    (cb.cutAt c.qualifiedName).classes.items =
        cb.classes.items.filter (fun d => decide (d.qualifiedName < c.qualifiedName)) := rfl
    _ = before ++ [] := by rw [h, List.filter_append, hbefore, hafter]
    _ = before := List.append_nil before

/-- Merging adds all classes if no name is taken.  Otherwise it stops at the first class whose name
is taken, and leaves behind what merging the classes in front of it gives. -/
theorem merge_cases (cb other : Codebase) :
    ((∀ c ∈ other.classes.items, cb.class? c.qualifiedName = none) ∧
      ∃ d, cb.merge other = (d, none) ∧ IsJoined cb other other.classes.items d) ∨
    ∃ before c after, other.classes.items = before ++ c :: after ∧
      (∀ b ∈ before, cb.class? b.qualifiedName = none) ∧ (cb.class? c.qualifiedName).isSome ∧
      ∃ d, cb.merge other = (d, some (.duplicate c.package c.qualifiedName)) ∧
        cb.merge (other.cutAt c.qualifiedName) = (d, none) ∧ IsJoined cb other before d := by
  cases hfound : other.classes.items.find? fun c => (cb.class? c.qualifiedName).isSome with
  | none =>
    have hfree : ∀ c ∈ other.classes.items, cb.class? c.qualifiedName = none := by
      intro c hc
      simpa using List.find?_eq_none.mp hfound c hc
    obtain ⟨d, hjoined, hd⟩ := exists_merged_append other other.classes.ordered hfree
    refine .inl ⟨hfree, d, ?_, hjoined⟩
    rw [merge, ← List.append_nil other.classes.items, hd]
    rfl
  | some c =>
    obtain ⟨htaken, before, after, hclasses, hbefore⟩ := List.find?_eq_some_iff_append.mp hfound
    have hfree : ∀ b ∈ before, cb.class? b.qualifiedName = none := by
      intro b hb
      simpa using hbefore b hb
    have hordered : before.Pairwise fun c d => c.qualifiedName < d.qualifiedName :=
      (List.pairwise_append.mp (hclasses ▸ other.classes.ordered)).1
    obtain ⟨d, hjoined, hd⟩ := exists_merged_append other hordered hfree
    have hstill : (d.class? c.qualifiedName).isSome := by
      obtain ⟨x, hx⟩ := Option.isSome_iff_exists.mp htaken
      obtain ⟨hmem, hname⟩ := class?_eq_some_iff.mp hx
      rw [class?_eq_some_iff.mpr ⟨(hjoined.classes x).mpr (.inr hmem), hname⟩]
      rfl
    refine .inr ⟨before, c, after, hclasses, hfree, htaken, d, ?_, ?_, hjoined⟩
    · rw [merge, hclasses, hd, addClasses, addClass_eq, if_pos hstill]
    · rw [merge, items_cutAt hclasses, ← List.append_nil before]
      exact hd []

/-! ## Merging into an empty codebase -/

/-- The codebase with nothing known about its packages but what merging carries over. -/
def carried (cb : Codebase) : Codebase :=
  { cb with packages := cb.packages.map Package.carried fun _ => rfl }

theorem package?_carried (cb : Codebase) (name : String) :
    cb.carried.package? name = (cb.package? name).map Package.carried :=
  Catalog.find?_map cb.packages Package.carried (fun _ => rfl) name

theorem IsIndexed.carried (h : cb.IsIndexed) : cb.carried.IsIndexed := by
  refine h.of_classNames rfl fun name => ?_
  rw [package?_carried, Option.map_map]
  rfl

theorem merge_empty_eq (h : cb.IsIndexed) : (∅ : Codebase).merge cb = (cb.carried, none) := by
  rcases merge_cases ∅ cb with ⟨-, d, hd, hjoined⟩ | ⟨_, _, _, -, -, htaken, -⟩
  · have hindexed : d.IsIndexed := by
      have hmerged := isIndexed_empty.merge cb
      rwa [hd] at hmerged
    -- both sides are indexed, so classes and attributes of packages are all there is to compare
    have heq : d = cb.carried := by
      refine hindexed.eq_of_unlisted_eq h.carried (Catalog.eq_of_mem_iff fun x => ?_) fun name => ?_
      · rw [hjoined.classes]
        exact or_iff_left List.not_mem_nil
      · rw [hjoined.packages, package?_carried]
        cases hp : cb.package? name with
        | some p => rfl
        | none =>
          have hnone : ¬∃ c ∈ cb.classes.items, c.package = name := by
            rintro ⟨c, hc, rfl⟩
            obtain ⟨p, hmem, hname⟩ := h.packaged c hc
            exact Catalog.find?_eq_none_iff.mp hp p hmem hname
          rw [if_neg hnone]
          rfl
    rw [hd, heq]
  · cases htaken

theorem carried_eq_self_iff (h : cb.IsBuilt) :
    cb.carried = cb ↔
      ∀ p ∈ cb.packages.items, p.tags = {} ∧ p.exposure.lifecycle = .visible := by
  have hpackage : ∀ p ∈ cb.packages.items,
      p.carried = p ↔ p.tags = {} ∧ p.exposure.lifecycle = .visible := by
    intro p hp
    have hshown := h.shown_eq_false p hp
    obtain ⟨name, classNames, ⟨lifecycle, shown⟩, tags, documentation⟩ := p
    cases hshown
    simp [Package.carried, eq_comm, and_comm]
  constructor
  · intro heq p hp
    have hfound : cb.package? p.name = some p := Catalog.find?_eq_some_iff.mpr ⟨hp, rfl⟩
    have hcarried := package?_carried cb p.name
    rw [heq, hfound, Option.map_some] at hcarried
    exact (hpackage p hp).mp (Option.some.inj hcarried).symm
  · intro hall
    have hitems : cb.packages.items.map Package.carried = cb.packages.items :=
      (List.map_congr_left fun p hp => (hpackage p hp).mpr (hall p hp)).trans (List.map_id _)
    have hpackages : cb.packages.map Package.carried (fun _ => rfl) = cb.packages :=
      Catalog.ext hitems
    exact congrArg (fun packages => { cb with packages }) hpackages

end Codebase

/-! ## Settling what was merged -/

/-- The same packages, classes and members are visible, hidden and removed. -/
def Codebase.SameLifecycles (a b : Codebase) : Prop :=
  (∀ name, (a.package? name).map (fun p => p.exposure.lifecycle) =
      (b.package? name).map fun p => p.exposure.lifecycle) ∧
    ∀ site, a.lifecycle? site = b.lifecycle? site

namespace Surface

variable {rules : SurfaceRules} {a b : Codebase}

/-- The tags of a package decide nothing that the rules do not decide without them. -/
def TagsAreIdle (rules : SurfaceRules) (p : Package) : Prop :=
  p.tags.removed = false ∧
    (p.tags.hide = true → rules.level = .hidden ∨ rules.hidesPackage p.name = true)

theorem hides_carried {p : Package} (h : TagsAreIdle rules p) :
    hides rules p.carried = hides rules p := by
  cases hhide : p.tags.hide with
  | false => simp [hides, Package.carried, hhide]
  | true =>
    rcases h.2 hhide with hlevel | hpackage
    · simp [hides, hlevel]
    · simp [hides, Package.carried, hpackage]

theorem lifecycle_settlePackage_carried_iff {p : Package} :
    (settlePackage rules p.carried).exposure.lifecycle =
        (settlePackage rules p).exposure.lifecycle ↔ TagsAreIdle rules p := by
  constructor
  · intro hsame
    have hremoved : p.tags.removed = false := by
      by_contra hne
      have htombstone : (settlePackage rules p).exposure.lifecycle = .removed := by
        simp [settlePackage, hne]
      have huntagged : (settlePackage rules p.carried).exposure.lifecycle =
          if hides rules p.carried then .hidden else .visible := rfl
      rw [huntagged, htombstone] at hsame
      split at hsame
      · cases hsame
      · cases hsame
    refine ⟨hremoved, fun hhide => ?_⟩
    by_contra hcounts
    obtain ⟨hlevel, hpackage⟩ := not_or.mp hcounts
    simp [settlePackage, hides, Package.carried, hremoved, hhide, hlevel, hpackage] at hsame
  · intro hidle
    simp only [settlePackage, hides_carried hidle, hidle.1]
    rfl

/-- Settling a class looks at the classes and at what the packages pass down. -/
theorem decision_congr
    (hclasses : a.classes = b.classes)
    (hcontext : ∀ name, packageContext rules a name = packageContext rules b name)
    (c : ClassDecl) : decision rules a c = decision rules b c := by
  refine decision_eq_of_judgeClass_eq (f := id) (fun c => ?_) (fun outer c => ?_) c
  · have hfind : a.class? = b.class? := by
      funext name
      rw [Codebase.class?, Codebase.class?, hclasses]
    rw [Option.map_id]
    exact congrArg c.containingClass.bind hfind
  · simp only [judgeClass, id_eq, hcontext]

theorem classes_settle_congr
    (hclasses : a.classes = b.classes)
    (hcontext : ∀ name, packageContext rules a name = packageContext rules b name) :
    (a.settle rules).classes = (b.settle rules).classes := by
  have hclass : ∀ c, settleClass rules a c = settleClass rules b c := by
    intro c
    simp only [settleClass, decision_congr hclasses hcontext c]
  simp only [Codebase.settle, hclasses]
  exact Catalog.map_congr hclass

theorem lifecycle?_congr (h : a.classes = b.classes) (site : Site) :
    a.lifecycle? site = b.lifecycle? site := by
  cases site with
  | ofClass name =>
    simp only [Codebase.lifecycle?, Codebase.placed?, Codebase.class?, h, Option.map_map]
    rfl
  | ofMember owner kind index =>
    simp only [Codebase.lifecycle?, Codebase.placed?, Codebase.class?, h, Option.map_bind,
      Function.comp_def, Option.map_map]
    rfl

/-- A codebase without the tags of its packages is settled alike exactly if these tags are idle. -/
theorem sameLifecycles_settle_carried_iff (cb : Codebase) :
    Codebase.SameLifecycles (cb.carried.settle rules) (cb.settle rules) ↔
      ∀ p ∈ cb.packages.items, TagsAreIdle rules p := by
  constructor
  · rintro ⟨hpackages, -⟩ p hp
    have hfound : cb.package? p.name = some p := Catalog.find?_eq_some_iff.mpr ⟨hp, rfl⟩
    have hsame := hpackages p.name
    simp only [package?_settle, Codebase.package?_carried, hfound, Option.map_some] at hsame
    exact lifecycle_settlePackage_carried_iff.mp (Option.some.inj hsame)
  · intro hidle
    constructor
    · intro name
      simp only [package?_settle, Codebase.package?_carried, Option.map_map]
      refine Option.map_congr fun p hp => ?_
      exact lifecycle_settlePackage_carried_iff.mpr (hidle p (Catalog.mem_of_find? hp))
    · refine lifecycle?_congr (classes_settle_congr rfl fun name => ?_)
      rw [packageContext, packageContext, Codebase.package?_carried]
      cases hp : cb.package? name with
      | none => rfl
      | some p =>
        have htags := hidle p (Catalog.mem_of_find? hp)
        simp only [Option.map_some, hides_carried htags, htags.1]
        rfl

end Surface

namespace Codebase

/-- Merging a codebase that was built step by step into an empty one succeeds and carries over its
classes and, of its packages, the names, the lists of classes and the documentation.  The outcome is
the same codebase exactly if no package is tagged or kept out.  Settling it hides and removes the
same exactly if the tags of the packages are idle under the rules. -/
theorem merge_empty_eq_carried (cb : Codebase) (h : cb.IsBuilt) :
    (∅ : Codebase).merge cb = (cb.carried, none) ∧
      (cb.carried = cb ↔
        ∀ p ∈ cb.packages.items, p.tags = {} ∧ p.exposure.lifecycle = .visible) ∧
      ∀ rules, SameLifecycles (cb.carried.settle rules) (cb.settle rules) ↔
        ∀ p ∈ cb.packages.items, Surface.TagsAreIdle rules p :=
  ⟨merge_empty_eq h.isIndexed, carried_eq_self_iff h,
    fun _ => Surface.sameLifecycles_settle_carried_iff cb⟩

/-- The class `a.Drawer` with nothing in it. -/
def drawerClass : ClassDecl :=
  { ClassDecl.declare "a" "Drawer" .ordinary with modifiers := { access := .pub } }

def drawerOnly (tags : DocTags) (documentation : Option String) : Codebase :=
  { packages :=
      ⟨[{ name := "a", classNames := ⟨["a.Drawer"], by decide⟩, tags, documentation }],
        List.pairwise_singleton _ _⟩
    classes := ⟨[drawerClass], List.pairwise_singleton _ _⟩ }

/-- That codebase with a documented package that is tagged as hidden. -/
def hiddenDrawer : Codebase :=
  drawerOnly { hide := true } (some "Things")

def plainDrawer : Codebase :=
  drawerOnly {} (some "Things")

theorem isBuilt_hiddenDrawer : hiddenDrawer.IsBuilt := by
  have hadded : addClass ∅ drawerClass = .ok (drawerOnly {} none) := rfl
  have hamended : (drawerOnly {} none).amendPackage "a" { hide := true } .visible (some "Things") =
      hiddenDrawer := by decide
  rw [← hamended]
  exact (IsBuilt.empty.addClass hadded).amendPackage ..

/-- The tag of a package is lost, but rules that name the package hide what is inside it all the
same. -/
theorem merge_hiddenDrawer_of_hidePackages :
    hiddenDrawer.IsBuilt ∧ (∅ : Codebase).merge hiddenDrawer = (plainDrawer, none) ∧
      plainDrawer ≠ hiddenDrawer ∧
      SameLifecycles (plainDrawer.settle { hidePackages := ["a"] })
        (hiddenDrawer.settle { hidePackages := ["a"] }) := by
  obtain ⟨hmerge, hself, hsettle⟩ := merge_empty_eq_carried _ isBuilt_hiddenDrawer
  refine ⟨isBuilt_hiddenDrawer, hmerge, ?_, (hsettle _).mpr ?_⟩
  · intro heq
    exact absurd (hself.mp heq _ (.head _)).1 (by decide)
  · intro p hp
    cases List.mem_singleton.mp hp
    exact ⟨rfl, fun _ => .inr (by decide)⟩

/-- A class of a package that is tagged as hidden is on the surface once its codebase was merged. -/
theorem merge_hiddenDrawer_shows_drawer :
    hiddenDrawer.IsBuilt ∧ (∅ : Codebase).merge hiddenDrawer = (plainDrawer, none) ∧
      plainDrawer ≠ hiddenDrawer ∧
      (plainDrawer.settle {}).lifecycle? (.ofClass "a.Drawer") = some .visible ∧
      (hiddenDrawer.settle {}).lifecycle? (.ofClass "a.Drawer") = some .hidden := by
  have hdecision : ∀ tags documentation,
      Surface.decision {} (drawerOnly tags documentation) drawerClass =
        Surface.judgeClass {} (drawerOnly tags documentation) {} drawerClass := by
    intro tags documentation
    rw [Surface.decision_eq]
    rfl
  refine ⟨isBuilt_hiddenDrawer, merge_empty_eq isBuilt_hiddenDrawer.isIndexed, by decide, ?_, ?_⟩
  · refine Surface.lifecycle?_settle_ofClass.mpr ⟨drawerClass, rfl, ?_⟩
    rw [Surface.settleClass, plainDrawer, hdecision]
    rfl
  · refine Surface.lifecycle?_settle_ofClass.mpr ⟨drawerClass, rfl, ?_⟩
    rw [Surface.settleClass, hiddenDrawer, hdecision]
    rfl

end Codebase

end ApiSurface
