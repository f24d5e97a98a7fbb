import ApiSurface.Proofs.Reading.Class

/-!
# Codebases that were read

A codebase that was read lists its classes by package, and all that is known of a class that was
read is known of each of them.  Packages are given with nothing but their names and their classes.
-/

namespace ApiSurface

/-- All classes are on the surface, and packages tell nothing but their names and their classes. -/
structure Codebase.IsFresh (cb : Codebase) : Prop where
  classes : ∀ c ∈ cb.classes.items, c.IsFresh
  packages : ∀ p ∈ cb.packages.items, p = { name := p.name, classNames := p.classNames }

namespace Signature

open Scan (IsName)

/-- A codebase that was read and can be written. -/
structure IsReadCodebase (common : Option CommonPackages) (cb : Codebase) : Prop where
  indexed : cb.IsIndexed
  classes : ∀ c ∈ cb.classes.items, IsDeclaredClass common c
  packages : ∀ p ∈ cb.packages.items, IsName p.name

/-- All that is known of a codebase that was read. -/
structure IsGivenCodebase (common : Option CommonPackages) (cb : Codebase) : Prop where
  indexed : cb.IsIndexed
  classes : ∀ c ∈ cb.classes.items, IsGivenClass common c
  packages : ∀ p ∈ cb.packages.items,
    IsName p.name ∧ p = { name := p.name, classNames := p.classNames }

section

variable {common : Option CommonPackages}

theorem isGivenCodebase_empty : IsGivenCodebase common ∅ :=
  ⟨Codebase.isIndexed_empty, List.forall_mem_nil _, List.forall_mem_nil _⟩

variable {cb : Codebase} (h : IsGivenCodebase common cb)

include h

theorem IsGivenCodebase.fresh : cb.IsFresh :=
  ⟨fun c hc => (h.classes c hc).fresh, fun p hp => (h.packages p hp).2⟩

theorem IsGivenCodebase.legible (hproper : AreProper common) : IsReadCodebase common cb :=
  ⟨h.indexed, fun c hc => (h.classes c hc).declared hproper, fun p hp => (h.packages p hp).1⟩

theorem IsGivenCodebase.packageOrNew (name : String) :
    cb.packageOrNew name = { name, classNames := (cb.packageOrNew name).classNames } := by
  cases hp : cb.package? name with
  | none =>
    rw [Codebase.packageOrNew, hp]
    rfl
  | some p =>
    rw [Codebase.packageOrNew, hp]
    conv_rhs => rw [← Catalog.key_of_find? hp]
    exact (h.packages p (Catalog.mem_of_find? hp)).2

theorem IsGivenCodebase.addPackage {package : String} (hname : IsName package) :
    IsGivenCodebase common (cb.addPackage package) := by
  refine ⟨h.indexed.addPackage package, h.classes, fun p hp => ?_⟩
  rcases Catalog.mem_insert_iff.mp hp with rfl | ⟨hp, -⟩
  · rw [h.packageOrNew package]
    exact ⟨hname, rfl⟩
  · exact h.packages p hp

theorem IsGivenCodebase.addClass
    {c : ClassDecl} (hc : IsGivenClass common c) (hname : IsName c.package) {d : Codebase}
    (hadd : cb.addClass c = .ok d) : IsGivenCodebase common d := by
  refine ⟨h.indexed.addClass hadd, fun x hx => ?_, fun p hp => ?_⟩
  · rcases (Codebase.mem_classes_of_addClass hadd).mp hx with rfl | hx
    · exact hc
    · exact h.classes x hx
  · obtain ⟨-, rfl⟩ := Codebase.addClass_eq_ok.mp hadd
    rcases Catalog.mem_insert_iff.mp hp with rfl | ⟨hp, -⟩
    · rw [Codebase.listing, h.packageOrNew c.package]
      exact ⟨hname, rfl⟩
    · exact h.packages p hp

end

namespace Source

variable {src : Source}

theorem yields_classes {package : String} (rounds : Nat) (cb : Codebase) :
    Yields AnyShape (src.readClasses package rounds cb) fun d =>
      IsName package → IsGivenCodebase src.settings.common cb →
        IsGivenCodebase src.settings.common d := by
  induction rounds generalizing cb with
  | zero => exact fun ts => gives_error _
  | succ rounds ih =>
    intro ts
    rw [readClasses]
    split
    · exact Gives.tail (gives_ok fun _ _ hcb => hcb)
    · refine (yields_class cb package ts).bind fun c ts => gives_bind fun e hadd => ?_
      refine (ih e ts).imp fun d _ hd hc hname hcb => hd hname ?_
      exact hcb.addClass hc.1 (hc.2 ▸ hname) hadd

theorem isGivenCodebase_of_readPackages
    {rounds : Nat} {cb d : Codebase} (hcb : IsGivenCodebase src.settings.common cb)
    {ts : List Token} (hts : Scanned ts) (h : src.readPackages rounds cb ts = .ok d) :
    IsGivenCodebase src.settings.common d := by
  induction rounds generalizing cb ts with
  | zero =>
    cases ts with
    | nil =>
      cases h
      exact hcb
    | cons t ts => cases h
  | succ rounds ih =>
    cases ts with
    | nil =>
      cases h
      exact hcb
    | cons t ts =>
      rw [readPackages] at h
      split at h
      · obtain ⟨⟨package, ts₁⟩, hpackage, h⟩ := bind_eq_ok.mp h
        obtain ⟨ts₂, hopen, h⟩ := bind_eq_ok.mp h
        obtain ⟨⟨e, ts₃⟩, hclasses, h⟩ := bind_eq_ok.mp h
        have hgives : Gives AnyShape ts (src.expectName "package name" ts) _ :=
          gives_expectName _ ts
        obtain ⟨⟨hname, -⟩, hts₁⟩ := hgives.apply hts.tail hpackage
        obtain ⟨u, hcons, -⟩ := exists_of_expectMark hopen
        rw [hcons] at hts₁
        obtain ⟨he, hts₃⟩ := (yields_classes _ _ ts₂).apply hts₁.tail hclasses
        exact ih (he hname (hcb.addPackage hname)) hts₃ h
      · cases h

end Source

theorem common_of_resolve
    {options : ReadOptions} {declared : Option Format} {settings : ReadSettings}
    (h : options.resolve declared = .ok settings) : settings.common = options.common := by
  rw [ReadOptions.resolve.eq_def] at h
  simp only at h
  repeat' split at h
  all_goals cases h
  all_goals rfl

/-- Whatever the text and the options are, all that is known of what was read is known of the
codebase. -/
theorem isGivenCodebase_of_read
    {options : ReadOptions} {text : String} {cb : Codebase} (h : read options text = .ok cb) :
    IsGivenCodebase options.common cb := by
  obtain ⟨declared, -, h⟩ := bind_eq_ok.mp h
  obtain ⟨settings, hresolve, h⟩ := bind_eq_ok.mp h
  obtain ⟨scanned, hscan, h⟩ := bind_eq_ok.mp h
  let src : Source := { settings, finish := scanned.finish }
  have hread : src.readPackages scanned.tokens.length ∅ scanned.tokens = .ok cb := h
  rw [← common_of_resolve hresolve]
  exact Source.isGivenCodebase_of_readPackages isGivenCodebase_empty ⟨_, _, _, _, hscan, rfl⟩ hread

theorem isReadCodebase_of_read
    {options : ReadOptions} (hproper : ∀ common ∈ options.common, common.IsProper) {text : String}
    {cb : Codebase} (h : read options text = .ok cb) : IsReadCodebase options.common cb :=
  (isGivenCodebase_of_read h).legible hproper

theorem isFresh_of_read
    {options : ReadOptions} {text : String} {cb : Codebase} (h : read options text = .ok cb) :
    cb.IsFresh :=
  (isGivenCodebase_of_read h).fresh

/-- Every class that was read, from any text and with any options, is regular. -/
theorem isRegular_of_read
    {options : ReadOptions} {text : String} {cb : Codebase} (h : read options text = .ok cb) :
    ∀ c ∈ cb.classes.items, c.IsRegular :=
  fun c hc => ((isGivenCodebase_of_read h).classes c hc).regular

/-- Wildcards and primitives in many places, with annotations about null in front of them. -/
def rackText : String :=
  "package p \x7b interface Rack extends ? \x7b method @Nullable ? top(@Nullable int...) " ++
    "throws ? super @NonNull E; enum_constant int SIZE; \x7d \x7d"

def rack : ClassDecl :=
  { ClassDecl.declare "p" "Rack" .interface with
    interfaces := [.wildcard none]
    methods :=
      [{ name := "top", owner := "p.Rack", modifiers := {}, returnType := some (.wildcard none)
         parameters :=
          [{ type := { (TypeRef.named "int").array 1 with nullability := .nullable }
             varargs := true }]
         throws := [.wildcard (some (.lower { name := "E", nullability := .nonNull }))] }]
    fields :=
      [{ name := "SIZE", owner := "p.Rack", modifiers := {}, type := .named "int"
         isEnumConstant := true }] }

/-- A codebase with nothing but that interface. -/
def rackOnly : Codebase :=
  { packages := ⟨[{ name := "p", classNames := ⟨["p.Rack"], by decide⟩ }], by decide⟩
    classes := ⟨[rack], List.pairwise_singleton _ _⟩ }

/-- Also where there is no package that a name could have been written without. -/
theorem isRegular_rack :
    read { common := some { types := [], annotations := [] } } rackText = .ok rackOnly ∧
      ∀ c ∈ rackOnly.classes.items, c.IsRegular := by
  have hread :
      read { common := some { types := [], annotations := [] } } rackText = .ok rackOnly := by
    decide +kernel
  exact ⟨hread, isRegular_of_read hread⟩

end Signature
end ApiSurface
