import ApiSurface.Proofs.Reading.Codebase
import ApiSurface.Proofs.RoundTrip.Published

/-!
# Whole texts are read back

States and tags that are given to a codebase after it was read make no difference to what is known
of it.  A text of the second or third version tells its version in its first line, so it is read
with the settings that it was written with.
-/

namespace ApiSurface

namespace Text

/-- The first piece of a text ends at the first mark. -/
theorem pieces_append
    {mark : Char} {first : List Char} (h : mark ∉ first) (rest : List Char) :
    pieces mark (first ++ mark :: rest) = first :: pieces mark rest := by
  induction first with
  | nil => simp [pieces]
  | cons c first ih =>
    obtain ⟨hc, hfirst⟩ := not_or.mp (List.mem_cons.not.mp h)
    rw [List.cons_append, pieces, if_neg (Ne.symm hc), ih hfirst]

/-- Trimming keeps the first letter. -/
theorem trim_cons {c : Char} (hc : isBlank c = false) (cs : List Char) :
    ∃ rest, trim (c :: cs) = c :: rest := by
  rw [trim, List.dropWhile_cons_of_neg (by simp [hc]), List.reverse_cons, List.dropWhile_append]
  split
  · exact ⟨[], by simp [hc]⟩
  · exact ⟨(cs.reverse.dropWhile isBlank).reverse, by simp⟩

end Text

namespace Signature

open Scan (IsName Spells Anything)

/-! ## States and tags tell nothing of what was read -/

section

variable {common : Option CommonPackages} {cb : Codebase}

theorem isLegibleMethod_bare {m : Method} :
    IsLegibleMethod common m.bare ↔ IsLegibleMethod common m :=
  ⟨fun ⟨h₁, h₂, h₃, h₄, h₅, h₆, h₇, h₈⟩ => ⟨h₁, h₂, h₃, h₄, h₅, h₆, h₇, h₈⟩,
    fun ⟨h₁, h₂, h₃, h₄, h₅, h₆, h₇, h₈⟩ => ⟨h₁, h₂, h₃, h₄, h₅, h₆, h₇, h₈⟩⟩

theorem isReadConstructor_bare {name owner : String} {m : Method} :
    IsReadConstructor common name owner m.bare ↔ IsReadConstructor common name owner m :=
  ⟨fun ⟨h, h₂, h₃, h₄, h₅, h₆, h₇⟩ => ⟨isLegibleMethod_bare.mp h, h₂, h₃, h₄, h₅, h₆, h₇⟩,
    fun ⟨h, h₂, h₃, h₄, h₅, h₆, h₇⟩ => ⟨isLegibleMethod_bare.mpr h, h₂, h₃, h₄, h₅, h₆, h₇⟩⟩

theorem isReadMethod_bare {owner : String} {m : Method} :
    IsReadMethod common owner m.bare ↔ IsReadMethod common owner m :=
  ⟨fun ⟨h, h₂, h₃, h₄, h₅⟩ => ⟨isLegibleMethod_bare.mp h, h₂, h₃, h₄, h₅⟩,
    fun ⟨h, h₂, h₃, h₄, h₅⟩ => ⟨isLegibleMethod_bare.mpr h, h₂, h₃, h₄, h₅⟩⟩

theorem isReadField_bare {owner : String} {x : Field} :
    IsReadField common owner x.bare ↔ IsReadField common owner x :=
  ⟨fun ⟨⟨h₁, h₂, h₃, h₄, h₅, h₆⟩, h₇, h₈, h₉⟩ => ⟨⟨h₁, h₂, h₃, h₄, h₅, h₆⟩, h₇, h₈, h₉⟩,
    fun ⟨⟨h₁, h₂, h₃, h₄, h₅, h₆⟩, h₇, h₈, h₉⟩ => ⟨⟨h₁, h₂, h₃, h₄, h₅, h₆⟩, h₇, h₈, h₉⟩⟩

theorem isDeclaredClass_bare {c : ClassDecl} :
    IsDeclaredClass common c.bare ↔ IsDeclaredClass common c := by
  have hconstructors :
      (∀ m ∈ c.bare.constructors, IsReadConstructor common c.name c.qualifiedName m) ↔
        ∀ m ∈ c.constructors, IsReadConstructor common c.name c.qualifiedName m := by
    simp only [ClassDecl.bare, List.forall_mem_map, isReadConstructor_bare]
  have hmethods : (∀ m ∈ c.bare.methods, IsReadMethod common c.qualifiedName m) ↔
      ∀ m ∈ c.methods, IsReadMethod common c.qualifiedName m := by
    simp only [ClassDecl.bare, List.forall_mem_map, isReadMethod_bare]
  have hfields : (∀ x ∈ c.bare.fields, IsReadField common c.qualifiedName x) ↔
      ∀ x ∈ c.fields, IsReadField common c.qualifiedName x := by
    simp only [ClassDecl.bare, List.forall_mem_map, isReadField_bare]
  have hapart : ∀ ms : List Method,
      (ms.map Method.bare).Pairwise (fun m m' => c.signatureOf m ≠ c.signatureOf m') ↔
        ms.Pairwise fun m m' => c.signatureOf m ≠ c.signatureOf m' := fun ms => List.pairwise_map
  have hnames : (c.fields.map Field.bare).Pairwise (fun x x' => x.name ≠ x'.name) ↔
      c.fields.Pairwise fun x x' => x.name ≠ x'.name := List.pairwise_map
  constructor
  · rintro ⟨⟨h₁, h₂, h₃, h₄, h₅, h₆, h₇, h₈⟩, h₉, hc, hm, hf, h₁₀, h₁₁, h₁₂⟩
    exact ⟨⟨h₁, h₂, h₃, h₄, h₅, hconstructors.mp h₆, hmethods.mp h₇, hfields.mp h₈⟩, h₉,
      (hapart _).mp hc, (hapart _).mp hm, hnames.mp hf, h₁₀, h₁₁, h₁₂⟩
  · rintro ⟨⟨h₁, h₂, h₃, h₄, h₅, h₆, h₇, h₈⟩, h₉, hc, hm, hf, h₁₀, h₁₁, h₁₂⟩
    exact ⟨⟨h₁, h₂, h₃, h₄, h₅, hconstructors.mpr h₆, hmethods.mpr h₇, hfields.mpr h₈⟩, h₉,
      (hapart _).mpr hc, (hapart _).mpr hm, hnames.mpr hf, h₁₀, h₁₁, h₁₂⟩

theorem isReadCodebase_bare : IsReadCodebase common cb.bare ↔ IsReadCodebase common cb := by
  have hclass : ∀ P : ClassDecl → Prop, (∀ c ∈ cb.bare.classes.items, P c) ↔
      ∀ c ∈ cb.classes.items, P c.bare := fun P => List.forall_mem_map
  have hpackage : ∀ P : Package → Prop, (∀ p ∈ cb.bare.packages.items, P p) ↔
      ∀ p ∈ cb.packages.items, P p.bare := fun P => List.forall_mem_map
  constructor
  · rintro ⟨hindexed, hclasses, hpackages⟩
    refine ⟨Codebase.isIndexed_bare.mp hindexed, fun c hc => ?_, (hpackage _).mp hpackages⟩
    exact isDeclaredClass_bare.mp ((hclass _).mp hclasses c hc)
  · rintro ⟨hindexed, hclasses, hpackages⟩
    refine ⟨Codebase.isIndexed_bare.mpr hindexed, (hclass _).mpr fun c hc => ?_,
      (hpackage _).mpr hpackages⟩
    exact isDeclaredClass_bare.mpr (hclasses c hc)

end

/-- States and tags that are given to a codebase after it was read make no difference. -/
theorem isReadCodebase_of_states
    {options : ReadOptions} (hproper : ∀ common ∈ options.common, common.IsProper) {text : String}
    {origin cb : Codebase} (hread : read options text = .ok origin)
    (hstates : cb.bare = origin.bare) : IsReadCodebase options.common cb := by
  rw [← isReadCodebase_bare, hstates, isReadCodebase_bare]
  exact isReadCodebase_of_read hproper hread

/-! ## Names in scope -/

/-- The package of a name can be put back wherever the name stands. -/
theorem CommonPackages.dot_mem_qualify
    {common : CommonPackages} (h : common.IsProper) (simple : String) :
    '.' ∈ (common.qualify .type simple).toList := by
  obtain ⟨p, ps, hp⟩ := List.exists_cons_of_ne_nil h.types_ne_nil
  have hhome : common.home? .type simple = some p := by
    rw [home?, hp]
    rfl
  simp [qualify, hhome, String.toList_append]

/-- The written form of a type name stands for the name: what is left of it is a primitive or a type
variable in scope exactly if nothing is left off. -/
def CommonPackages.Keeps (common : CommonPackages) (scope : List String) (name : String) : Prop :=
  '.' ∈ (common.shorten .type name).toList ∨
    (common.shorten .type name ∈ TypeRef.primitives ++ scope ↔ common.shorten .type name = name)

instance (common : CommonPackages) (scope : List String) (name : String) :
    Decidable (common.Keeps scope name) :=
  inferInstanceAs (Decidable (_ ∨ _))

namespace WriteSettings

/-- A name is kept in a scope: nothing is left off names, or what is left stands for the name. -/
def Keeps (s : WriteSettings) (scope : List String) (name : String) : Prop :=
  ∀ common ∈ s.omitted, common.Keeps scope name

/-- The types that a class is written with, each with the type variables in scope at its place. -/
def scopedTypes (s : WriteSettings) (scope : List String) (c : ClassDecl) :
    List (List String × TypeRef) :=
  (c.typeParameters.flatMap TypeParameter.bounds ++ c.superclass.toList.filter s.writesSuperclass ++
      c.interfaces ++ (s.writtenFields c.fields).map Field.type).map (fun t => (scope, t)) ++
    (s.writtenMethods c.constructors ++ s.writtenMethods c.methods).flatMap fun m =>
      m.types.map fun t => (scope ++ s.declaredBy m.typeParameters, t)

/-- The type variables in scope inside a class: those of the classes around it that are written
before it, and its own. -/
def scopeIn (s : WriteSettings) (cb : Codebase) (c : ClassDecl) : List String :=
  ((cb.before s.view c).enclosing c).flatMap (fun o => o.typeParameters.map TypeParameter.name) ++
    s.declaredBy c.typeParameters

/-- All names of types in a class are kept where they stand. -/
def KeepsClass (s : WriteSettings) (cb : Codebase) (c : ClassDecl) : Prop :=
  ∀ p ∈ s.scopedTypes (s.scopeIn cb c) c, ∀ name ∈ p.2.names, name ≠ "?" → s.Keeps p.1 name

end WriteSettings

theorem restored_eq_iff
    (src : Source) {s : WriteSettings} (hcommon : s.omitted = src.settings.common)
    (hproper : ∀ packages ∈ src.settings.common, packages.IsProper) (name : String) :
    src.restored s name = name ↔ s.Keeps src.scope name := by
  rw [Source.restored, Source.typeName, WriteSettings.typeName, WriteSettings.Keeps, hcommon]
  cases hsome : src.settings.common with
  | none => simp
  | some common =>
    have hproper := hproper common hsome
    have hdotted := common.dot_mem_qualify hproper name
    simp only [Option.mem_def, Option.some.injEq, forall_eq', CommonPackages.Keeps, List.mem_append,
      Bool.or_eq_true, List.contains_eq_mem, decide_eq_true_eq]
    rcases common.shorten_cases .type name with hkept | ⟨xs, ys, hname, hshort, hnone, hback⟩
    · rw [hkept]
      have hne : '.' ∉ name.toList → common.qualify .type name ≠ name := by
        intro hno heq
        rw [heq] at hdotted
        exact hno hdotted
      by_cases hdot : '.' ∈ name.toList
      · simp [hdot]
      · by_cases hin : name ∈ TypeRef.primitives ∨ name ∈ src.scope
        · simp [hdot, hin]
        · simp [hdot, hin, hne hdot]
    · have hne : String.ofList ys ≠ name := by
        intro heq
        rw [← heq, String.toList_ofList] at hname
        exact hnone (by rw [hname]; simp)
      rw [hshort]
      by_cases hin : String.ofList ys ∈ TypeRef.primitives ∨ String.ofList ys ∈ src.scope
      · simp [hnone, hin, hne]
      · simp [hnone, hin, hne, hback]

theorem restoresClass_iff
    (src : Source) {s : WriteSettings} {c : ClassDecl} (hcommon : s.omitted = src.settings.common)
    (hproper : ∀ packages ∈ src.settings.common, packages.IsProper) :
    src.RestoresClass s c ↔
      ∀ p ∈ s.scopedTypes src.scope c, ∀ name ∈ p.2.names, name ≠ "?" → s.Keeps p.1 name := by
  have hown : ∀ t, Restores (src.restored s) t ↔
      ∀ name ∈ t.names, name ≠ "?" → s.Keeps src.scope name := fun t =>
    forall₃_congr fun name _ _ => restored_eq_iff src hcommon hproper name
  have hbehind : ∀ ps t, Restores (src.restoredBehind s ps) t ↔
      ∀ name ∈ t.names, name ≠ "?" → s.Keeps (src.scope ++ s.declaredBy ps) name := fun ps t =>
    forall₃_congr fun name _ _ =>
      restored_eq_iff (src.within (s.declaredBy ps)) hcommon hproper name
  simp only [WriteSettings.scopedTypes, List.forall_mem_append, List.forall_mem_map,
    List.forall_mem_flatMap, List.mem_filter, Option.mem_toList, ← hown, ← hbehind, and_imp]
  constructor
  · intro h
    exact ⟨⟨⟨⟨List.forall_mem_flatMap.mp h.bounds, h.superclass⟩, h.interfaces⟩, h.fields⟩,
      h.constructors, h.methods⟩
  · rintro ⟨⟨⟨⟨hbounds, hsuperclass⟩, hinterfaces⟩, hfields⟩, hconstructors, hmethods⟩
    exact ⟨List.forall_mem_flatMap.mpr hbounds, hsuperclass, hinterfaces, hconstructors, hmethods,
      hfields⟩

/-! ## Texts of a version -/

/-- The settings with which a codebase is written in a version. -/
def Format.settings (format : Format) (omitted : Option CommonPackages) (view : View)
    (order : MemberOrder) : WriteSettings :=
  { capabilities := format.capabilities
    kotlinNulls := format.capabilities.kotlinNulls
    defaultValues := format.capabilities.defaultValues
    compatible := format.capabilities.compatible
    header := format.capabilities.header
    omitted
    view
    order }

/-- The settings with which a text of a version is read. -/
def Format.readSettings (format : Format) (common : Option CommonPackages) : ReadSettings :=
  { format, kotlinNulls := format.capabilities.kotlinNulls, common, file := "" }

/-- The version that a text declares if it has the header of a version; the first one has none. -/
def Format.declared? : Format → Option Format
  | .v1 => none
  | .v2 => some .v2
  | .v3 => some .v3

theorem Format.resolve_declared? (format : Format) (common : Option CommonPackages)
    (file : String) :
    ({ common, file } : ReadOptions).resolve format.declared? =
      .ok { format.readSettings common with file } := by
  cases format <;> rfl

theorem headerText_eq
    {s : WriteSettings} {header : String} (h : s.header = some header) :
    s.headerText = header ++ "\n" := by
  rw [WriteSettings.headerText, h]

theorem headerText_eq_empty {s : WriteSettings} (h : s.header = none) : s.headerText = "" := by
  rw [WriteSettings.headerText, h]

/-- A text that starts with a letter has no header. -/
theorem Header.declared_eq_none
    {text : String} {c : Char} {rest : List Char} (h : text.toList = c :: rest)
    (hletter : Text.isBlank c = false ∧ c ≠ '\n' ∧ c ≠ '/') : Header.declared text = .ok none := by
  obtain ⟨first, others, hpieces⟩ : ∃ first others,
      Text.pieces '\n' (c :: rest) = (c :: first) :: others := by
    rw [Text.pieces, if_neg hletter.2.1]
    cases Text.pieces '\n' rest with
    | nil => exact ⟨[], [], rfl⟩
    | cons first others => exact ⟨first, others, rfl⟩
  obtain ⟨line, hline⟩ := Text.trim_cons hletter.1 first
  have hfound : Header.line? text.toList = some (c :: line) := by
    rw [Header.line?, h, hpieces, List.map_cons, hline]
    rfl
  have hmajor : Header.major? (c :: line) = none := by
    rw [Header.major?, Text.after?, if_neg hletter.2.2.symm]
    rfl
  rw [Header.declared, hfound, Option.bind_some, hmajor]

/-- A text tells its version in its first line; one without a header starts with a package. -/
theorem declared_codebaseText
    {s : WriteSettings} {format : Format} (h : s.header = format.capabilities.header)
    (cb : Codebase) : Header.declared (s.codebaseText cb) = .ok format.declared? := by
  have hpieces : ∀ {line : String}, '\n' ∉ line.toList → ∀ rest : String,
      Text.pieces '\n' (line ++ "\n" ++ rest).toList =
        line.toList :: Text.pieces '\n' rest.toList := by
    intro line hline rest
    rw [String.append_assoc, String.toList_append, String.toList_append]
    exact Text.pieces_append hline _
  cases format with
  | v1 =>
    rw [WriteSettings.codebaseText, headerText_eq_empty h, String.empty_append]
    induction cb.packages.items with
    | nil => rfl
    | cons p ps ih =>
      rw [List.map_cons, String.join_cons, WriteSettings.packageText]
      split
      · rwa [String.empty_append]
      · exact Header.declared_eq_none (c := 'p') (by simp; rfl) (by decide)
  | v2 =>
    rw [Header.declared, Header.line?, WriteSettings.codebaseText, headerText_eq h,
      hpieces (by decide)]
    rfl
  | v3 =>
    rw [Header.declared, Header.line?, WriteSettings.codebaseText, headerText_eq h,
      hpieces (by decide)]
    rfl

theorem spells_headerText
    {s : WriteSettings} {format : Format} (h : s.header = format.capabilities.header) :
    Spells Anything s.headerText [] := by
  intro rest others _ hreads
  refine hreads.of_remainder ?_
  cases format with
  | v1 =>
    rw [headerText_eq_empty h]
    rfl
  | v2 =>
    rw [headerText_eq h, String.toList_append, List.append_assoc]
    rfl
  | v3 =>
    rw [headerText_eq h, String.toList_append, List.append_assoc]
    rfl

/-! ## Texts that are read as they were written -/

section

variable {s : WriteSettings} {format : Format} (hheader : s.header = format.capabilities.header)
  {common : Option CommonPackages} {file : String}
  (hagree : Agree s { format.readSettings common with file }) {cb : Codebase}
  (h : IsReadCodebase common cb) (hplain : ∀ c ∈ s.writtenClasses cb, IsPlainClass s c)
  (hlayout : ∀ c ∈ s.writtenClasses cb, s.LaysOut c)

include hheader hagree h hplain hlayout

/-- Reading a text with settings that agree is the same as reading its classes back one by one. -/
theorem read_of_agree :
    ∃ finish, read { common, file } (s.codebaseText cb) =
      ({ settings := { format.readSettings common with file }, finish } : Source).rereadClasses s ∅
        (s.writtenClasses cb) := by
  have hclasses : ∀ c ∈ s.writtenClasses cb, IsReadClass common c := fun c hc =>
    (h.classes c ((WriteSettings.mem_writtenClasses_iff h.indexed).mp hc).1).toIsReadClass
  obtain ⟨scanned, hscan, hrenders⟩ :=
    ((spells_headerText hheader).seq (spells_packages hagree h.packages hclasses)).scan_eq_ok file
  have hwritten : ∀ p ∈ cb.packages.items, ∀ c ∈ s.writtenIn cb p, c ∈ s.writtenClasses cb :=
    fun p hp c hc => List.mem_flatMap.mpr ⟨p, hp, hc⟩
  refine ⟨scanned.finish, ?_⟩
  rw [read, declared_codebaseText hheader, ok_bind, format.resolve_declared?, ok_bind,
    WriteSettings.codebaseText, hscan, ok_bind]
  refine Source.readPackages_of_renders hagree
    (fun p hp c hc => hclasses c (hwritten p hp c hc))
    (fun p hp c hc => hplain c (hwritten p hp c hc))
    (fun p hp c hc => hlayout c (hwritten p hp c hc)) (fun p hp c hc => ?_) le_rfl hrenders
  exact ((h.indexed.mem_classesIn_iff hp).mp (List.mem_filter.mp hc).1).2

/-- A codebase is read back as a view shows it exactly if in each class that is written all names of
types are kept. -/
theorem read_of_agree_eq_published_iff
    (hproper : ∀ packages ∈ common, packages.IsProper)
    (hroot : s.compatible = false → ∀ c ∈ cb.classes.items, HasImplicitRoot c) :
    read { common, file } (s.codebaseText cb) = .ok (cb.published s.view s.order) ↔
      ∀ c ∈ s.writtenClasses cb, s.KeepsClass cb c := by
  obtain ⟨finish, hread⟩ := read_of_agree hheader hagree h hplain hlayout
  have hclasses : ∀ c ∈ s.writtenClasses cb,
      IsDeclaredClass common c ∧ (s.compatible = false → HasImplicitRoot c) := by
    intro c hc
    have hmem := ((WriteSettings.mem_writtenClasses_iff h.indexed).mp hc).1
    exact ⟨h.classes c hmem, fun hmodern => hroot hmodern c hmem⟩
  have hnothing : ∀ x, x ∈ (∅ : Codebase).classes.items ↔
      ∃ o ∈ ([] : List ClassDecl), o.published s.view s.order = x := by
    intro x
    exact ⟨fun hx => absurd hx List.not_mem_nil, fun ⟨_, ho, _⟩ => absurd ho List.not_mem_nil⟩
  rw [hread]
  refine (rereadClasses_eq_published_iff h.indexed hclasses Codebase.isDerived_empty
    (List.nil_append _).symm hnothing).trans (forall₂_congr fun c _ => ?_)
  exact restoresClass_iff (Source.inside _ _ _ c) hagree.common hproper

end

section

variable {format : Format} (hformat : format ≠ .v1)

include hformat

theorem write_eq (cb : Codebase) (view : View) (order : MemberOrder) :
    write { format, view, order } cb = .ok ((format.settings none view order).codebaseText cb) := by
  cases format with
  | v1 => exact absurd rfl hformat
  | v2 => rfl
  | v3 => rfl

theorem write_omitting_eq
    (common : CommonPackages) (cb : Codebase) (view : View) (order : MemberOrder) :
    write { format, omitCommon := true, common, view, order } cb =
      .ok ((format.settings (some common) view order).codebaseText cb) := by
  cases format with
  | v1 => exact absurd rfl hformat
  | v2 => rfl
  | v3 => rfl

theorem agree_settings (common : Option CommonPackages) (view : View) (order : MemberOrder) :
    Agree (format.settings common view order) (format.readSettings common) := by
  cases format with
  | v1 => exact absurd rfl hformat
  | v2 => exact ⟨rfl, rfl, rfl, rfl, rfl⟩
  | v3 => exact ⟨rfl, rfl, rfl, rfl, rfl⟩

theorem compatible_settings (common : Option CommonPackages) (view : View) (order : MemberOrder) :
    (format.settings common view order).compatible = false := by
  cases format with
  | v1 => exact absurd rfl hformat
  | v2 => rfl
  | v3 => rfl

/-- A codebase is read back as a view shows it exactly if in each class that is written all names of
types are kept. -/
theorem read_codebaseText_eq_published_iff
    {common : Option CommonPackages} (hproper : ∀ packages ∈ common, packages.IsProper)
    {cb : Codebase} (h : IsReadCodebase common cb) (view : View) (order : MemberOrder)
    (hplain : ∀ c ∈ (format.settings common view order).writtenClasses cb,
      IsPlainClass (format.settings common view order) c)
    (hroot : ∀ c ∈ cb.classes.items, HasImplicitRoot c) :
    read { common } ((format.settings common view order).codebaseText cb) =
        .ok (cb.published view order) ↔
      ∀ c ∈ (format.settings common view order).writtenClasses cb,
        (format.settings common view order).KeepsClass cb c := by
  exact read_of_agree_eq_published_iff rfl (agree_settings hformat common view order) h hplain
    (fun c _ => laysOut_of_compatible_eq_false (compatible_settings hformat common view order) c)
    hproper fun _ => hroot

end

end Signature
end ApiSurface
