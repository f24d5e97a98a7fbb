import ApiSurface.Proofs.RoundTrip.Text

/-!
# Codebases that are told by their text

Not everything that can be read can be written: some modifiers have no place in front of some items,
an explicit root class is not written, and a word in front of a declaration may be taken for a
keyword.  A codebase that was read and has nothing of the kind is read back from its text as the
classes and members of the view, with members in order and without states and tags.
-/

namespace ApiSurface

namespace Modifiers

/-- All modifiers that are set are written in front of a class. -/
def AreOfClass (m : Modifiers) : Prop :=
  m.isDefault = false ∧ m.isTransient = false ∧ m.isVolatile = false

/-- All modifiers that are set are written in front of a method or constructor. -/
def AreOfMethod (m : Modifiers) : Prop :=
  m.isSealed = false ∧ m.isTransient = false ∧ m.isVolatile = false

/-- All modifiers that are set are written in front of a field. -/
def AreOfField (m : Modifiers) : Prop :=
  m.isDefault = false ∧ m.isAbstract = false ∧ m.isSealed = false

end Modifiers

namespace Signature

open Scan (IsName)

/-- No annotation is taken for the keyword of annotation types, or for a deprecation. -/
def AreOfMember (annotations : List Annotation) : Prop :=
  ∀ a ∈ annotations, a.name ≠ "interface" ∧ a.isDeprecated = false

instance (m : Modifiers) : Decidable m.AreOfClass :=
  inferInstanceAs (Decidable (_ ∧ _ ∧ _))

instance (m : Modifiers) : Decidable m.AreOfMethod :=
  inferInstanceAs (Decidable (_ ∧ _ ∧ _))

instance (m : Modifiers) : Decidable m.AreOfField :=
  inferInstanceAs (Decidable (_ ∧ _ ∧ _))

instance (annotations : List Annotation) : Decidable (AreOfMember annotations) :=
  inferInstanceAs (Decidable (∀ a ∈ annotations, _))

instance (c : ClassDecl) : Decidable (HasImplicitRoot c) :=
  inferInstanceAs (Decidable (∀ t ∈ c.superclass, _))

/-- The class and its members have nothing that a text cannot tell. -/
structure IsExpressible (c : ClassDecl) : Prop where
  named : c.constructors ≠ [] → Modifiers.isKeyword c.name = false
  modifiers : c.modifiers.AreOfClass
  root : HasImplicitRoot c
  constructors : ∀ m ∈ c.constructors, m.modifiers.AreOfMethod
  methods : ∀ m ∈ c.methods, m.modifiers.AreOfMethod ∧ AreOfMember m.annotations
  fields : ∀ x ∈ c.fields, x.modifiers.AreOfField ∧ AreOfMember x.annotations

instance (c : ClassDecl) : Decidable (IsExpressible c) :=
  decidable_of_iff
    ((c.constructors ≠ [] → Modifiers.isKeyword c.name = false) ∧ c.modifiers.AreOfClass ∧
      HasImplicitRoot c ∧ (∀ m ∈ c.constructors, m.modifiers.AreOfMethod) ∧
      (∀ m ∈ c.methods, m.modifiers.AreOfMethod ∧ AreOfMember m.annotations) ∧
      ∀ x ∈ c.fields, x.modifiers.AreOfField ∧ AreOfMember x.annotations)
    ⟨fun ⟨h₁, h₂, h₃, h₄, h₅, h₆⟩ => ⟨h₁, h₂, h₃, h₄, h₅, h₆⟩,
      fun ⟨h₁, h₂, h₃, h₄, h₅, h₆⟩ => ⟨h₁, h₂, h₃, h₄, h₅, h₆⟩⟩

namespace WriteSettings

/-- No annotation is written as the keyword of annotation types. -/
def SetsApartAnnotations (s : WriteSettings) (annotations : List Annotation) : Prop :=
  ∀ a ∈ annotations, s.annotationName a.name ≠ "interface"

/-- No name in front of a declaration is written as a keyword. -/
structure SetsApart (s : WriteSettings) (c : ClassDecl) : Prop where
  annotations : s.SetsApartAnnotations c.annotations
  constructors : ∀ m ∈ c.constructors, s.SetsApartAnnotations m.annotations
  methods : ∀ m ∈ c.methods, s.SetsApartAnnotations m.annotations ∧
    (m.typeParameters = [] → ∀ t ∈ m.returnType, Modifiers.isKeyword (s.typeName t.name) = false)
  fields : ∀ x ∈ c.fields, s.SetsApartAnnotations x.annotations ∧
    Modifiers.isKeyword (s.typeName x.type.name) = false

end WriteSettings

section

variable {common : Option CommonPackages} {s : WriteSettings} {c : ClassDecl}

theorem isPlainClass_of_isExpressible
    (h : IsDeclaredClass common c) (hexpressible : IsExpressible c) (hapart : s.SetsApart c) :
    IsPlainClass s c := by
  obtain ⟨hpresent, hlasted, hsteady⟩ := hexpressible.modifiers
  refine ⟨fun a ha => (h.preamble a ha).lasting, hapart.annotations, hpresent, hlasted, hsteady,
    fun m hm => ?_, fun m hm => ?_, fun x hx => ?_⟩
  · obtain ⟨hunsealed, hlasted, hsteady⟩ := hexpressible.constructors m hm
    have hread := h.constructors m hm
    refine ⟨fun a ha => (hread.annotations a ha).lasting, hapart.constructors m hm, hunsealed,
      hlasted, hsteady, fun _ => ?_⟩
    rw [WriteSettings.frontWord, hread.returnType, hread.name]
    exact hexpressible.named (List.ne_nil_of_mem hm)
  · obtain ⟨⟨hunsealed, hlasted, hsteady⟩, hannotations⟩ := hexpressible.methods m hm
    obtain ⟨hwritten, hfront⟩ := hapart.methods m hm
    refine ⟨fun a ha => (hannotations a ha).2, hwritten, hunsealed, hlasted, hsteady,
      fun hnone => ?_⟩
    obtain ⟨t, ht⟩ := Option.isSome_iff_exists.mp (h.methods m hm).returnType
    rw [WriteSettings.frontWord, ht]
    exact hfront hnone t ht
  · obtain ⟨⟨hpresent, hconcrete, hunsealed⟩, hannotations⟩ := hexpressible.fields x hx
    obtain ⟨hwritten, hfront⟩ := hapart.fields x hx
    exact ⟨fun a ha => (hannotations a ha).2, hwritten, hpresent, hconcrete, hunsealed, hfront⟩

/-- If nothing is left off names, no name is written as a keyword. -/
theorem setsApart_of_omitted_eq_none
    (homitted : s.omitted = none) (h : IsDeclaredClass none c) (hexpressible : IsExpressible c) :
    s.SetsApart c := by
  have htype : ∀ name, s.typeName name = name := by
    intro name
    rw [WriteSettings.typeName, homitted]
  have hunmistaken : ∀ {annotations : List Annotation}, (∀ a ∈ annotations, a.name ≠ "interface") →
      s.SetsApartAnnotations annotations := by
    intro annotations hnames a ha
    rw [WriteSettings.annotationName, homitted]
    exact hnames a ha
  refine ⟨hunmistaken fun a ha => (h.preamble a ha).named rfl, fun m hm => ?_, fun m hm => ?_,
    fun x hx => ?_⟩
  · exact hunmistaken fun a ha => ((h.constructors m hm).annotations a ha).named rfl
  · have hnames : ∀ a ∈ m.annotations, a.name ≠ "interface" :=
      fun a ha => ((hexpressible.methods m hm).2 a ha).1
    refine ⟨hunmistaken hnames, fun hnone t ht => ?_⟩
    rw [htype]
    exact (h.methods m hm).front rfl hnone hnames t ht
  · have hnames : ∀ a ∈ x.annotations, a.name ≠ "interface" :=
      fun a ha => ((hexpressible.fields x hx).2 a ha).1
    rw [htype]
    exact ⟨hunmistaken hnames, (h.fields x hx).front rfl hnames⟩

theorem isPlainClass_of_mem_writtenClasses
    {cb : Codebase} (h : IsReadCodebase common cb)
    (hexpressible : ∀ c ∈ cb.classes.items, IsExpressible c)
    (hapart : ∀ c ∈ s.writtenClasses cb, s.SetsApart c) :
    ∀ c ∈ s.writtenClasses cb, IsPlainClass s c := by
  intro c hc
  have hmem := ((WriteSettings.mem_writtenClasses_iff h.indexed).mp hc).1
  exact isPlainClass_of_isExpressible (h.classes c hmem) (hexpressible c hmem) (hapart c hc)

end

section

variable {s : WriteSettings} {format : Format} (hheader : s.header = format.capabilities.header)
  {file : String} (hagree : Agree s { format.readSettings none with file }) {cb : Codebase}
  (h : IsReadCodebase none cb)

include hheader hagree h

/-- If the reader of a text agrees with its writer and nothing is left off names, the text is read
back as the view shows it. -/
theorem read_eq_published_of_isPlainClass
    (hplain : ∀ c ∈ s.writtenClasses cb, IsPlainClass s c)
    (hlayout : ∀ c ∈ s.writtenClasses cb, s.LaysOut c)
    (hroot : s.compatible = false → ∀ c ∈ cb.classes.items, HasImplicitRoot c) :
    read { file } (s.codebaseText cb) = .ok (cb.published s.view s.order) := by
  refine (read_of_agree_eq_published_iff hheader hagree h hplain hlayout (by simp) hroot).mpr ?_
  intro c _ p _ name _ _ packages hpackages
  rw [hagree.common] at hpackages
  cases hpackages

theorem read_eq_published
    (hcompatible : s.compatible = false)
    (hexpressible : ∀ c ∈ cb.classes.items, IsExpressible c) :
    read { file } (s.codebaseText cb) = .ok (cb.published s.view s.order) := by
  have homitted : s.omitted = none := hagree.common
  have hapart : ∀ c ∈ s.writtenClasses cb, s.SetsApart c := by
    intro c hc
    have hmem := ((WriteSettings.mem_writtenClasses_iff h.indexed).mp hc).1
    exact setsApart_of_omitted_eq_none homitted (h.classes c hmem) (hexpressible c hmem)
  have hplain := isPlainClass_of_mem_writtenClasses h hexpressible hapart
  exact read_eq_published_of_isPlainClass hheader hagree h hplain
    (fun c _ => laysOut_of_compatible_eq_false hcompatible c) fun _ c hc => (hexpressible c hc).root

end

/-- A codebase that was read and then given states and tags is read back from its text as a view
shows it, provided that its classes have nothing that a text cannot tell. -/
theorem read_write_eq_published
    {options : ReadOptions} (hcommon : options.common = none) {text : String} {origin cb : Codebase}
    (hread : read options text = .ok origin) (hstates : cb.bare = origin.bare)
    (hexpressible : ∀ c ∈ cb.classes.items, IsExpressible c) {format : Format}
    (hformat : format ≠ .v1) (view : View) (order : MemberOrder) :
    ∃ written, write { format, view, order } cb = .ok written ∧
      read {} written = .ok (cb.published view order) := by
  have hcb : IsReadCodebase none cb := by
    rw [← hcommon]
    exact isReadCodebase_of_states (by simp [hcommon]) hread hstates
  have hapart : ∀ c ∈ (format.settings none view order).writtenClasses cb,
      (format.settings none view order).SetsApart c := by
    intro c hc
    have hmem := ((WriteSettings.mem_writtenClasses_iff hcb.indexed).mp hc).1
    exact setsApart_of_omitted_eq_none rfl (hcb.classes c hmem) (hexpressible c hmem)
  have hplain := isPlainClass_of_mem_writtenClasses hcb hexpressible hapart
  have hkeeps : ∀ c ∈ (format.settings none view order).writtenClasses cb,
      (format.settings none view order).KeepsClass cb c :=
    fun c _ p _ name _ _ packages hpackages => absurd hpackages nofun
  refine ⟨_, write_eq hformat cb view order, ?_⟩
  exact (read_codebaseText_eq_published_iff hformat (by simp) hcb view order hplain
    fun c hc => (hexpressible c hc).root).mpr hkeeps

/-- A class whose methods are not in the order in which they are written. -/
def stackText : String :=
  "package p \x7b class Stack<T> \x7b method T pop() throws E; method T peek(int...); \x7d \x7d"

/-- The class of that text, with methods in a state. -/
def stackClass (exposure : Exposure) : ClassDecl :=
  let method (name : String) : Method :=
    { name, owner := "p.Stack", modifiers := {}, returnType := some (.named "T"), exposure }
  { ClassDecl.declare "p" "Stack" .ordinary with
    typeParameters := [{ name := "T" }]
    methods :=
      [{ method "pop" with throws := [{ name := "E", nullability := .nonNull }] },
        { method "peek" with
          parameters := [{ type := (TypeRef.named "int").array 1, varargs := true }] }] }

/-- A codebase with nothing but that class. -/
def stackOnly (exposure : Exposure) : Codebase :=
  { packages := ⟨[{ name := "p", classNames := ⟨["p.Stack"], by decide⟩ }], by decide⟩
    classes := ⟨[stackClass exposure], List.pairwise_singleton _ _⟩ }

theorem stackOnly_read_write :
    read {} stackText = .ok (stackOnly {}) ∧
      (stackOnly { lifecycle := .removed }).bare = (stackOnly {}).bare ∧
      (∀ c ∈ (stackOnly { lifecycle := .removed }).classes.items, IsExpressible c) ∧
      ∃ written, write { format := .v2, view := .removed, order := .name }
          (stackOnly { lifecycle := .removed }) = .ok written ∧
        read {} written =
          .ok ((stackOnly { lifecycle := .removed }).published .removed .name) := by
  have hread : read {} stackText = .ok (stackOnly {}) := by decide +kernel
  have hstates : (stackOnly { lifecycle := .removed }).bare = (stackOnly {}).bare := by decide
  have hexpressible : ∀ c ∈ (stackOnly { lifecycle := .removed }).classes.items,
      IsExpressible c := by decide
  exact ⟨hread, hstates, hexpressible,
    read_write_eq_published rfl hread hstates hexpressible (by decide) .removed .name⟩

end Signature
end ApiSurface
