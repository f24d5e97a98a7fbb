import ApiSurface.Proofs.RoundTrip.Lossless
import ApiSurface.Proofs.RoundTrip.ShownText

/-!
# What a text tells of a codebase

Some modifiers have no place in front of some items, and a root class that is named is not written.
Leaving them out changes nothing in the text, and what remains is told by it.
-/

namespace ApiSurface

namespace Modifiers

def ofClass (m : Modifiers) : Modifiers :=
  { m with isDefault := false, isTransient := false, isVolatile := false }

/-- The modifiers that are written in front of a method or constructor. -/
def ofMethod (m : Modifiers) : Modifiers :=
  { m with isSealed := false, isTransient := false, isVolatile := false }

def ofField (m : Modifiers) : Modifiers :=
  { m with isDefault := false, isAbstract := false, isSealed := false }

end Modifiers

/-- The method with the modifiers that are written. -/
def Method.told (m : Method) : Method :=
  { m with modifiers := m.modifiers.ofMethod }

/-- The field with the modifiers that are written. -/
def Field.told (x : Field) : Field :=
  { x with modifiers := x.modifiers.ofField }

def TypeRef.isRoot (t : TypeRef) : Bool :=
  t.name == TypeRef.object && t.arguments.isEmpty

/-- The superclass as a text tells it: a root class is the one that the name implies. -/
def ClassDecl.toldSuperclass (c : ClassDecl) : Option TypeRef :=
  if c.superclass.any TypeRef.isRoot then (declare c.package c.name c.kind).superclass
  else c.superclass

/-- The class with what is written of it and its members. -/
def ClassDecl.told (c : ClassDecl) : ClassDecl :=
  { c with
    modifiers := c.modifiers.ofClass
    superclass := c.toldSuperclass
    constructors := c.constructors.map Method.told
    methods := c.methods.map Method.told
    fields := c.fields.map Field.told }

/-- The superclass that a name implies is a root class. -/
theorem ClassDecl.isRoot_of_mem_declare
    {package name : String} {kind : ClassKind} {t : TypeRef}
    (h : t ∈ (declare package name kind).superclass) : t.isRoot = true := by
  simp only [declare] at h
  split at h
  · cases h
    rfl
  · cases h

theorem ClassDecl.told_qualifiedName (c : ClassDecl) : c.told.qualifiedName = c.qualifiedName :=
  rfl

theorem ClassDecl.toldSuperclass_told (c : ClassDecl) :
    c.told.toldSuperclass = c.toldSuperclass := by
  have hsuperclass : c.told.superclass = c.toldSuperclass := rfl
  have hdeclare :
      declare c.told.package c.told.name c.told.kind = declare c.package c.name c.kind :=
    rfl
  rw [toldSuperclass, hsuperclass, hdeclare, toldSuperclass]
  by_cases hroot : c.superclass.any TypeRef.isRoot = true
  · rw [if_pos hroot, ite_self]
  · rw [if_neg hroot, if_neg hroot]

/-- The codebase with what is written of its classes. -/
def Codebase.told (cb : Codebase) : Codebase :=
  { cb with classes := cb.classes.map ClassDecl.told ClassDecl.told_qualifiedName }

namespace Codebase

variable {cb : Codebase}

theorem mem_classes_told {c : ClassDecl} :
    c ∈ cb.told.classes.items ↔ ∃ d ∈ cb.classes.items, d.told = c :=
  List.mem_map

theorem IsIndexed.told (h : cb.IsIndexed) : cb.told.IsIndexed :=
  h.map ClassDecl.told_qualifiedName fun _ => rfl

end Codebase

namespace Signature

/-! ## The text stays -/

namespace WriteSettings

variable {s : WriteSettings} (hcompatible : s.compatible = false)

include hcompatible

theorem writesSuperclass_eq (t : TypeRef) : s.writesSuperclass t = !t.isRoot := by
  simp only [writesSuperclass, hcompatible, TypeRef.isRoot, Bool.false_or, Bool.not_and, bne]

/-- A root class is not written, whether it is named or not. -/
theorem filter_superclass_told (c : ClassDecl) :
    c.told.superclass.toList.filter s.writesSuperclass =
      c.superclass.toList.filter s.writesSuperclass := by
  have hroots : ∀ o : Option TypeRef, (∀ t ∈ o, t.isRoot = true) →
      o.toList.filter s.writesSuperclass = [] := by
    intro o ho
    rw [List.filter_eq_nil_iff]
    intro t ht
    rw [writesSuperclass_eq hcompatible, ho t (Option.mem_toList.mp ht)]
    exact Bool.false_ne_true
  rw [ClassDecl.told]
  simp only [ClassDecl.toldSuperclass]
  by_cases hroot : c.superclass.any TypeRef.isRoot = true
  · rw [if_pos hroot, hroots _ fun t ht => ?_, hroots _ fun t ht => ?_]
    · obtain ⟨u, hu, huroot⟩ := (Option.any_eq_true _ _).mp hroot
      cases hu.symm.trans ht
      exact huroot
    · exact ClassDecl.isRoot_of_mem_declare ht
  · rw [if_neg hroot]

theorem classText_told (c : ClassDecl) : s.classText c.told = s.classText c := by
  have hmembers : s.membersText c.told = s.membersText c :=
    membersText_map (f := Method.told) (g := Field.told) rfl rfl rfl rfl rfl (fun _ _ => rfl)
      (fun _ _ => rfl) (fun _ => rfl) (fun _ => rfl) (fun _ => rfl) fun _ => rfl
  have hextended : s.extendedTypes c.told = s.extendedTypes c := by
    have hkind : c.told.kind = c.kind := rfl
    have hinterfaces : c.told.interfaces = c.interfaces := rfl
    simp only [extendedTypes, filter_superclass_told hcompatible, hkind, hinterfaces]
  exact classText_congr rfl rfl rfl rfl rfl (by rw [hextended]) rfl hmembers

theorem codebaseText_told (hview : s.view = .live) {cb : Codebase} (h : cb.IsIndexed) :
    s.codebaseText cb.told = s.codebaseText cb :=
  codebaseText_map h rfl ClassDecl.told_qualifiedName (fun _ => rfl)
    (fun c => by rw [hview]; rfl) (classText_told hcompatible)

end WriteSettings

/-! ## What remains is told -/

variable {common : Option CommonPackages}

theorem isReadConstructor_told
    {name owner : String} {m : Method} (h : IsReadConstructor common name owner m) :
    IsReadConstructor common name owner m.told :=
  have ⟨⟨h₁, h₂, h₃, h₄, h₅, h₆, h₇, h₈⟩, h₉, h₁₀, h₁₁, h₁₂, h₁₃, h₁₄⟩ := h
  ⟨⟨h₁, h₂, h₃, h₄, h₅, h₆, h₇, h₈⟩, h₉, h₁₀, h₁₁, h₁₂, h₁₃, h₁₄⟩

theorem isReadMethod_told
    {owner : String} {m : Method} (h : IsReadMethod common owner m) :
    IsReadMethod common owner m.told :=
  have ⟨⟨h₁, h₂, h₃, h₄, h₅, h₆, h₇, h₈⟩, h₉, h₁₀, h₁₁, h₁₂⟩ := h
  ⟨⟨h₁, h₂, h₃, h₄, h₅, h₆, h₇, h₈⟩, h₉, h₁₀, h₁₁, h₁₂⟩

theorem isReadField_told
    {owner : String} {x : Field} (h : IsReadField common owner x) :
    IsReadField common owner x.told :=
  have ⟨⟨h₁, h₂, h₃, h₄, h₅, h₆⟩, h₇, h₈, h₉⟩ := h
  ⟨⟨h₁, h₂, h₃, h₄, h₅, h₆⟩, h₇, h₈, h₉⟩

theorem isDeclaredClass_told {c : ClassDecl} (h : IsDeclaredClass common c) :
    IsDeclaredClass common c.told where
  name := h.name
  annotations := h.annotations
  typeParameters := h.typeParameters
  superclass := by
    intro t ht
    simp only [ClassDecl.told, ClassDecl.toldSuperclass, ClassDecl.declare] at ht
    split at ht
    · split at ht
      · cases ht
        exact isLegibleType_implicitSuperclass common
      · cases ht
    · exact h.superclass t ht
  interfaces := h.interfaces
  constructors := List.forall_mem_map.mpr fun m hm => isReadConstructor_told (h.constructors m hm)
  methods := List.forall_mem_map.mpr fun m hm => isReadMethod_told (h.methods m hm)
  fields := List.forall_mem_map.mpr fun x hx => isReadField_told (h.fields x hx)
  preamble := h.preamble
  constructorsApart := List.pairwise_map.mpr h.constructorsApart
  methodsApart := List.pairwise_map.mpr h.methodsApart
  fieldsApart := List.pairwise_map.mpr h.fieldsApart
  abstracted := h.abstracted
  rootless := by
    intro hkind
    simp only [ClassDecl.told, ClassDecl.toldSuperclass, h.rootless hkind]
    rfl
  implied := by
    intro hnone
    simp only [ClassDecl.told, ClassDecl.toldSuperclass] at hnone
    split at hnone
    · exact hnone
    · exact h.implied hnone

theorem isReadCodebase_told {cb : Codebase} (h : IsReadCodebase common cb) :
    IsReadCodebase common cb.told := by
  refine ⟨h.indexed.told, fun c hc => ?_, h.packages⟩
  obtain ⟨d, hd, rfl⟩ := Codebase.mem_classes_told.mp hc
  exact isDeclaredClass_told (h.classes d hd)

/-- What is written of a class is told by the text, if no word in front of a member is taken for a
keyword and no annotation for a deprecation. -/
theorem isExpressible_told
    {c : ClassDecl} (hnamed : c.constructors ≠ [] → Modifiers.isKeyword c.name = false)
    (hmethods : ∀ m ∈ c.methods, AreOfMember m.annotations)
    (hfields : ∀ x ∈ c.fields, AreOfMember x.annotations) : IsExpressible c.told where
  named := fun hne => hnamed (by simpa [ClassDecl.told] using hne)
  modifiers := ⟨rfl, rfl, rfl⟩
  root := by
    intro t ht hname hnone
    simp only [ClassDecl.told, ClassDecl.toldSuperclass] at ht
    split at ht
    · exact ht
    · rename_i hroot
      refine absurd ((Option.any_eq_true _ _).mpr ⟨t, ht, ?_⟩) hroot
      rw [TypeRef.isRoot, hname, hnone]
      rfl
  constructors := List.forall_mem_map.mpr fun _ _ => ⟨rfl, rfl, rfl⟩
  methods := List.forall_mem_map.mpr fun m hm => ⟨⟨rfl, rfl, rfl⟩, hmethods m hm⟩
  fields := List.forall_mem_map.mpr fun x hx => ⟨⟨rfl, rfl, rfl⟩, hfields x hx⟩

end Signature
end ApiSurface
