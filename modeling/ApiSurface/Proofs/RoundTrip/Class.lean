import ApiSurface.Proofs.Index
import ApiSurface.Proofs.Reading.Member

/-!
# Classes are read back

Reading the members of a class adds them one by one, so reading a class that was written is the same
as folding over what its members are read back as.  Adding a member fails if the class has one like
it already, which depends on the names that types are read back with.
-/

namespace ApiSurface

namespace Signature

open Scan (IsName Spells Apart Anything)

namespace Source

/-! ## One member -/

section

variable {src : Source} {s : WriteSettings} (hagree : Agree s src.settings)

include hagree

theorem readsTo_constructor
    {o c : ClassDecl} {m : Method} (h : IsLegibleMethod src.settings.common m)
    (hplain : IsPlainMethod s m) (hfinal : s.impliesFinal o = true → m.modifiers.isFinal = false)
    (hname : m.name = c.name) (howner : m.owner = c.qualifiedName)
    (hreturn : m.returnType = none) (hdefault : m.defaultValue = none)
    (hsynthetic : m.synthetic = false) :
    ReadsTo (src.readMember c) (fun _ => True)
      (.word (if m.isConstructor then "ctor" else "method") :: s.methodSigns o m)
      (c.addConstructor
        (rereadMethod ((src.within (s.declaredBy m.typeParameters)).restored s) m)) := by
  intro ts others _ hts
  obtain ⟨ts', hread, hts'⟩ := readsAs_constructor hagree h hplain hfinal hname howner hreturn
    hdefault hsynthetic ts.tail others trivial hts.tail
  have hword : atWord "ctor" ts = true := by
    rw [atWord_of_renders hts, Method.isConstructor, hreturn]
    rfl
  refine ⟨ts', hts', ?_⟩
  simp only [readMember, hword, if_true, hread, ok_bind]
  cases c.addConstructor _ <;> rfl

theorem readsTo_method
    {o c : ClassDecl} {m : Method} (h : IsLegibleMethod src.settings.common m)
    (hplain : IsPlainMethod s m) (hfinal : s.impliesFinal o = true → m.modifiers.isFinal = false)
    (howner : m.owner = c.qualifiedName)
    (hreturn : m.returnType.isSome = true) (hsynthetic : m.synthetic = false) :
    ReadsTo (src.readMember c) (fun _ => True)
      (.word (if m.isConstructor then "ctor" else "method") :: s.methodSigns o m)
      (c.addMethod (rereadMethod ((src.within (s.declaredBy m.typeParameters)).restored s) m)) := by
  intro ts others _ hts
  obtain ⟨ts', hread, hts'⟩ := readsAs_method hagree h hplain hfinal howner hreturn hsynthetic
    ts.tail others trivial hts.tail
  have hkind : m.isConstructor = false := by
    rw [Method.isConstructor, Option.isNone_eq_false_iff]
    exact hreturn
  rw [hkind] at hts
  have hctor : atWord "ctor" ts = false := atWord_of_renders hts "ctor"
  have hword : atWord "method" ts = true := atWord_of_renders hts "method"
  refine ⟨ts', hts', ?_⟩
  simp only [readMember, hctor, hword, Bool.false_eq_true, if_false, if_true, hread, ok_bind]
  cases c.addMethod _ <;> rfl

theorem readsTo_field
    {c : ClassDecl} {x : Field} (h : IsLegibleField src.settings.common x)
    (hplain : IsPlainField s x)
    (howner : x.owner = c.qualifiedName) (hsynthetic : x.synthetic = false) :
    ReadsTo (src.readMember c) (fun _ => True)
      (.word (if x.isEnumConstant then "enum_constant" else "field") :: s.fieldSigns x)
      (c.addField (rereadField (src.restored s) x)) := by
  intro ts others _ hts
  obtain ⟨ts', hread, hts'⟩ :=
    readsAs_field hagree h hplain howner hsynthetic ts.tail others trivial
    hts.tail
  refine ⟨ts', hts', ?_⟩
  cases hkind : x.isEnumConstant with
  | true =>
    rw [hkind] at hts hread
    have hctor : atWord "ctor" ts = false := atWord_of_renders hts "ctor"
    have hmethod : atWord "method" ts = false := atWord_of_renders hts "method"
    have hfield : atWord "field" ts = false := atWord_of_renders hts "field"
    have hword : atWord "enum_constant" ts = true := atWord_of_renders hts "enum_constant"
    simp only [readMember, hctor, hmethod, hfield, hword, Bool.false_eq_true, if_false, if_true,
      hread, ok_bind]
    cases c.addField _ <;> rfl
  | false =>
    rw [hkind] at hts hread
    have hctor : atWord "ctor" ts = false := atWord_of_renders hts "ctor"
    have hmethod : atWord "method" ts = false := atWord_of_renders hts "method"
    have hword : atWord "field" ts = true := atWord_of_renders hts "field"
    simp only [readMember, hctor, hmethod, hword, Bool.false_eq_true, if_false, if_true, hread,
      ok_bind]
    cases c.addField _ <;> rfl

end

/-! ## All members -/

/-- For a class with the property `P`, the signs are read as members up to the end of the class,
which comes to the outcome that `k` tells. -/
def MembersReadTo (src : Source) (P : ClassDecl → Prop) (signs : List Sign)
    (k : ClassDecl → Except Fault ClassDecl) : Prop :=
  ∀ c rounds ts others, P c → ts.length < rounds → Renders ts (signs ++ others) →
    ∃ ts', Renders ts' others ∧ src.readMembers rounds c ts = (k c).map fun d => (d, ts')

theorem membersReadTo_close (src : Source) (P : ClassDecl → Prop) :
    MembersReadTo src P [.mark Token.closeBrace] .ok := by
  intro c rounds ts others _ hrounds hts
  obtain ⟨rounds, rfl⟩ : ∃ n, rounds = n + 1 := ⟨rounds - 1, by omega⟩
  have hclose : atMark Token.closeBrace ts = true := atMark_of_renders hts Token.closeBrace
  refine ⟨ts.tail, hts.tail, ?_⟩
  rw [readMembers, hclose]
  rfl

/-- Reading members one behind the other is adding them one by one. -/
theorem MembersReadTo.fold
    {α : Type} {src : Source} {P : ClassDecl → Prop} {signs : α → List Sign}
    {add : ClassDecl → α → Except Fault ClassDecl} {xs : List α} {others : List Sign}
    {k : ClassDecl → Except Fault ClassDecl} (hothers : MembersReadTo src P others k)
    (hstart : ∀ x ∈ xs, ∃ word more, signs x = .word word :: more)
    (hread : ∀ c x, P c → x ∈ xs →
      ReadsTo (src.readMember c) (fun _ => True) (signs x) (add c x))
    (hkeep : ∀ c x d, P c → add c x = .ok d → P d) :
    MembersReadTo src P (xs.flatMap signs ++ others) fun c => xs.foldlM add c >>= k := by
  induction xs with
  | nil => exact hothers
  | cons x xs ih =>
    have ih := ih (fun y hy => hstart y (List.mem_cons_of_mem _ hy))
      fun d y hd hy => hread d y hd (List.mem_cons_of_mem _ hy)
    intro c rounds ts rest hc hrounds hts
    obtain ⟨rounds, rfl⟩ : ∃ n, rounds = n + 1 := ⟨rounds - 1, by omega⟩
    rw [List.flatMap_cons, List.append_assoc, List.append_assoc,
      ← List.append_assoc _ _ rest] at hts
    obtain ⟨ts₁, hts₁, hmember⟩ := hread c x hc List.mem_cons_self ts _ trivial hts
    obtain ⟨word, more, hword⟩ := hstart x List.mem_cons_self
    have hlength := hts.length_eq
    have hlength₁ := hts₁.length_eq
    rw [hword] at hts hlength
    have hopen : atMark Token.closeBrace ts = false := atMark_eq_false hts notAt_word
    rw [readMembers, hopen, if_neg Bool.false_ne_true, hmember]
    simp only [List.foldlM_cons]
    cases hadd : add c x with
    | error fault =>
      obtain ⟨us, vs, -, -, hvs⟩ := hts₁.of_append
      exact ⟨vs, hvs, rfl⟩
    | ok d =>
      have hshorter : ts₁.length < rounds := by
        simp only [List.length_append, List.length_cons] at hlength hlength₁
        omega
      exact ih d rounds ts₁ rest (hkeep c x d hc hadd) hshorter hts₁

end Source

/-! ## Classes -/

/-- What is known of a class that was read, apart from its members being told apart. -/
structure IsReadClass (common : Option CommonPackages) (c : ClassDecl) : Prop where
  name : IsName c.name
  annotations : AreTypeAnnotations common c.annotations
  typeParameters : ∀ p ∈ c.typeParameters, IsLegibleVariable common p
  superclass : ∀ t ∈ c.superclass, IsLegibleType common t ∧ IsNonNull t
  interfaces : ∀ t ∈ c.interfaces, IsLegibleType common t ∧ IsNonNull t
  constructors : ∀ m ∈ c.constructors, IsReadConstructor common c.name c.qualifiedName m
  methods : ∀ m ∈ c.methods, IsReadMethod common c.qualifiedName m
  fields : ∀ x ∈ c.fields, IsReadField common c.qualifiedName x

/-- The preamble of the class and those of its members are read as they were written. -/
structure IsPlainClass (s : WriteSettings) (c : ClassDecl) : Prop where
  lasting : ∀ a ∈ c.annotations, a.isDeprecated = false
  written : ∀ a ∈ c.annotations, s.annotationName a.name ≠ "interface"
  present : c.modifiers.isDefault = false
  lasted : c.modifiers.isTransient = false
  steady : c.modifiers.isVolatile = false
  constructors : ∀ m ∈ c.constructors, IsPlainMethod s m
  methods : ∀ m ∈ c.methods, IsPlainMethod s m
  fields : ∀ x ∈ c.fields, IsPlainField s x

/-- The layout loses nothing of the class: a method that is not written as final is not final, and
supertypes with nothing between them look like the next one. -/
structure WriteSettings.LaysOut (s : WriteSettings) (c : ClassDecl) : Prop where
  interfaces : s.compatible = true → ∀ t ∈ c.interfaces, s.CanFollow t
  constructors : s.impliesFinal c = true → ∀ m ∈ c.constructors, m.modifiers.isFinal = false
  methods : s.impliesFinal c = true → ∀ m ∈ c.methods, m.modifiers.isFinal = false

/-- Only the compatible layout loses anything. -/
theorem laysOut_of_compatible_eq_false
    {s : WriteSettings} (h : s.compatible = false) (c : ClassDecl) : s.LaysOut c := by
  have hnever : s.impliesFinal c = false := by rw [WriteSettings.impliesFinal, h, Bool.false_and]
  refine ⟨fun h' => ?_, fun h' => ?_, fun h' => ?_⟩
  · rw [h] at h'
    cases h'
  · rw [hnever] at h'
    cases h'
  · rw [hnever] at h'
    cases h'

/-- The signs of the word in front of the name of a class. -/
def kindSigns : ClassKind → List Sign
  | .ordinary => [.word "class"]
  | .interface => [.word "interface"]
  | .enumeration => [.word "enum"]
  | .annotationType => [.mark "@", .word "interface"]

namespace WriteSettings

/-- The constructors or methods of a list that are written, in the order of the text. -/
def writtenMethods (s : WriteSettings) (methods : List Method) : List Method :=
  (s.order.sortMethods methods).filter s.view.showsMethod

/-- The fields of a list that are written, in the order of the text. -/
def writtenFields (s : WriteSettings) (fields : List Field) : List Field :=
  (s.order.sortFields fields).filter s.view.showsField

/-- The signs of a method of a class with the word that tells what it is. -/
def methodLineSigns (s : WriteSettings) (c : ClassDecl) (m : Method) : List Sign :=
  .word (if m.isConstructor then "ctor" else "method") :: s.methodSigns c m

/-- The signs of a field with the word that tells what it is. -/
def fieldLineSigns (s : WriteSettings) (x : Field) : List Sign :=
  .word (if x.isEnumConstant then "enum_constant" else "field") :: s.fieldSigns x

def membersSigns (s : WriteSettings) (c : ClassDecl) : List Sign :=
  (s.writtenMethods c.constructors).flatMap (s.methodLineSigns c) ++
    ((s.writtenMethods c.methods).flatMap (s.methodLineSigns c) ++
      (s.writtenFields c.fields).flatMap s.fieldLineSigns)

def bodySigns (s : WriteSettings) (c : ClassDecl) : List Sign :=
  s.supertypesSigns "extends" (s.extendedTypes c) ++
    (s.supertypesSigns "implements" (s.implementedTypes c) ++
      .mark Token.openBrace :: (s.membersSigns c ++ [.mark Token.closeBrace]))

def classSigns (s : WriteSettings) (c : ClassDecl) : List Sign :=
  s.preambleSigns c.annotations (s.marksDeprecated c.modifiers) (s.classWords c) ++
    (kindSigns c.kind ++ .word c.name :: (s.typeParametersSigns c.typeParameters ++ s.bodySigns c))

theorem mem_of_mem_writtenMethods
    {s : WriteSettings} {methods : List Method} {m : Method} (h : m ∈ s.writtenMethods methods) :
    m ∈ methods :=
  List.mem_mergeSort.mp (List.mem_filter.mp h).1

theorem mem_of_mem_writtenFields
    {s : WriteSettings} {fields : List Field} {x : Field} (h : x ∈ s.writtenFields fields) :
    x ∈ fields :=
  List.mem_mergeSort.mp (List.mem_filter.mp h).1

theorem mem_of_mem_extendedTypes
    {s : WriteSettings} {c : ClassDecl} {t : TypeRef} (h : t ∈ s.extendedTypes c) :
    t ∈ c.superclass ∨ t ∈ c.interfaces := by
  rw [extendedTypes] at h
  split at h
  · split at h
    · cases h
    · exact .inr h
  · cases h
  · exact .inl (Option.mem_toList.mp (List.mem_filter.mp h).1)
  · exact .inl (Option.mem_toList.mp (List.mem_filter.mp h).1)

/-- In the compatible layout at most one type stands behind `extends`. -/
theorem length_extendedTypes
    (s : WriteSettings) (hcompatible : s.compatible = true) (c : ClassDecl) :
    (s.extendedTypes c).length ≤ 1 := by
  have hsuperclass : (c.superclass.toList.filter s.writesSuperclass).length ≤ 1 :=
    (List.length_filter_le _ _).trans (by cases c.superclass <;> simp)
  rw [extendedTypes, hcompatible]
  cases c.kind with
  | interface => exact Nat.zero_le 1
  | annotationType => exact Nat.zero_le 1
  | ordinary => exact hsuperclass
  | enumeration => exact hsuperclass

theorem mem_of_mem_implementedTypes
    {s : WriteSettings} {c : ClassDecl} {t : TypeRef} (h : t ∈ s.implementedTypes c) :
    t ∈ c.interfaces := by
  rw [implementedTypes] at h
  split at h
  · split at h
    · exact h
    · cases h
  all_goals exact h

end WriteSettings

theorem spells_kind (kind : ClassKind) :
    Spells Anything (kind.keyword ++ " ") (kindSigns kind) := by
  have hat : Spells Anything "@" [.mark "@"] := Scan.spells_mark (by decide)
  cases kind with
  | ordinary => exact Scan.spells_word (show IsName "class" by decide)
  | interface => exact Scan.spells_word (show IsName "interface" by decide)
  | enumeration => exact Scan.spells_word (show IsName "enum" by decide)
  | annotationType => exact hat.seq (Scan.spells_word (show IsName "interface" by decide))

theorem IsReadClass.supertypes
    {common : Option CommonPackages} {c : ClassDecl} (h : IsReadClass common c)
    (s : WriteSettings) :
    (∀ t ∈ s.extendedTypes c, IsLegibleType common t ∧ IsNonNull t) ∧
      ∀ t ∈ s.implementedTypes c, IsLegibleType common t ∧ IsNonNull t := by
  refine ⟨fun t ht => ?_, fun t ht => h.interfaces t (WriteSettings.mem_of_mem_implementedTypes ht)⟩
  rcases WriteSettings.mem_of_mem_extendedTypes ht with ht | ht
  · exact h.superclass t ht
  · exact h.interfaces t ht

theorem spells_members
    {common : Option CommonPackages} {s : WriteSettings} {r : ReadSettings} (hagree : Agree s r)
    {c : ClassDecl} (h : IsReadClass common c) :
    Spells Anything (s.membersText c) (s.membersSigns c) := by
  have hconstructors : Spells Anything
      (String.join ((s.writtenMethods c.constructors).map (s.methodText c)))
      ((s.writtenMethods c.constructors).flatMap (s.methodLineSigns c)) :=
    Scan.spells_concat fun m hm =>
      spells_method hagree c (h.constructors m (WriteSettings.mem_of_mem_writtenMethods hm)).legible
  have hmethods : Spells Anything (String.join ((s.writtenMethods c.methods).map (s.methodText c)))
      ((s.writtenMethods c.methods).flatMap (s.methodLineSigns c)) :=
    Scan.spells_concat fun m hm =>
      spells_method hagree c (h.methods m (WriteSettings.mem_of_mem_writtenMethods hm)).legible
  have hfields : Spells Anything (String.join ((s.writtenFields c.fields).map s.fieldText))
      ((s.writtenFields c.fields).flatMap s.fieldLineSigns) :=
    Scan.spells_concat fun x hx =>
      spells_field hagree (h.fields x (WriteSettings.mem_of_mem_writtenFields hx)).legible
  have hspells := hconstructors.seq (hmethods.seq hfields)
  rw [WriteSettings.membersText, List.filter_append, List.map_append, String.join_append,
    String.append_assoc]
  exact hspells

theorem apart_supertypes
    (s : WriteSettings) (types : List TypeRef) {lead : String}
    (hlead : ∀ rest, Apart (lead.toList ++ rest)) {rest : List Char} (h : Apart rest) :
    Apart ((s.supertypesText lead types).toList ++ rest) := by
  cases types with
  | nil => exact h
  | cons t ts =>
    rw [WriteSettings.supertypesText, String.toList_append, List.append_assoc]
    exact hlead _
    exact List.cons_ne_nil t ts

theorem apart_typeParameters
    (s : WriteSettings) (ps : List TypeParameter) {rest : List Char} (h : Apart rest) :
    Apart ((s.typeParametersText ps).toList ++ rest) := by
  cases ps with
  | nil => exact h
  | cons p ps =>
    simp only [WriteSettings.typeParametersText, String.toList_append, List.append_assoc]
    exact .cons (by decide)

/-- The text of a class behind its type variables. -/
def WriteSettings.bodyText (s : WriteSettings) (c : ClassDecl) : String :=
  s.supertypesText " extends " (s.extendedTypes c) ++
    (s.supertypesText " implements " (s.implementedTypes c) ++
      (" " ++ (Token.openBrace ++ ("\n" ++ (s.membersText c ++
        ("  " ++ (Token.closeBrace ++ "\n\n")))))))

theorem apart_body (s : WriteSettings) (c : ClassDecl) (rest : List Char) :
    Apart ((s.bodyText c).toList ++ rest) := by
  have hspace : ∀ rest, Apart (' ' :: rest) := fun rest => .cons (by decide)
  have hextends : ∀ rest, Apart (" extends ".toList ++ rest) := fun rest => hspace _
  have himplements : ∀ rest, Apart (" implements ".toList ++ rest) := fun rest => hspace _
  rw [WriteSettings.bodyText, String.toList_append, List.append_assoc, String.toList_append,
    List.append_assoc, String.toList_append, List.append_assoc]
  exact apart_supertypes s _ hextends (apart_supertypes s _ himplements (hspace _))

theorem spells_body
    {common : Option CommonPackages} {s : WriteSettings} {r : ReadSettings} (hagree : Agree s r)
    {c : ClassDecl} (h : IsReadClass common c) :
    Spells Anything (s.bodyText c) (s.bodySigns c) := by
  have hindent : Spells Anything "  " [] := Scan.spells_blank (by decide)
  have hblank : Spells Anything " " [] := Scan.spells_blank (by decide)
  have hnewline : Spells Anything "\n" [] := Scan.spells_blank (by decide)
  have hgap : Spells Anything "\n\n" [] := Scan.spells_blank (by decide)
  have hopen : Spells Anything Token.openBrace [.mark Token.openBrace] :=
    Scan.spells_mark (by decide)
  have hclose : Spells Anything Token.closeBrace [.mark Token.closeBrace] :=
    Scan.spells_mark (by decide)
  have hword : Spells Anything " implements " [.word "implements"] :=
    hblank.seq (Scan.spells_word (show IsName "implements" by decide))
  have hapart : ∀ rest, Apart (" implements ".toList ++ rest) := fun rest => .cons (by decide)
  have hextends := spells_supertypes hagree.annotations
    (fun t ht => ((h.supertypes s).1 t ht).1) spells_extends
  have himplements := spells_supertypes hagree.annotations
    (fun t ht => ((h.supertypes s).2 t ht).1) hword
  have hmembers := hblank.seq (hopen.seq (hnewline.seq ((spells_members hagree h).seq
    (hindent.seq (hclose.seq hgap)))))
  have hbehind := himplements.append hmembers fun rest _ => by
    rw [String.toList_append, List.append_assoc]
    exact .cons (by decide)
  have hspells := hextends.append hbehind fun rest _ => by
    rw [String.toList_append, List.append_assoc, String.toList_append, List.append_assoc]
    exact apart_supertypes s _ hapart (.cons (by decide))
  simp only [List.nil_append, List.append_nil, List.cons_append] at hspells
  exact hspells

theorem classText_eq (s : WriteSettings) (c : ClassDecl) :
    s.classText c = "  " ++ (s.itemAnnotationsText c.annotations c.modifiers.isDeprecated ++
      (s.classModifiersText c ++ (c.kind.keyword ++ " " ++ (c.name ++
        (s.typeParametersText c.typeParameters ++ s.bodyText c))))) := by
  unfold WriteSettings.classText WriteSettings.bodyText
  simp only [String.append_assoc]

theorem spells_class
    {common : Option CommonPackages} {s : WriteSettings} {r : ReadSettings} (hagree : Agree s r)
    {c : ClassDecl} (h : IsReadClass common c) :
    Spells Anything (s.classText c) (s.classSigns c) := by
  have hindent : Spells Anything "  " [] := Scan.spells_blank (by decide)
  have hannotations := spells_itemAnnotations hagree.annotations
    (fun a ha => (h.annotations a ha).1) c.modifiers
  have hmodifiers := spells_classModifiers s c
  have hvariables := spells_typeParameters hagree.annotations h.typeParameters
  have hname := (Scan.spells_name h.name).append (hvariables.seq (spells_body hagree h))
    fun rest _ => by
      rw [String.toList_append, List.append_assoc]
      exact (apart_typeParameters s _ (apart_body s c rest)).nameEnds
  have hspells := hindent.seq (hannotations.seq (hmodifiers.seq ((spells_kind c.kind).seq hname)))
  rw [classText_eq, WriteSettings.classSigns, WriteSettings.preambleSigns, List.append_assoc]
  exact hspells

/-! ## Reading a class -/

theorem preambleEnds_kind (kind : ClassKind) (signs : List Sign) :
    PreambleEnds (kindSigns kind ++ signs) := by
  cases kind with
  | ordinary => exact preambleEnds_word (by decide) signs
  | interface => exact preambleEnds_word (by decide) signs
  | enumeration => exact preambleEnds_word (by decide) signs
  | annotationType => exact preambleEnds_interface signs

theorem notAt_body (s : WriteSettings) (c : ClassDecl) (signs : List Sign) :
    NotAt "<" (s.bodySigns c ++ signs) := by
  rw [WriteSettings.bodySigns]
  cases s.extendedTypes c with
  | cons t us => exact notAt_word
  | nil =>
    cases s.implementedTypes c with
    | cons t us => exact notAt_word
    | nil => exact notAt_mark.mpr (by decide)

theorem Source.readsAs_kind (src : Source) (kind : ClassKind) :
    ReadsAs src.readKind (fun _ => True) (kindSigns kind) kind := by
  intro ts others _ hts
  have hclass := atWord_of_renders hts "class"
  have hinterface := atWord_of_renders hts "interface"
  have henum := atWord_of_renders hts "enum"
  cases kind with
  | ordinary =>
    refine ⟨ts.tail, ?_, hts.tail⟩
    rw [readKind, hclass]
    rfl
  | interface =>
    refine ⟨ts.tail, ?_, hts.tail⟩
    rw [readKind, hclass, hinterface]
    rfl
  | enumeration =>
    refine ⟨ts.tail, ?_, hts.tail⟩
    rw [readKind, hclass, hinterface, henum]
    rfl
  | annotationType =>
    refine ⟨ts.tail.tail, ?_, hts.tail.tail⟩
    rw [readKind, hclass, hinterface, henum, atMark_of_renders hts "@",
      atWord_of_renders hts.tail "interface"]
    rfl

/-- The class without members that is read where a class is written. -/
def WriteSettings.rereadShell (s : WriteSettings) (f : String → String) (c : ClassDecl) :
    ClassDecl :=
  let declared := (ClassDecl.declare c.package c.name c.kind).withModifiers
    { c.modifiers with isAbstract := s.writesAbstract c }
  let extended := Source.extend
    { declared with
      annotations := c.annotations
      typeParameters := c.typeParameters.map (rereadVariable f) }
    ((s.extendedTypes c).map (reread f))
  { extended with
    interfaces := extended.interfaces ++ (s.implementedTypes c).map (reread f) }

namespace Source

/-- What the written form of a name stands for behind type variables. -/
def restoredBehind (src : Source) (s : WriteSettings) (ps : List TypeParameter) : String → String :=
  (src.within (s.declaredBy ps)).restored s

/-- A class with the members added that are read where those of another class are written. -/
def rereadMembers (src : Source) (s : WriteSettings) (c d : ClassDecl) :
    Except Fault ClassDecl := do
  let method (m : Method) : Method := rereadMethod (src.restoredBehind s m.typeParameters) m
  let d ← (s.writtenMethods c.constructors).foldlM (fun d m => d.addConstructor (method m)) d
  let d ← (s.writtenMethods c.methods).foldlM (fun d m => d.addMethod (method m)) d
  (s.writtenFields c.fields).foldlM (fun d x => d.addField (rereadField (src.restored s) x)) d

/-- The class that is read where a class is written, from inside the class. -/
def rereadClass (src : Source) (s : WriteSettings) (c : ClassDecl) : Except Fault ClassDecl :=
  src.rereadMembers s c (s.rereadShell (src.restored s) c)

/-- The source inside a class, where the type variables of the class and of the classes around
it are in scope. -/
def inside (src : Source) (s : WriteSettings) (cb : Codebase) (c : ClassDecl) : Source :=
  { src with
    scope := ((cb.enclosing c).flatMap fun o => o.typeParameters.map TypeParameter.name) ++
      s.declaredBy c.typeParameters }

theorem extend_name (c : ClassDecl) (types : List TypeRef) :
    (extend c types).package = c.package ∧ (extend c types).name = c.name := by
  rw [extend.eq_def]
  split
  · exact ⟨rfl, rfl⟩
  · split <;> exact ⟨rfl, rfl⟩

end Source

theorem rereadShell_name (s : WriteSettings) (f : String → String) (c : ClassDecl) :
    (s.rereadShell f c).package = c.package ∧ (s.rereadShell f c).name = c.name :=
  Source.extend_name _ _

namespace Source

/-- A class from its type variables on, read from inside the class. -/
def readBody (src : Source) (d : ClassDecl) : Reader ClassDecl := fun ts => do
  let (typeParameters, ts) ← src.readTypeParameters ts
  let (extended, ts) ← src.readSupertypesAfter "extends" ts
  let (implemented, ts) ← src.readSupertypesAfter "implements" ts
  let c := extend { d with typeParameters } extended
  let c := { c with interfaces := c.interfaces ++ implemented }
  let ts ← src.expectMark Token.openBrace ts
  src.readMembers (ts.length + 1) c ts

/-- The class that a head declares: its name, kind, modifiers and annotations. -/
def declared (package name : String) (kind : ClassKind) (p : Preamble) : ClassDecl :=
  { (ClassDecl.declare package name kind).withModifiers p.modifiers with
    annotations := withoutNullness p.annotations }

/-- A class is read as its head and its body. -/
theorem readClass_of_head
    {src : Source} {ts ts₁ ts₂ ts₃ : List Token} {p : Preamble} {kind : ClassKind} {name : String}
    (hpreamble : src.readPreamble ts = .ok (p, ts₁)) (hkind : src.readKind ts₁ = .ok (kind, ts₂))
    (hname : src.expectName "class name" ts₂ = .ok (name, ts₃)) (cb : Codebase) (package : String) :
    src.readClass cb package ts =
      readBody
        { src with scope := ((cb.enclosing (declared package name kind p)).flatMap fun o =>
            o.typeParameters.map TypeParameter.name) ++ variablesAhead ts₃ }
        (declared package name kind p) ts₃ := by
  simp only [readClass, hpreamble, hkind, hname, ok_bind, readBody, declared]

section

variable {src : Source} {s : WriteSettings} (hagree : Agree s src.settings) {c : ClassDecl}
  (h : IsReadClass src.settings.common c) (hplain : IsPlainClass s c) (hlayout : s.LaysOut c)

include hagree h hplain hlayout

/-- The members of a class are read up to the closing brace. -/
theorem membersReadTo_members :
    MembersReadTo src (fun d => d.package = c.package ∧ d.name = c.name)
      (s.membersSigns c ++ [.mark Token.closeBrace]) (src.rereadMembers s c) := by
  let P (d : ClassDecl) : Prop := d.package = c.package ∧ d.name = c.name
  have hqualified : ∀ d, P d → d.qualifiedName = c.qualifiedName := by
    rintro d ⟨hpackage, hname⟩
    rw [ClassDecl.qualifiedName, ClassDecl.qualifiedName, hpackage, hname]
  have hconstructor : ∀ d m, P d → m ∈ s.writtenMethods c.constructors →
      ReadsTo (src.readMember d) (fun _ => True) (s.methodLineSigns c m)
        (d.addConstructor (rereadMethod (src.restoredBehind s m.typeParameters) m)) := by
    intro d m hd hm
    have hm := WriteSettings.mem_of_mem_writtenMethods hm
    have hread := h.constructors m hm
    exact readsTo_constructor hagree hread.legible (hplain.constructors m hm)
      (fun himplied => hlayout.constructors himplied m hm) (hread.name.trans hd.2.symm)
      (hread.owner.trans (hqualified d hd).symm) hread.returnType hread.defaultValue
      hread.synthetic
  have hmethod : ∀ d m, P d → m ∈ s.writtenMethods c.methods →
      ReadsTo (src.readMember d) (fun _ => True) (s.methodLineSigns c m)
        (d.addMethod (rereadMethod (src.restoredBehind s m.typeParameters) m)) := by
    intro d m hd hm
    have hm := WriteSettings.mem_of_mem_writtenMethods hm
    have hread := h.methods m hm
    exact readsTo_method hagree hread.legible (hplain.methods m hm)
      (fun himplied => hlayout.methods himplied m hm) (hread.owner.trans (hqualified d hd).symm)
      hread.returnType hread.synthetic
  have hfield : ∀ d x, P d → x ∈ s.writtenFields c.fields →
      ReadsTo (src.readMember d) (fun _ => True) (s.fieldLineSigns x)
        (d.addField (rereadField (src.restored s) x)) := by
    intro d x hd hx
    have hx := WriteSettings.mem_of_mem_writtenFields hx
    have hread := h.fields x hx
    exact readsTo_field hagree hread.legible (hplain.fields x hx)
      (hread.owner.trans (hqualified d hd).symm) hread.synthetic
  have hfields := (membersReadTo_close src P).fold (fun _ _ => ⟨_, _, rfl⟩) hfield
    fun d x e hd hadd => by rw [(ClassDecl.addField_eq_ok.mp hadd).2]; exact hd
  have hmethods := hfields.fold (fun _ _ => ⟨_, _, rfl⟩) hmethod
    fun d m e hd hadd => by rw [(ClassDecl.addMethod_eq_ok.mp hadd).2]; exact hd
  have hall := hmethods.fold (fun _ _ => ⟨_, _, rfl⟩) hconstructor
    fun d m e hd hadd => by rw [(ClassDecl.addConstructor_eq_ok.mp hadd).2]; exact hd
  have hpure : ∀ x : Except Fault ClassDecl, x >>= Except.ok = x := fun x => by cases x <;> rfl
  simp only [hpure] at hall
  rw [WriteSettings.membersSigns, List.append_assoc, List.append_assoc]
  exact hall

/-- The body of a class is read back as if its members were added one by one. -/
theorem readsTo_body
    {d : ClassDecl} (hd : d = { (ClassDecl.declare c.package c.name c.kind).withModifiers
      { c.modifiers with isAbstract := s.writesAbstract c } with annotations := c.annotations }) :
    ReadsTo (src.readBody d) (fun _ => True)
      (s.typeParametersSigns c.typeParameters ++ s.bodySigns c) (src.rereadClass s c) := by
  intro ts others _ hts
  simp only [WriteSettings.bodySigns, List.append_assoc, List.cons_append] at hts
  have hlist : At [.mark Token.openBrace, .word "implements"]
      (s.supertypesSigns "implements" (s.implementedTypes c) ++ (.mark Token.openBrace ::
        (s.membersSigns c ++ ([.mark Token.closeBrace] ++ others)))) := by
    cases s.implementedTypes c with
    | cons t us => exact .cons (by decide) _
    | nil => exact .cons (by decide) _
  obtain ⟨ts₁, hvariables, hts₁⟩ := readsAs_typeParameters hagree h.typeParameters ts _
    (notAt_body s c others) (by simpa only [WriteSettings.bodySigns, List.append_assoc,
      List.cons_append] using hts)
  simp only [WriteSettings.bodySigns, List.append_assoc, List.cons_append] at hts₁
  obtain ⟨ts₂, hextends, hts₂⟩ := readsAs_supertypesAfter hagree
    (fun t ht => ((h.supertypes s).1 t ht).1) (fun t ht => ((h.supertypes s).1 t ht).2)
    (by decide) (by decide) (fun hcompatible hmany => absurd hmany
      (Nat.not_lt.mpr (s.length_extendedTypes hcompatible c))) ts₁ _ hlist hts₁
  obtain ⟨ts₃, himplements, hts₃⟩ := readsAs_supertypesAfter hagree
    (fun t ht => ((h.supertypes s).2 t ht).1) (fun t ht => ((h.supertypes s).2 t ht).2)
    (by decide) (by decide) (fun hcompatible _ t ht => hlayout.interfaces hcompatible t
      (WriteSettings.mem_of_mem_implementedTypes ht)) ts₂ _
      (At.cons (List.mem_singleton.mpr rfl) _) hts₂
  obtain ⟨ts₄, hopen, hts₄⟩ := src.expectMark_of_renders hts₃
  rw [← List.append_assoc] at hts₄
  obtain ⟨ts₅, hts₅, hmembers⟩ := membersReadTo_members hagree h hplain hlayout
    (s.rereadShell (src.restored s) c) (ts₄.length + 1) ts₄ others
    (rereadShell_name s _ c) (Nat.lt_succ_self _) hts₄
  refine ⟨ts₅, hts₅, ?_⟩
  simp only [readBody, hvariables, hextends, himplements, hopen, ok_bind]
  rw [rereadClass, ← hmembers, hd]
  rfl

/-- A class is read back as if its members were added one by one. -/
theorem readsTo_class (cb : Codebase) :
    ReadsTo (src.readClass cb c.package) (fun _ => True) (s.classSigns c)
      ((src.inside s cb c).rereadClass s c) := by
  have hinside : Agree s (src.inside s cb c).settings := hagree
  have hitem : ∀ a ∈ c.annotations, IsItemAnnotation s src.settings.common a :=
    fun a ha => ⟨(h.annotations a ha).1, hplain.lasting a ha, hplain.written a ha⟩
  have hkept : withoutNullness c.annotations = c.annotations :=
    List.filter_eq_self.mpr fun a ha => by rw [(h.annotations a ha).2]; rfl
  intro ts others _ hts
  simp only [WriteSettings.classSigns, List.append_assoc, List.cons_append] at hts
  obtain ⟨ts₁, hpreamble, hts₁⟩ := readsAs_preamble_alone hagree hitem
    (fun _ => isKeyword_of_mem_classWords) (s.marksDeprecated c.modifiers) ts _
    (preambleEnds_kind c.kind _) hts
  obtain ⟨ts₂, hkind, hts₂⟩ := src.readsAs_kind c.kind ts₁ _ trivial hts₁
  obtain ⟨ts₃, hname, hts₃⟩ := src.expectName_of_renders "class name" hts₂
  have hahead := s.variablesAhead_of_renders hagree.annotations h.typeParameters
    (notAt_body s c others) hts₃
  rw [← List.append_assoc] at hts₃
  have hbody := readsTo_body hinside h hplain hlayout (d := declared c.package c.name c.kind
    ⟨c.annotations, Modifiers.withKeywords { isDeprecated := s.marksDeprecated c.modifiers }
      (s.classWords c)⟩)
    (by rw [declared, hkept, withKeywords_classWords s hplain.present hplain.lasted hplain.steady])
  obtain ⟨ts₄, hts₄, hread⟩ := hbody ts₃ others trivial hts₃
  have hscope : cb.enclosing (declared c.package c.name c.kind
      ⟨c.annotations, Modifiers.withKeywords { isDeprecated := s.marksDeprecated c.modifiers }
        (s.classWords c)⟩) = cb.enclosing c := Codebase.enclosing_congr rfl rfl
  refine ⟨ts₄, hts₄, ?_⟩
  rw [readClass_of_head hpreamble hkind hname, hahead, hscope]
  exact hread

end

end Source

end Signature
end ApiSurface
