import ApiSurface.Proofs.RawValue
import ApiSurface.Proofs.RoundTrip.Preamble

/-!
# Members are read back

A member is written as a preamble, a type, a name and what follows it.  Where no type variables
stand between them, the annotation that declares the nullability of the type is read with the
preamble, so the preamble and the type are described together.
-/

namespace ApiSurface
namespace Signature

open Scan (IsName Spells Apart Anything separated)

/-! ## Values -/

/-- The signs of a value behind the sign that introduces it. -/
def markedSigns (lead : Sign) : Option String → List Sign
  | none => []
  | some value => lead :: rawSigns value

theorem spells_marked
    {stops : List String} {value : String} (h : IsRawValue stops value) {lead : String}
    {sign : Sign}
    (hlead : Spells Anything lead [sign]) :
    Spells Apart (lead ++ value) (markedSigns sign (some value)) :=
  hlead.seq (Scan.spells_raw h)

theorem spells_default
    {s : WriteSettings} (hs : s.defaultValues = true) {stops : List String} {value : Option String}
    (h : ∀ v ∈ value, IsRawValue stops v) {lead : String} {sign : Sign}
    (hlead : Spells Anything lead [sign]) :
    Spells Apart (s.defaultText lead value) (markedSigns sign value) := by
  cases value with
  | none => exact Scan.spells_empty _
  | some value =>
    rw [WriteSettings.defaultText, if_pos hs]
    exact spells_marked (h value rfl) hlead

/-- A value is read if the sign that introduces it is there. -/
theorem Source.readsAs_markedValue
    (src : Source) {present : List Token → Bool} {test : Sign → Bool} {lead : Sign}
    {stops : List String} {value : Option String}
    (hpresent : ∀ ts signs, Renders ts signs → present ts = signs.head?.any test)
    (hlead : test lead = true) (hstops : ∀ mark ∈ stops, test (.mark mark) = false)
    (h : ∀ v ∈ value, IsRawValue stops v) :
    ReadsAs (fun ts => src.readMarkedValue (present ts) stops ts) (At (stops.map Sign.mark))
      (markedSigns lead value) value := by
  intro ts others hothers hts
  obtain ⟨sign, hsign, js, rfl⟩ := hothers
  obtain ⟨mark, hmark, rfl⟩ := List.mem_map.mp hsign
  cases value with
  | none =>
    have habsent : present ts = false := (hpresent ts _ hts).trans (hstops mark hmark)
    refine ⟨ts, ?_, hts⟩
    simp only [readMarkedValue, habsent]
    rfl
  | some value =>
    have hthere : present ts = true := (hpresent ts _ hts).trans hlead
    obtain ⟨ts', hread, hts'⟩ := src.readsAs_raw (h value rfl) ts.tail (.mark mark :: js)
      ⟨mark, hmark, by simp⟩ hts.tail
    refine ⟨ts', ?_, hts'⟩
    simp only [readMarkedValue, hthere, hread, ok_bind, pure_eq_ok]
    rfl

/-! ## Types of members -/

theorem rereadAs_plain (f : String → String) (n : Nullability) (t : TypeRef) :
    { rereadAs f n t with annotations := [] } = rereadAs f n t := by
  by_cases hname : t.name = "?"
  · rw [rereadAs_wildcard f n hname]
    rfl
  · obtain ⟨m, hrebuilt, -⟩ := rebuilt_named f hname (rereadList f t.arguments) t.dimensions
      (rereadBound f t.bound) n
    rw [rereadAs, hrebuilt]

theorem reread_plain (f : String → String) {t : TypeRef} (h : t.annotations = []) :
    rereadAs f t.nullability t = reread f t := by
  rw [reread_eq, h, rereadAs_plain]

theorem withNullability_rereadAs_plain (f : String → String) (n m : Nullability) (t : TypeRef) :
    (rereadAs f n t).withNullability m = rereadAs f m t := by
  have h := withNullability_rereadAs f n m t []
  rwa [rereadAs_plain, rereadAs_plain] at h

/-- A type that is known to admit null or not, though nothing was written about it, has its
nullability from its name. -/
theorem rereadAs_of_isKnown
    (f : String → String) {t : TypeRef} (h : (rereadAs f .unknown t).nullability.isKnown = true)
    (n : Nullability) : rereadAs f .unknown t = rereadAs f n t := by
  rw [← withNullability_rereadAs_plain f .unknown n t, TypeRef.withNullability]
  split
  · rfl
  · rename_i hother
    rw [← withNullability_rereadAs_plain f .unknown .unknown t, TypeRef.withNullability,
      if_neg hother] at h
    cases h

theorem leadAnnotations_plain
    (s : WriteSettings) {t : TypeRef} (h : t.annotations = []) (marked : Bool) :
    s.leadAnnotations (marked && s.kotlinNulls) t = [] := by
  rw [WriteSettings.leadAnnotations, h]
  cases marked <;> cases s.kotlinNulls <;> rfl

/-- The annotation that declares the nullability of a type stands in front of all other signs. -/
theorem typeSignsWith_plain
    (s : WriteSettings) {t : TypeRef} (h : t.annotations = []) (varargs marked : Bool) :
    s.typeSignsWith varargs marked t =
      (s.leadAnnotations marked t).flatMap s.annotationSigns ++
        s.typeSignsWith varargs (marked && s.kotlinNulls) t := by
  have hlead := leadAnnotations_plain s h marked
  have htrail : s.trailSigns (marked && s.kotlinNulls) t = s.trailSigns marked t := by
    rw [WriteSettings.trailSigns, WriteSettings.trailSigns, WriteSettings.trailNullability,
      WriteSettings.trailNullability, Bool.and_assoc marked, Bool.and_self]
  by_cases hname : t.name = "?"
  · rw [s.typeSignsWith_wildcard _ _ hname, s.typeSignsWith_wildcard _ _ hname, hlead]
    rfl
  · rw [s.typeSignsWith_named _ _ hname, s.typeSignsWith_named _ _ hname, hlead, htrail]
    rfl

/-- The type of a member carries no annotations of its own. -/
structure IsMemberType (common : Option CommonPackages) (t : TypeRef) : Prop where
  legible : IsLegibleType common t
  plain : t.annotations = []

/-- A type of which nothing is known takes the nullability that annotations declare. -/
def settled (annotations : List Annotation) (t : TypeRef) : TypeRef :=
  match nullnessOf annotations with
  | some n => if t.nullability.isKnown then t else t.withNullability n
  | none => t

theorem settled_rereadAs
    (f : String → String) {annotations : List Annotation} {n : Nullability}
    (h : nullnessOf annotations = if n = .unknown then none else some n) (t : TypeRef) :
    settled annotations (rereadAs f .unknown t) = rereadAs f n t := by
  rw [settled, h]
  by_cases hn : n = .unknown
  · rw [hn]
    rfl
  · rw [if_neg hn]
    simp only
    split
    · rename_i hknown
      exact rereadAs_of_isKnown f hknown n
    · exact withNullability_rereadAs_plain f .unknown n t

/-- What is read before a type and what is read with it, put together, is its nullability. -/
theorem settled_leadAnnotations
    {src : Source} {s : WriteSettings} (hagree : Agree s src.settings) (marked : Bool) {t : TypeRef}
    (hplain : t.annotations = []) {annotations : List Annotation}
    (hannotations : ∀ a ∈ annotations, a.nullness? = none) :
    settled (annotations ++ s.leadAnnotations marked t) (rereadAs (src.restored s)
        (if marked && s.kotlinNulls then t.nullability else src.plainNullability) t) =
      rereadAs (src.restored s) (if marked then t.nullability else src.plainNullability) t := by
  have hnone : nullnessOf (annotations ++ []) = none := nullnessOf_append hannotations .unknown
  have hkept : ∀ u, settled (annotations ++ []) u = u := fun u => by rw [settled, hnone]
  rw [WriteSettings.leadAnnotations, hplain, List.nil_append]
  cases marked with
  | false => simp only [Bool.false_and, Bool.false_eq_true, if_false, hkept]
  | true =>
    cases hnulls : s.kotlinNulls with
    | true =>
      simp only [Bool.not_true, Bool.and_false, Bool.false_and, Bool.false_eq_true, if_false, hkept,
        Bool.and_self, if_true]
    | false =>
      have hunknown : src.plainNullability = .unknown := by
        rw [Source.plainNullability, ← hagree.kotlinNulls, hnulls]
        rfl
      simp only [Bool.not_false, Bool.and_self, Bool.true_and, Bool.and_false, Bool.false_eq_true,
        if_false, if_true, hunknown]
      -- Nothing is written about a primitive or a wildcard, and nothing needs to be.
      by_cases hwritten : (!t.isPrimitive && !t.isWildcard) = true
      · rw [if_pos hwritten]
        exact settled_rereadAs _ (nullnessOf_append hannotations t.nullability) t
      · rw [if_neg hwritten, hkept]
        by_cases hname : t.name = "?"
        · simp only [rereadAs_wildcard _ _ hname]
        · refine src.rereadAs_primitive s ?_ _ _
          simpa [TypeRef.isWildcard, hname] using hwritten

theorem withoutNullness_append_lead
    (s : WriteSettings) (marked : Bool) {t : TypeRef} (hplain : t.annotations = [])
    {annotations : List Annotation} (hannotations : ∀ a ∈ annotations, a.nullness? = none) :
    withoutNullness (annotations ++ s.leadAnnotations marked t) = annotations := by
  rw [WriteSettings.leadAnnotations, hplain, List.nil_append]
  split
  · exact withoutNullness_append hannotations t.nullability
  · exact withoutNullness_append hannotations .unknown

namespace Source

theorem readMemberType_of_readType
    {src : Source} {t : ReadType} {ts ts' : List Token} (h : src.readType ts = .ok (t, ts'))
    (p : Preamble) :
    src.readMemberType p ts =
      .ok
        ((settled p.annotations t.type, withoutNullness p.annotations ++ t.annotations), ts') := by
  rw [readMemberType, h]
  rfl

section

variable {src : Source} {s : WriteSettings} (hagree : Agree s src.settings) {t : TypeRef}
  (h : IsMemberType src.settings.common t) {annotations : List Annotation}
  (hannotations : ∀ a ∈ annotations, a.nullness? = none)

include hagree h hannotations

/-- The type of a member behind a preamble that has taken the annotation in front of the type. -/
theorem readsAs_memberType (marked : Bool) (modifiers : Modifiers) :
    ReadsAs (src.readMemberType ⟨annotations ++ s.leadAnnotations marked t, modifiers⟩) (TypeEnds t)
      (s.typeSignsWith false (marked && s.kotlinNulls) t)
      (rereadAs (src.restored s) (if marked then t.nullability else src.plainNullability) t,
        annotations) := by
  have hread : ReadsAs src.readType (TypeEnds t) (s.typeSignsWith false (marked && s.kotlinNulls) t)
      ⟨t.annotations, rereadAs (src.restored s)
        (if marked && s.kotlinNulls then t.nullability else src.plainNullability) t, false⟩ :=
    readsAs_type hagree h.legible (by simp) (marked && s.kotlinNulls)
  intro ts others hothers hts
  obtain ⟨ts', htype, hts'⟩ := hread ts others hothers hts
  refine ⟨ts', ?_, hts'⟩
  rw [readMemberType_of_readType htype, settled_leadAnnotations hagree marked h.plain hannotations,
    withoutNullness_append_lead s marked h.plain hannotations, h.plain, List.append_nil]

/-- The type of a member behind type variables, with the annotation in front of it. -/
theorem readsAs_memberType_apart (marked : Bool) (modifiers : Modifiers) :
    ReadsAs (src.readMemberType ⟨annotations, modifiers⟩) (TypeEnds t)
      (s.typeSignsWith false marked t)
      (rereadAs (src.restored s) (if marked then t.nullability else src.plainNullability) t,
        annotations) := by
  have hread : ReadsAs src.readType (TypeEnds t) (s.typeSignsWith false marked t)
      ⟨t.annotations, rereadAs (src.restored s)
        (if marked then t.nullability else src.plainNullability) t, false⟩ :=
    readsAs_type hagree h.legible (by simp) marked
  have hnone : nullnessOf (annotations ++ []) = none := nullnessOf_append hannotations .unknown
  have hkept : withoutNullness (annotations ++ []) = annotations :=
    withoutNullness_append hannotations .unknown
  rw [List.append_nil] at hnone hkept
  intro ts others hothers hts
  obtain ⟨ts', htype, hts'⟩ := hread ts others hothers hts
  refine ⟨ts', ?_, hts'⟩
  rw [readMemberType_of_readType htype, settled, hnone, hkept, h.plain, List.append_nil]

end

end Source

/-! ## Parameters -/

/-- The parameter can be written and read back. -/
structure IsLegibleParameter (common : Option CommonPackages) (p : Parameter) : Prop where
  type : IsMemberType common p.type
  annotations : AreTypeAnnotations common p.annotations
  varargs : p.varargs = true → p.type.name ≠ "?" ∧ 0 < p.type.dimensions
  name : ∀ name ∈ p.name, IsName name ∧
    (endsBare p.type = true → name ≠ "extends" ∧ name ≠ "super")
  defaultValue : ∀ v ∈ p.defaultValue, IsRawValue [",", ")"] v

/-- The type of a parameter together with the annotations of the parameter. -/
def annotatedType (p : Parameter) : TypeRef :=
  { p.type with annotations := p.annotations }

/-- The parameter that is read where a parameter is written. -/
def rereadParameter (f : String → String) (p : Parameter) : Parameter :=
  { p with type := reread f p.type }

def WriteSettings.parameterSigns (s : WriteSettings) (p : Parameter) : List Sign :=
  s.typeSignsWith p.varargs true (annotatedType p) ++
    (p.name.toList.map Sign.word ++ markedSigns (.mark "=") p.defaultValue)

def WriteSettings.parametersSigns (s : WriteSettings) (ps : List Parameter) : List Sign :=
  .mark "(" :: separated (.mark ",") (ps.map s.parameterSigns) ++ [.mark ")"]

theorem annotationsText_append (s : WriteSettings) (annotations others : List Annotation) :
    s.annotationsText (annotations ++ others) =
      s.annotationsText annotations ++ s.annotationsText others := by
  rw [WriteSettings.annotationsText, WriteSettings.annotationsText, WriteSettings.annotationsText]
  split
  · rw [List.map_append, String.join_append]
  · rfl

/-- The annotations of a parameter are written as those of its type are. -/
theorem typeTextWith_annotatedType
    (s : WriteSettings) {p : Parameter} (h : p.type.annotations = []) :
    s.annotationsText p.annotations ++ s.typeTextWith p.varargs true p.type =
      s.typeTextWith p.varargs true (annotatedType p) := by
  have hlead : s.leadText true (annotatedType p) =
      s.annotationsText p.annotations ++ s.leadText true p.type := by
    rw [WriteSettings.leadText, WriteSettings.leadText, annotationsText_append, h, List.nil_append]
    rfl
  by_cases hname : p.type.name = "?"
  · have hname' : (annotatedType p).name = "?" := hname
    rw [s.typeTextWith_wildcard _ _ hname, s.typeTextWith_wildcard _ _ hname', hlead,
      String.append_assoc]
    rfl
  · have hname' : (annotatedType p).name ≠ "?" := hname
    rw [s.typeTextWith_named _ _ hname, s.typeTextWith_named _ _ hname', hlead, String.append_assoc]
    rfl

theorem spells_equals : Spells Anything " = " [.mark "="] := by
  have hblank : Spells Anything " " [] := Scan.spells_blank (by decide)
  exact hblank.seq (Scan.spells_mark_blank (show "=" ∈ Scan.markTexts by decide))

theorem apart_equals (rest : List Char) : Apart (" = ".toList ++ rest) :=
  .cons (by decide)

theorem apart_default
    (s : WriteSettings) (value : Option String) {lead : String}
    (hlead : ∀ rest, Apart (lead.toList ++ rest)) {rest : List Char} (h : Apart rest) :
    Apart ((s.defaultText lead value).toList ++ rest) := by
  rw [WriteSettings.defaultText.eq_def]
  split
  · split
    · rw [String.toList_append, List.append_assoc]
      exact hlead _
    · exact h
  · exact h

theorem spells_parameter
    {common : Option CommonPackages} {s : WriteSettings} (hs : s.capabilities.annotations = true)
    (hnames : s.capabilities.parameterNames = true) (hdefaults : s.defaultValues = true)
    {p : Parameter} (h : IsLegibleParameter common p) :
    Spells Apart (s.parameterText p) (s.parameterSigns p) := by
  have htype : Spells Apart (s.typeTextWith p.varargs true (annotatedType p))
      (s.typeSignsWith p.varargs true (annotatedType p)) :=
    spells_typeWith hs (h.type.legible.withAnnotations h.annotations) p.varargs true
  have hdefault := spells_default hdefaults h.defaultValue spells_equals
  rw [WriteSettings.parameterText, typeTextWith_annotatedType s h.type.plain, String.append_assoc,
    WriteSettings.parameterSigns]
  cases hname : p.name with
  | none => exact htype.append hdefault fun rest => apart_default s p.defaultValue apart_equals
  | some name =>
    have hblank : Spells Anything " " [] := Scan.spells_blank (by decide)
    have hisName := (h.name name hname).1
    have htail : Spells Apart (" " ++ name ++ s.defaultText " = " p.defaultValue)
        ([] ++ [.word name] ++ markedSigns (.mark "=") p.defaultValue) :=
      (hblank.seq (Scan.spells_name hisName)).append hdefault fun rest hrest =>
        (apart_default s p.defaultValue apart_equals hrest).nameEnds
    rw [WriteSettings.parameterNameText, if_pos hnames]
    exact htype.append htail fun rest _ => by
      rw [String.append_assoc, String.toList_append]
      exact .cons (by decide)

theorem endsBare_annotatedType (p : Parameter) : endsBare (annotatedType p) = endsBare p.type := by
  rw [annotatedType]
  cases p.type
  rfl

theorem notAt_type
    (s : WriteSettings) {mark : String} (hsigil : mark ≠ "@") (hwildcard : mark ≠ "?")
    (varargs marked : Bool) (t : TypeRef) (others : List Sign) :
    NotAt mark (s.typeSignsWith varargs marked t ++ others) := by
  by_cases hname : t.name = "?"
  · rw [s.typeSignsWith_wildcard _ _ hname]
    cases s.leadAnnotations marked t with
    | nil => exact notAt_mark.mpr hwildcard.symm
    | cons a as => exact notAt_mark.mpr hsigil.symm
  · rw [s.typeSignsWith_named _ _ hname]
    cases s.leadAnnotations marked t with
    | nil => exact notAt_word
    | cons a as => exact notAt_mark.mpr hsigil.symm

/-- What follows a type and a name is a value or what follows the value. -/
theorem at_marked
    {lead : Sign} {options signs : List Sign} (value : Option String) (h : At options signs) :
    At (lead :: options) (markedSigns lead value ++ signs) := by
  cases value with
  | none => exact h.mono fun o ho => List.mem_cons_of_mem _ ho
  | some value => exact .cons List.mem_cons_self _

namespace Source

section

variable {src : Source} {s : WriteSettings} (hagree : Agree s src.settings)

include hagree

theorem readsAs_parameter
    {p : Parameter} (h : IsLegibleParameter src.settings.common p) :
    ReadsAs src.readParameter (At [.mark ",", .mark ")"]) (s.parameterSigns p)
      (rereadParameter (src.restored s) p) := by
  have htype : ReadsAs src.readType (TypeEnds (annotatedType p))
      (s.typeSignsWith p.varargs true (annotatedType p))
      ⟨p.annotations, reread (src.restored s) p.type, p.varargs⟩ := by
    rw [← reread_plain (src.restored s) h.type.plain]
    exact readsAs_type hagree (h.type.legible.withAnnotations h.annotations) h.varargs true
  have hvalue : ReadsAs (fun ts => src.readMarkedValue (atMark "=" ts) [",", ")"] ts)
      (At [.mark ",", .mark ")"]) (markedSigns (.mark "=") p.defaultValue) p.defaultValue :=
    src.readsAs_markedValue (fun _ _ hts => atMark_of_renders hts "=") (by decide) (by decide)
      h.defaultValue
  intro ts others hothers hts
  rw [WriteSettings.parameterSigns, List.append_assoc, List.append_assoc] at hts
  have hafter : At [.mark "=", .mark ",", .mark ")"]
      (markedSigns (.mark "=") p.defaultValue ++ others) := at_marked p.defaultValue hothers
  cases hname : p.name with
  | none =>
    rw [hname] at hts
    obtain ⟨ts₁, hread₁, hts₁⟩ := htype ts _ (typeEnds_of_at hafter (by decide) _) hts
    obtain ⟨ts₂, hread₂, hts₂⟩ := hvalue ts₁ others hothers hts₁
    have hat : atName ts₁ = false := hafter.atName_eq_false hts₁ (by decide)
    refine ⟨ts₂, ?_, hts₂⟩
    simp only [readParameter, hread₁, hat, Bool.false_eq_true, if_false, hread₂, ok_bind,
      pure_eq_ok, rereadParameter, hname]
  | some name =>
    have hends := (h.name name hname).2
    rw [← endsBare_annotatedType] at hends
    rw [hname] at hts
    obtain ⟨ts₁, hread₁, hts₁⟩ := htype ts _ (typeEnds_word hends _) hts
    obtain ⟨ts₂, hread₂, hts₂⟩ := hvalue ts₁.tail others hothers hts₁.tail
    have hat : atName ts₁ = true := atName_of_renders hts₁
    have htext : ts₁.head?.map Token.text = some name := by
      cases hts₁ with
      | cons hs _ => exact congrArg some hs.text
    refine ⟨ts₂, ?_, hts₂⟩
    simp only [readParameter, hread₁, hat, if_true, htext, hread₂, ok_bind, pure_eq_ok,
      rereadParameter, hname]

theorem readsAs_parameters
    {ps : List Parameter} (h : ∀ p ∈ ps, IsLegibleParameter src.settings.common p) :
    ReadsAs src.readParameters (fun _ => True) (s.parametersSigns ps)
      (ps.map (rereadParameter (src.restored s))) := by
  intro ts others _ hts
  obtain ⟨ts₁, hopen, hts₁⟩ := src.expectMark_of_renders hts
  cases ps with
  | nil =>
    have hclose : atMark ")" ts₁ = true := atMark_of_renders hts₁ ")"
    refine ⟨ts₁.tail, ?_, hts₁.tail⟩
    simp only [readParameters, hopen, ok_bind, hclose, if_true, pure_eq_ok, List.map_nil]
  | cons p ps =>
    have hrounds := Scan.length_le_length_separated (.mark ",") ((p :: ps).map s.parameterSigns)
    have hlength := hts₁.length_eq
    have hle : (p :: ps).length ≤ ts₁.length + 1 := by
      simp at hlength hrounds ⊢
      omega
    have hlist := src.readsAs_list (F := At [.mark ",", .mark ")"]) (show ")" ≠ "," by decide)
      (At.cons (by decide)) (At.cons (by decide)) (List.cons_ne_nil p ps) hle
      fun q hq => readsAs_parameter hagree (h q hq)
    obtain ⟨ts₂, hread, hts₂⟩ := hlist ts₁ others trivial hts₁
    have hclose : atMark ")" ts₁ = false := by
      obtain ⟨more, hmore⟩ :=
        Scan.separated_cons (.mark ",") (s.parameterSigns p) (ps.map s.parameterSigns)
      have hts₁' : Renders ts₁ (separated (.mark ",") ((p :: ps).map s.parameterSigns) ++
          ([.mark ")"] ++ others)) := by
        rw [← List.append_assoc]
        exact hts₁
      refine atMark_eq_false hts₁' ?_
      rw [List.map_cons, hmore, WriteSettings.parameterSigns]
      simp only [List.append_assoc]
      exact notAt_type s (show ")" ≠ "@" by decide) (by decide) _ _ _ _
    refine ⟨ts₂, ?_, hts₂⟩
    simp only [readParameters, hopen, ok_bind, hclose, hread]
    rfl

end

end Source

/-! ## Methods and constructors -/

/-- All parts of the method can be written and read back. -/
structure IsLegibleMethod (common : Option CommonPackages) (m : Method) : Prop where
  name : IsName m.name
  annotations : AreTypeAnnotations common m.annotations
  typeParameters : ∀ p ∈ m.typeParameters, IsLegibleVariable common p
  returnType : ∀ t ∈ m.returnType, IsMemberType common t
  apart : ∀ t ∈ m.returnType, endsBare t = true → m.name ≠ "extends" ∧ m.name ≠ "super"
  parameters : ∀ p ∈ m.parameters, IsLegibleParameter common p
  throws : ∀ t ∈ m.throws, IsLegibleType common t ∧ IsNonNull t
  defaultValue : ∀ v ∈ m.defaultValue, IsRawValue [";"] v

/-- The word behind the preamble of a method without type variables. -/
def WriteSettings.frontWord (s : WriteSettings) (m : Method) : String :=
  match m.returnType with
  | some t => s.typeName t.name
  | none => m.name

/-- The preamble of the method is read as it was written: modifiers that are not written are not
set, and nothing is taken for a part of the preamble, or for its end. -/
structure IsPlainMethod (s : WriteSettings) (m : Method) : Prop where
  lasting : ∀ a ∈ m.annotations, a.isDeprecated = false
  written : ∀ a ∈ m.annotations, s.annotationName a.name ≠ "interface"
  unsealed : m.modifiers.isSealed = false
  lasted : m.modifiers.isTransient = false
  steady : m.modifiers.isVolatile = false
  front : m.typeParameters = [] → Modifiers.isKeyword (s.frontWord m) = false

/-- The method that is read where a method is written. -/
def rereadMethod (f : String → String) (m : Method) : Method :=
  { m with
    returnType := m.returnType.map (reread f)
    typeParameters := m.typeParameters.map (rereadVariable f)
    parameters := m.parameters.map (rereadParameter f)
    throws := m.throws.map (reread f)
    exposure := {}
    tags := {} }

namespace WriteSettings

def signatureSigns (s : WriteSettings) (m : Method) : List Sign :=
  .word m.name :: (s.parametersSigns m.parameters ++ (s.typeListSigns "throws" m.throws ++
    (markedSigns (.word "default") m.defaultValue ++ [.mark ";"])))

/-- The signs of the result of a method. -/
def returnSigns (s : WriteSettings) (type : Option TypeRef) : List Sign :=
  type.toList.flatMap s.typeSigns

/-- The signs of a method of a class behind the word that tells what it is. -/
def methodSigns (s : WriteSettings) (c : ClassDecl) (m : Method) : List Sign :=
  s.preambleSigns m.annotations (s.marksDeprecated m.modifiers) (s.methodWords c m.modifiers) ++
    (s.typeParametersSigns m.typeParameters ++ (s.returnSigns m.returnType ++ s.signatureSigns m))

end WriteSettings

theorem spells_signature
    {common : Option CommonPackages} {s : WriteSettings} {r : ReadSettings} (hagree : Agree s r)
    {m : Method} (h : IsLegibleMethod common m) :
    Spells Anything
      (m.name ++ ("(" ++ (Text.join ", " (m.parameters.map s.parameterText) ++ (")" ++
        (s.throwsText m.throws ++ (s.defaultText " default " m.defaultValue ++ ";\n"))))))
      (s.signatureSigns m) := by
  have hopen : Spells Anything "(" [.mark "("] := Scan.spells_mark (by decide)
  have hclose : Spells Anything ")" [.mark ")"] := Scan.spells_mark (by decide)
  have hsemicolon : Spells Anything ";" [.mark ";"] := Scan.spells_mark (by decide)
  have hnewline : Spells Anything "\n" [] := Scan.spells_blank (by decide)
  have hend : Spells Anything ";\n" [.mark ";"] := hsemicolon.seq hnewline
  have hblank : Spells Anything " " [] := Scan.spells_blank (by decide)
  have hword : Spells Anything " default " [.word "default"] :=
    hblank.seq (Scan.spells_word (show IsName "default" by decide))
  have hlead : ∀ rest, Apart (" default ".toList ++ rest) := fun rest => .cons (by decide)
  have hdefault := spells_default hagree.defaultValues h.defaultValue hword
  have hthrows := spells_throws hagree.annotations fun t ht => (h.throws t ht).1
  have hparameters : Spells Apart (Text.join ", " (m.parameters.map s.parameterText))
      (separated (.mark ",") (m.parameters.map s.parameterSigns)) :=
    Scan.spells_join spells_comma apart_comma fun p hp =>
      spells_parameter hagree.annotations hagree.parameterNames hagree.defaultValues
        (h.parameters p hp)
  have hbehind := hthrows.append (hdefault.append hend fun rest _ => Scan.Apart.cons (by decide))
    fun rest _ => by
      rw [String.toList_append, List.append_assoc]
      exact apart_default s m.defaultValue hlead (.cons (by decide))
  have hlist := hopen.seq (hparameters.append (hclose.seq hbehind) fun rest _ => by
    rw [String.toList_append, List.append_assoc]
    exact .cons (by decide))
  have hspells := (Scan.spells_name h.name).append hlist fun rest _ => by
    rw [String.toList_append, List.append_assoc]
    exact (Scan.Apart.cons (by decide)).nameEnds
  simpa [WriteSettings.signatureSigns, WriteSettings.parametersSigns] using hspells

theorem spells_method
    {common : Option CommonPackages} {s : WriteSettings} {r : ReadSettings} (hagree : Agree s r)
    (c : ClassDecl) {m : Method} (h : IsLegibleMethod common m) :
    Spells Anything (s.methodText c m)
      (.word (if m.isConstructor then "ctor" else "method") :: s.methodSigns c m) := by
  have hblank : Spells Anything "    " [] := Scan.spells_blank (by decide)
  have hword : Spells Anything (if m.isConstructor then "    ctor " else "    method ")
      [.word (if m.isConstructor then "ctor" else "method")] := by
    split
    · exact hblank.seq (Scan.spells_word (show IsName "ctor" by decide))
    · exact hblank.seq (Scan.spells_word (show IsName "method" by decide))
  have hannotations := spells_itemAnnotations hagree.annotations
    (fun a ha => (h.annotations a ha).1) m.modifiers
  have hmodifiers := spells_methodModifiers s c m.modifiers
  have hvariables : Spells Anything
      (wordIf (!m.typeParameters.isEmpty) (s.typeParametersText m.typeParameters))
      (s.typeParametersSigns m.typeParameters) := by
    have hlist := spells_typeParameters hagree.annotations h.typeParameters
    cases hps : m.typeParameters with
    | nil => exact Scan.spells_empty _
    | cons p ps =>
      rw [hps] at hlist
      exact (hlist.mono fun _ _ => trivial).blank
  have hreturn : Spells Anything
      (match m.returnType with
        | some type => s.typeText type ++ " "
        | none => "") (s.returnSigns m.returnType) := by
    cases ht : m.returnType with
    | none => exact Scan.spells_empty _
    | some t =>
      have hspells :=
        (spells_typeWith hagree.annotations (h.returnType t ht).legible false true).blank
      simpa [WriteSettings.returnSigns, WriteSettings.typeText, WriteSettings.typeSigns]
        using hspells
  have hsignature := spells_signature hagree h
  have hspells := hword.seq (hannotations.seq (hmodifiers.seq (hvariables.seq
    (hreturn.seq hsignature))))
  simp only [WriteSettings.methodText, WriteSettings.methodSigns, WriteSettings.preambleSigns,
    String.append_assoc, List.append_assoc, List.cons_append, List.nil_append] at hspells ⊢
  exact hspells

theorem isItemAnnotation_lead
    (s : WriteSettings) (common : Option CommonPackages) {t : TypeRef} (h : t.annotations = [])
    (marked : Bool) : ∀ a ∈ s.leadAnnotations marked t, IsItemAnnotation s common a := by
  intro a ha
  rw [WriteSettings.leadAnnotations, h, List.nil_append] at ha
  split at ha
  · exact isItemAnnotation_nullness s common t.nullability a ha
  · cases ha

theorem preambleEnds_variables
    (s : WriteSettings) {ps : List TypeParameter} {signs : List Sign}
    (h : ps = [] → PreambleEnds signs) : PreambleEnds (s.typeParametersSigns ps ++ signs) := by
  cases ps with
  | nil => exact h rfl
  | cons p ps => exact preambleEnds_mark (show "<" ≠ "(" by decide) (by decide) _

theorem preambleEnds_type
    (s : WriteSettings) {t : TypeRef} (hplain : t.annotations = [])
    (hfront : Modifiers.isKeyword (s.typeName t.name) = false) (varargs marked : Bool)
    (others : List Sign) :
    PreambleEnds (s.typeSignsWith varargs (marked && s.kotlinNulls) t ++ others) := by
  by_cases hname : t.name = "?"
  · rw [s.typeSignsWith_wildcard _ _ hname, leadAnnotations_plain s hplain]
    exact preambleEnds_mark (show "?" ≠ "(" by decide) (by decide) _
  · rw [s.typeSignsWith_named _ _ hname, leadAnnotations_plain s hplain]
    exact preambleEnds_word hfront _

namespace Source

section

variable {src : Source} {s : WriteSettings} (hagree : Agree s src.settings)

include hagree

/-- A preamble and what is left of the type behind it: together they tell the annotations of the
member and the nullability of its type. -/
theorem readPreamble_typed
    {annotations : List Annotation} {words : List String} {ps : List TypeParameter} {t : TypeRef}
    (hannotations : ∀ a ∈ annotations, IsItemAnnotation s src.settings.common a)
    (hnullness : ∀ a ∈ annotations, a.nullness? = none)
    (hwords : ∀ word ∈ words, Modifiers.isKeyword word = true) (deprecated : Bool)
    (ht : IsMemberType src.settings.common t) (marked : Bool)
    (hfront : ps = [] → Modifiers.isKeyword (s.typeName t.name) = false) {ts : List Token}
    {others : List Sign}
    (hts : Renders ts (s.preambleSigns annotations deprecated words ++
      (s.typeParametersSigns ps ++ (s.typeSignsWith false marked t ++ others)))) :
    ∃ p ts' signs, src.readPreamble ts = .ok (p, ts') ∧
      p.modifiers = Modifiers.withKeywords { isDeprecated := deprecated } words ∧
      Renders ts' (s.typeParametersSigns ps ++ (signs ++ others)) ∧ NotAt "<" (signs ++ others) ∧
      ∀ names, ReadsAs ((src.within names).readMemberType p) (TypeEnds t) signs
        (rereadAs ((src.within names).restored s)
          (if marked then t.nullability else src.plainNullability) t, annotations) := by
  have hwithin : ∀ names, Agree s (src.within names).settings := fun _ => hagree
  cases ps with
  | nil =>
    -- The preamble takes the annotation in front of the type.
    have hread := readsAs_preamble hagree hannotations
      (isItemAnnotation_lead s src.settings.common ht.plain marked) hwords deprecated
    rw [typeSignsWith_plain s ht.plain, List.append_assoc, ← List.append_assoc,
      ← List.append_assoc] at hts
    obtain ⟨ts', hpreamble, hts'⟩ := hread ts _
      (preambleEnds_type s ht.plain (hfront rfl) false marked others) (by
        simpa [WriteSettings.typeParametersSigns, angleSigns, List.append_assoc] using hts)
    exact ⟨_, ts', _, hpreamble, rfl, hts', notAt_type s (by decide) (by decide) _ _ _ _,
      fun names => readsAs_memberType (hwithin names) ht hnullness marked _⟩
  | cons p ps =>
    obtain ⟨ts', hpreamble, hts'⟩ := readsAs_preamble_alone hagree hannotations hwords deprecated ts
      _ (preambleEnds_variables s (by simp)) hts
    exact ⟨_, ts', _, hpreamble, rfl, hts', notAt_type s (by decide) (by decide) _ _ _ _,
      fun names => readsAs_memberType_apart (hwithin names) ht hnullness marked _⟩

omit hagree in
theorem isItemAnnotation_of_plain
    {m : Method} (h : IsLegibleMethod src.settings.common m) (hplain : IsPlainMethod s m) :
    ∀ a ∈ m.annotations, IsItemAnnotation s src.settings.common a :=
  fun a ha => ⟨(h.annotations a ha).1, hplain.lasting a ha, hplain.written a ha⟩

/-- A constructor of a class is read back. -/
theorem readsAs_constructor
    {o c : ClassDecl} {m : Method} (h : IsLegibleMethod src.settings.common m)
    (hplain : IsPlainMethod s m) (hfinal : s.impliesFinal o = true → m.modifiers.isFinal = false)
    (hname : m.name = c.name) (howner : m.owner = c.qualifiedName)
    (hreturn : m.returnType = none) (hdefault : m.defaultValue = none)
    (hsynthetic : m.synthetic = false) :
    ReadsAs (src.readConstructor c) (fun _ => True) (s.methodSigns o m)
      (rereadMethod ((src.within (s.declaredBy m.typeParameters)).restored s) m) := by
  have hwithin : Agree s (src.within (s.declaredBy m.typeParameters)).settings := hagree
  have hfront : s.frontWord m = m.name := by rw [WriteSettings.frontWord, hreturn]
  have hkept : withoutNullness m.annotations = m.annotations :=
    List.filter_eq_self.mpr fun a ha => by rw [(h.annotations a ha).2]; rfl
  have hmodifiers := withKeywords_methodWords s o hplain.unsealed hplain.lasted hplain.steady hfinal
  intro ts others _ hts
  simp only [WriteSettings.methodSigns, WriteSettings.signatureSigns, WriteSettings.returnSigns,
    hreturn, hdefault, Option.toList_none, List.flatMap_nil, List.nil_append, List.append_assoc,
    List.cons_append, markedSigns] at hts
  obtain ⟨ts₁, hpreamble, hts₁⟩ :=
    readsAs_preamble_alone hagree (isItemAnnotation_of_plain h hplain)
    (fun _ => isKeyword_of_mem_methodWords) (s.marksDeprecated m.modifiers) ts _
    (preambleEnds_variables s fun hps =>
      preambleEnds_word (by rw [← hfront]; exact hplain.front hps) _)
    hts
  have hahead := s.variablesAhead_of_renders hagree.annotations h.typeParameters notAt_word hts₁
  obtain ⟨ts₂, hvariables, hts₂⟩ := readsAs_typeParameters hwithin h.typeParameters ts₁ _ notAt_word
    hts₁
  obtain ⟨ts₃, hread₃, hts₃⟩ := (src.within (s.declaredBy m.typeParameters)).expectName_of_renders
    "constructor name" hts₂
  obtain ⟨ts₄, hparameters, hts₄⟩ := readsAs_parameters hwithin h.parameters ts₃ _ trivial hts₃
  obtain ⟨ts₅, hthrows, hts₅⟩ := readsAs_throws hwithin (fun t ht => (h.throws t ht).1)
    (fun t ht => (h.throws t ht).2) ts₄ _ (At.cons (by decide) _) hts₄
  obtain ⟨ts₆, hend, hts₆⟩ :=
    (src.within (s.declaredBy m.typeParameters)).expectMark_of_renders hts₅
  refine ⟨ts₆, ?_, hts₆⟩
  simp only [readConstructor, hpreamble, ok_bind, hahead, hvariables, hread₃, hparameters, hthrows,
    hend, pure_eq_ok, hkept, hmodifiers, rereadMethod, hname, howner, hreturn, hdefault, hsynthetic,
    Option.map_none]

/-- A method of a class is read back. -/
theorem readsAs_method
    {o c : ClassDecl} {m : Method} (h : IsLegibleMethod src.settings.common m)
    (hplain : IsPlainMethod s m) (hfinal : s.impliesFinal o = true → m.modifiers.isFinal = false)
    (howner : m.owner = c.qualifiedName)
    (hreturn : m.returnType.isSome = true) (hsynthetic : m.synthetic = false) :
    ReadsAs (src.readMethod c) (fun _ => True) (s.methodSigns o m)
      (rereadMethod ((src.within (s.declaredBy m.typeParameters)).restored s) m) := by
  obtain ⟨t, ht⟩ := Option.isSome_iff_exists.mp hreturn
  have hwithin : Agree s (src.within (s.declaredBy m.typeParameters)).settings := hagree
  have hfront : s.frontWord m = s.typeName t.name := by rw [WriteSettings.frontWord, ht]
  have hdefault : ReadsAs (fun ts => (src.within (s.declaredBy m.typeParameters)).readMarkedValue
      (atWord "default" ts) [";"] ts) (At [.mark ";"])
      (markedSigns (.word "default") m.defaultValue)
      m.defaultValue :=
    Source.readsAs_markedValue _ (fun _ _ hts => atWord_of_renders hts "default") (by decide)
      (by decide) h.defaultValue
  intro ts others _ hts
  simp only [WriteSettings.methodSigns, WriteSettings.signatureSigns, WriteSettings.returnSigns,
    ht, Option.toList_some, List.flatMap_cons, List.flatMap_nil, List.append_nil, List.append_assoc,
    List.cons_append, List.nil_append, WriteSettings.typeSigns] at hts
  obtain ⟨p, ts₁, signs, hpreamble, hmodifiers, hts₁, hnot, htype⟩ :=
    readPreamble_typed hagree (isItemAnnotation_of_plain h hplain)
      (fun a ha => (h.annotations a ha).2) (fun _ => isKeyword_of_mem_methodWords)
      (s.marksDeprecated m.modifiers) (h.returnType t ht) true
      (fun hps => by rw [← hfront]; exact hplain.front hps) hts
  rw [withKeywords_methodWords s o hplain.unsealed hplain.lasted hplain.steady hfinal]
    at hmodifiers
  have hahead := s.variablesAhead_of_renders hagree.annotations h.typeParameters hnot hts₁
  obtain ⟨ts₂, hvariables, hts₂⟩ := readsAs_typeParameters hwithin h.typeParameters ts₁ _ hnot hts₁
  obtain ⟨ts₃, hread₃, hts₃⟩ := htype (s.declaredBy m.typeParameters) ts₂ _
    (typeEnds_word (h.apart t ht) _) hts₂
  simp only [if_true, reread_plain _ (h.returnType t ht).plain] at hread₃
  obtain ⟨ts₄, hread₄, hts₄⟩ := (src.within (s.declaredBy m.typeParameters)).expectName_of_renders
    "method name" hts₃
  obtain ⟨ts₅, hparameters, hts₅⟩ := readsAs_parameters hwithin h.parameters ts₄ _ trivial hts₄
  obtain ⟨ts₆, hthrows, hts₆⟩ := readsAs_throws hwithin (fun t ht => (h.throws t ht).1)
    (fun t ht => (h.throws t ht).2) ts₅ _
    ((at_marked m.defaultValue (.cons (List.mem_singleton.mpr rfl) others)).mono (by decide)) hts₅
  obtain ⟨ts₇, hvalue, hts₇⟩ := hdefault ts₆ _ (.cons (List.mem_singleton.mpr rfl) others) hts₆
  obtain ⟨ts₈, hend, hts₈⟩ :=
    (src.within (s.declaredBy m.typeParameters)).expectMark_of_renders hts₇
  refine ⟨ts₈, ?_, hts₈⟩
  simp only [readMethod, hpreamble, ok_bind, hahead, hvariables, hread₃, hread₄, hparameters,
    hthrows, hvalue, hend, pure_eq_ok, hmodifiers, rereadMethod, howner, ht, hsynthetic,
    Option.map_some]

end

end Source

/-! ## Fields -/

/-- All parts of the field can be written and read back. -/
structure IsLegibleField (common : Option CommonPackages) (x : Field) : Prop where
  name : IsName x.name
  annotations : AreTypeAnnotations common x.annotations
  type : IsMemberType common x.type
  apart : endsBare x.type = true → x.name ≠ "extends" ∧ x.name ≠ "super"
  value : ∀ v ∈ x.value, IsRawValue [";"] v
  nonNull : x.isEnumConstant = true → IsNonNull x.type

/-- The preamble of the field is read as it was written. -/
structure IsPlainField (s : WriteSettings) (x : Field) : Prop where
  lasting : ∀ a ∈ x.annotations, a.isDeprecated = false
  written : ∀ a ∈ x.annotations, s.annotationName a.name ≠ "interface"
  present : x.modifiers.isDefault = false
  concrete : x.modifiers.isAbstract = false
  unsealed : x.modifiers.isSealed = false
  front : Modifiers.isKeyword (s.typeName x.type.name) = false

/-- The field that is read where a field is written. -/
def rereadField (f : String → String) (x : Field) : Field :=
  { x with type := reread f x.type, exposure := {}, tags := {} }

/-- The signs of a field behind the word that tells what it is. -/
def WriteSettings.fieldSigns (s : WriteSettings) (x : Field) : List Sign :=
  s.preambleSigns x.annotations (s.marksDeprecated x.modifiers) (s.fieldWords x.modifiers) ++
    (s.typeSignsWith false (!x.isEnumConstant) x.type ++
      .word x.name :: (markedSigns (.mark "=") x.value ++ [.mark ";"]))

theorem newline_not_mem_toDigits (n : Nat) : '\n' ∉ Nat.toDigits 16 n := by
  have hdigit : ∀ d < 16, '\n' ≠ Nat.digitChar d := by decide
  induction n using Nat.strongRecOn with
  | ind n ih =>
    rw [Nat.toDigits_eq_if (by decide)]
    split
    · rename_i hsmall
      exact fun hmem => hdigit n hsmall (List.mem_singleton.mp hmem)
    · intro hmem
      rcases List.mem_append.mp hmem with hmem | hmem
      · exact ih (n / 16) (by omega) hmem
      · exact hdigit (n % 16) (Nat.mod_lt n (by decide)) (List.mem_singleton.mp hmem)

/-- The hexadecimal form of a constant is written in one line. -/
theorem newline_not_mem_comment
    {type : TypeRef} {source comment : String}
    (h : Hexadecimal.comment? type source = some comment) :
    '\n' ∉ comment.toList := by
  rw [Hexadecimal.comment?] at h
  split at h
  · simp only [Option.bind_eq_bind, Option.bind_eq_some_iff, Option.some.injEq] at h
    obtain ⟨value, -, width, -, rfl⟩ := h
    rw [String.toList_append, List.mem_append, not_or]
    refine ⟨by decide, ?_⟩
    rw [String.toList_ofList]
    exact newline_not_mem_toDigits _
  · cases h

theorem spells_fieldValue
    (s : WriteSettings) {x : Field} (h : ∀ v ∈ x.value, IsRawValue [";"] v) :
    Spells Anything (s.fieldValueText x) (markedSigns (.mark "=") x.value ++ [.mark ";"]) := by
  have hsemicolon : Spells Anything ";" [.mark ";"] := Scan.spells_mark (by decide)
  have hnewline : Spells Anything "\n" [] := Scan.spells_blank (by decide)
  rw [WriteSettings.fieldValueText]
  cases hvalue : x.value with
  | none => exact hsemicolon.seq hnewline
  | some value =>
    have hmarked := spells_marked (h value hvalue) spells_equals
    cases hcomment : if s.compatible then Hexadecimal.comment? x.type value else none with
    | none =>
      have hspells := hmarked.append (hsemicolon.seq hnewline)
        fun rest _ => Scan.Apart.cons (by decide)
      simpa [hcomment, String.append_assoc] using hspells
    | some comment =>
      have hline : '\n' ∉ comment.toList := by
        cases hcompatible : s.compatible with
        | false => simp [hcompatible] at hcomment
        | true => exact newline_not_mem_comment (by simpa [hcompatible] using hcomment)
      have hspells := hmarked.append (hsemicolon.seq (Scan.spells_comment hline)) fun rest _ => by
        rw [String.toList_append, List.append_assoc]
        exact Scan.Apart.cons (by decide)
      simpa [hcomment, String.append_assoc] using hspells

theorem nameEnds_fieldValue (s : WriteSettings) (x : Field) (rest : List Char) :
    Scan.NameEnds ((s.fieldValueText x).toList ++ rest) := by
  rw [WriteSettings.fieldValueText]
  split
  · exact (Scan.Apart.cons (by decide)).nameEnds
  · simp only [String.toList_append, List.append_assoc]
    exact (Scan.Apart.cons (by decide)).nameEnds

theorem spells_field
    {common : Option CommonPackages} {s : WriteSettings} {r : ReadSettings} (hagree : Agree s r)
    {x : Field} (h : IsLegibleField common x) :
    Spells Anything (s.fieldText x)
      (.word (if x.isEnumConstant then "enum_constant" else "field") :: s.fieldSigns x) := by
  have hblank : Spells Anything "    " [] := Scan.spells_blank (by decide)
  have hword : Spells Anything (if x.isEnumConstant then "    enum_constant " else "    field ")
      [.word (if x.isEnumConstant then "enum_constant" else "field")] := by
    split
    · exact hblank.seq (Scan.spells_word (show IsName "enum_constant" by decide))
    · exact hblank.seq (Scan.spells_word (show IsName "field" by decide))
  have hannotations := spells_itemAnnotations hagree.annotations
    (fun a ha => (h.annotations a ha).1) x.modifiers
  have hmodifiers := spells_fieldModifiers s x.modifiers
  have htype := (spells_typeWith hagree.annotations h.type.legible false (!x.isEnumConstant)).blank
  have hname := (Scan.spells_name h.name).append (spells_fieldValue s h.value)
    fun rest _ => nameEnds_fieldValue s x rest
  have hspells := hword.seq (hannotations.seq (hmodifiers.seq (htype.seq hname)))
  simpa only [WriteSettings.fieldText, WriteSettings.fieldSigns, WriteSettings.preambleSigns,
    String.append_assoc, List.append_assoc, List.cons_append, List.nil_append] using hspells

/-- A field or an enum constant of a class is read back. -/
theorem Source.readsAs_field
    {src : Source} {s : WriteSettings} (hagree : Agree s src.settings) {c : ClassDecl} {x : Field}
    (h : IsLegibleField src.settings.common x) (hplain : IsPlainField s x)
    (howner : x.owner = c.qualifiedName) (hsynthetic : x.synthetic = false) :
    ReadsAs (src.readField c x.isEnumConstant) (fun _ => True) (s.fieldSigns x)
      (rereadField (src.restored s) x) := by
  have hvalue : ReadsAs (fun ts => src.readMarkedValue (atMark "=" ts) [";"] ts) (At [.mark ";"])
      (markedSigns (.mark "=") x.value) x.value :=
    src.readsAs_markedValue (fun _ _ hts => atMark_of_renders hts "=") (by decide) (by decide)
      h.value
  have hitem : ∀ a ∈ x.annotations, IsItemAnnotation s src.settings.common a :=
    fun a ha => ⟨(h.annotations a ha).1, hplain.lasting a ha, hplain.written a ha⟩
  have hconstant : x.isEnumConstant = true →
      rereadAs (src.restored s) .nonNull x.type = reread (src.restored s) x.type := by
    intro hconstant
    rw [← reread_nonNull _ (h.nonNull hconstant), h.type.plain, rereadAs_plain]
  have hwithin : src.within [] = src := by rw [within, List.append_nil]
  intro ts others _ hts
  simp only [WriteSettings.fieldSigns, List.append_assoc, List.cons_append, List.nil_append] at hts
  have hts : Renders ts (s.preambleSigns x.annotations (s.marksDeprecated x.modifiers)
      (s.fieldWords x.modifiers) ++ (s.typeParametersSigns [] ++
        (s.typeSignsWith false (!x.isEnumConstant) x.type ++ _))) := hts
  obtain ⟨p, ts₁, signs, hpreamble, hmodifiers, hts₁, -, htype⟩ :=
    readPreamble_typed hagree hitem (fun a ha => (h.annotations a ha).2)
      (fun _ => isKeyword_of_mem_fieldWords) (s.marksDeprecated x.modifiers) h.type
      (!x.isEnumConstant) (fun _ => hplain.front) hts
  rw [withKeywords_fieldWords s hplain.present hplain.concrete hplain.unsealed] at hmodifiers
  obtain ⟨ts₂, hread₂, hts₂⟩ := htype [] ts₁ _ (typeEnds_word h.apart _) hts₁
  rw [hwithin] at hread₂
  obtain ⟨ts₃, hname, hts₃⟩ := src.expectName_of_renders "field name" hts₂
  obtain ⟨ts₄, hread₄, hts₄⟩ := hvalue ts₃ _ (.cons (List.mem_singleton.mpr rfl) others) hts₃
  obtain ⟨ts₅, hend, hts₅⟩ := src.expectMark_of_renders hts₄
  refine ⟨ts₅, ?_, hts₅⟩
  simp only [readField, hpreamble, ok_bind, hread₂, hname, hread₄, hend, pure_eq_ok, hmodifiers,
    rereadField, howner, hsynthetic]
  cases hkind : x.isEnumConstant with
  | true =>
    simp only [if_true, withNullability_rereadAs_plain, hconstant hkind]
  | false =>
    simp only [Bool.not_false, Bool.false_eq_true, if_false, if_true, reread_plain _ h.type.plain]

end Signature
end ApiSurface
