import ApiSurface.Proofs.Layout.Brackets
import ApiSurface.Proofs.Layout.Reading
import ApiSurface.Proofs.RoundTrip.Legacy

/-!
# Reading stops where the written text ends

A reader takes the tokens of what was written and leaves those of the text behind it, just as they
are found in that text alone.  The text behind an annotation must not start with an opening bracket.
The text behind a type must not go on with the type, and its first token decides whether it does.
-/

namespace ApiSurface

namespace Annotation

open Scan (IsName IsLexeme)

/-- The literal is written as one token.  A name stands for a constant unless it says otherwise. -/
def Literal.IsToken : Literal → Prop
  | .string _ => True
  | .number source => IsLexeme ⟨.number, source.toList, source.toList⟩
  | .character source => IsLexeme ⟨.character, source.toList, '\'' :: source.toList ++ ['\'']⟩
  | .boolean _ => True
  | .classLiteral name => IsName name
  | .reference name =>
    IsName name ∧ name ≠ "true" ∧ name ≠ "false" ∧ ¬ ".class".toList <:+ name.toList

mutual

/-- All literals in the value are tokens, and so are all names of annotations and attributes. -/
def Value.IsSpelled : Value → Prop
  | .literal l => l.IsToken
  | .array values => Value.AreSpelled values
  | .nested name attributes => IsName name ∧ Value.AreNamed attributes

/-- All literals and names in the values are tokens. -/
def Value.AreSpelled : List Value → Prop
  | [] => True
  | v :: vs => v.IsSpelled ∧ Value.AreSpelled vs

/-- All names of attributes are tokens, and all literals and names in their values. -/
def Value.AreNamed : List (String × Value) → Prop
  | [] => True
  | (name, v) :: rest => (IsName name ∧ v.IsSpelled) ∧ Value.AreNamed rest

end

/-- The annotation can be written in tokens. -/
def IsSpelled (a : Annotation) : Prop :=
  IsName a.name ∧ Value.AreNamed a.attributes

end Annotation

namespace Signature

open Annotation (Value)
open Scan (IsName Spells Apart)

/-! ## Texts in front of others -/

/-- A reader that takes the signs of a text takes the tokens of that text and stops at those of
the text behind it. -/
theorem ReadsAs.exists_of_spells
    {α : Type} {r : Reader α} {F : List Sign → Prop} {signs : List Sign} {x : α}
    {shape : List Token → Prop} {P : List Token → α → List Token → Prop}
    (hread : ReadsAs r F signs x) (hgives : ∀ ts, Gives shape ts (r ts) (P ts))
    {text rest file : String}
    (hspells : Spells Apart text signs) {next : Scan} (hscan : scan file rest = .ok next)
    (hnext : F (Token.exactSigns next.tokens)) :
    ∃ whole front left, scan file (text ++ " " ++ rest) = .ok whole ∧
      whole.tokens = front ++ left ∧ Token.exactSigns left = Token.exactSigns next.tokens ∧
      r whole.tokens = .ok (x, left) := by
  have hreads := hspells.blank _ _ trivial (reads_of_scanFrom hscan)
  rw [← String.toList_append] at hreads
  obtain ⟨whole, hwhole, hrenders⟩ := hreads.scans.scanFrom_eq_ok file {}
  obtain ⟨left, hleft, hsigns⟩ := hread whole.tokens _ hnext hrenders
  obtain ⟨front, hfront, -⟩ := hgives whole.tokens x left hleft
  exact ⟨whole, front, left, hwhole, hfront, Token.exactSigns_eq_of_renders hsigns, hleft⟩

/-! ## Settings that texts do not depend on -/

namespace WriteSettings

theorem annotationName_congr
    {s s' : WriteSettings} (h : s'.omitted = s.omitted) (name : String) :
    s'.annotationName name = s.annotationName name := by
  rw [annotationName, annotationName, h]

mutual

/-- Values are written alike if the same packages are left off the names in them. -/
theorem valueSigns_congr {s s' : WriteSettings} (h : s'.omitted = s.omitted) :
    (v : Value) → s'.valueSigns v = s.valueSigns v
  | .literal _ => rfl
  | .array values => by rw [valueSigns, valueSigns, valuesSigns_congr h values]
  | .nested name attributes => by
    rw [valueSigns, valueSigns, annotationName_congr h, attributesSigns_congr h attributes]

theorem valuesSigns_congr {s s' : WriteSettings} (h : s'.omitted = s.omitted) :
    (values : List Value) → s'.valuesSigns values = s.valuesSigns values
  | [] => rfl
  | v :: vs => by rw [valuesSigns, valuesSigns, valueSigns_congr h v, valuesSigns_congr h vs]

theorem attributesSigns_congr {s s' : WriteSettings} (h : s'.omitted = s.omitted) :
    (attributes : List (String × Value)) →
      s'.attributesSigns attributes = s.attributesSigns attributes
  | [] => rfl
  | (_, v) :: rest => by
    rw [attributesSigns, attributesSigns, valueSigns_congr h v, attributesSigns_congr h rest]

end

theorem annotationSigns_congr
    {s s' : WriteSettings} (h : s'.omitted = s.omitted) (a : Annotation) :
    s'.annotationSigns a = s.annotationSigns a := by
  rw [annotationSigns, annotationSigns, annotationName_congr h, attributesSigns_congr h]

variable (s : WriteSettings)

mutual

/-- A type is written alike whether or not names and defaults of parameters are written. -/
theorem typeSignsWith_unabridged (varargs marked : Bool) : (t : TypeRef) →
    s.unabridged.typeSignsWith varargs marked t = s.typeSignsWith varargs marked t
  | ⟨name, arguments, dimensions, bound, nullability, annotations⟩ => by
    have hannotations : s.unabridged.annotationSigns = s.annotationSigns :=
      funext (annotationSigns_congr rfl)
    rw [typeSignsWith, typeSignsWith, typesSigns_unabridged arguments, boundSigns_unabridged bound,
      hannotations]
    rfl

theorem typesSigns_unabridged :
    (ts : List TypeRef) → s.unabridged.typesSigns ts = s.typesSigns ts
  | [] => rfl
  | t :: ts => by
    rw [typesSigns, typesSigns, typeSignsWith_unabridged false true t, typesSigns_unabridged ts]

theorem boundSigns_unabridged :
    (bound : Option (WildcardBound TypeRef)) → s.unabridged.boundSigns bound = s.boundSigns bound
  | none => rfl
  | some (.upper t) => by rw [boundSigns, boundSigns, typeSignsWith_unabridged false true t]
  | some (.lower t) => by rw [boundSigns, boundSigns, typeSignsWith_unabridged false true t]

end

end WriteSettings

/-! ## Annotations -/

theorem isLegibleLiteral_of_isToken
    {l : Annotation.Literal} (h : l.IsToken) : IsLegibleLiteral l := by
  cases l with
  | string | number | character | boolean => exact h
  | classLiteral name =>
    have hname : IsName name := h
    have hclass := hname.dot (show IsName "class" by decide)
    rwa [String.append_assoc] at hclass
  | reference name =>
    obtain ⟨hname, htrue, hfalse, hclass⟩ := h
    refine ⟨hname, ?_⟩
    rcases literalOfName_cases name with ⟨value, hl⟩ | ⟨outer, -, houter⟩ | hl
    · rw [literalOfName, if_neg htrue, if_neg hfalse] at hl
      split at hl <;> cases hl
    · rw [← houter, String.toList_append] at hclass
      exact absurd (List.suffix_append _ _) hclass
    · exact hl

mutual

theorem isLegibleValue_of_isSpelled : (v : Value) → v.IsSpelled → IsLegibleValue none v
  | .literal _ => fun h => .literal (isLegibleLiteral_of_isToken h)
  | .array values => fun h => .array (isLegible_of_areSpelled values h)
  | .nested _ attributes => fun h =>
    have hall := isLegible_of_areNamed attributes h.2
    .nested ⟨h.1, by simp⟩ (fun x hx => (hall x hx).1) fun x hx => (hall x hx).2

theorem isLegible_of_areSpelled :
    (values : List Value) → Value.AreSpelled values → ∀ v ∈ values, IsLegibleValue none v
  | [] => fun _ => List.forall_mem_nil _
  | v :: vs => fun h => List.forall_mem_cons.mpr
    ⟨isLegibleValue_of_isSpelled v h.1, isLegible_of_areSpelled vs h.2⟩

theorem isLegible_of_areNamed :
    (attributes : List (String × Value)) → Value.AreNamed attributes →
      ∀ x ∈ attributes, IsName x.1 ∧ IsLegibleValue none x.2
  | [] => fun _ => List.forall_mem_nil _
  | (_, v) :: rest => fun h => List.forall_mem_cons.mpr
    ⟨⟨h.1.1, isLegibleValue_of_isSpelled v h.1.2⟩, isLegible_of_areNamed rest h.2⟩

end

theorem isLegibleAnnotation_of_isSpelled
    {a : Annotation} (h : a.IsSpelled) : IsLegibleAnnotation none a := by
  obtain ⟨hname, hattributes⟩ := h
  have hall := isLegible_of_areNamed a.attributes hattributes
  exact ⟨⟨hname, by simp⟩, fun x hx => (hall x hx).1, fun x hx => (hall x hx).2⟩

/-- An annotation in front of any text that does not start with an opening bracket is read back, and
reading stops at the first token of that text. -/
theorem Source.readAnnotation_annotationText
    (s : WriteSettings) (src : Source) (homitted : s.omitted = none)
    (hcommon : src.settings.common = none) {a : Annotation} (h : a.IsSpelled)
    {file rest : String} {next : Scan} (hscan : scan file rest = .ok next)
    (hnext : atMark "(" next.tokens = false) :
    ∃ whole front left, scan file (s.annotationText a ++ " " ++ rest) = .ok whole ∧
      whole.tokens = front ++ left ∧ Token.exactSigns left = Token.exactSigns next.tokens ∧
      src.readAnnotation whole.tokens = .ok (a, left) := by
  have hlegible := isLegibleAnnotation_of_isSpelled h
  -- Settings that agree with the reader write the annotation alike.
  let s' := { s.unabridged with kotlinNulls := src.settings.kotlinNulls }
  have hagree : Agree s' src.settings := ⟨rfl, rfl, rfl, rfl, homitted.trans hcommon.symm⟩
  have hsigns : s'.annotationSigns a = s.annotationSigns a :=
    WriteSettings.annotationSigns_congr (show s'.omitted = s.omitted from rfl) a
  have hread := readsAs_annotation hagree (hcommon ▸ hlegible)
  rw [hsigns] at hread
  have hspells := spells_annotation s hlegible
  refine hread.exists_of_spells gives_annotationAt hspells hscan ?_
  cases htokens : next.tokens with
  | nil => exact notAt_nil "("
  | cons u us =>
    rw [htokens] at hnext
    exact hnext

/-- An annotation with several attributes, one of them nested, and a single value in short form. -/
def gridMarking : Annotation :=
  { name := "a.Grid"
    attributes :=
      [("value", .array [.literal (.number "-0x1F"), .literal (.character "\\'"),
          .literal (.classLiteral "java.lang.Class"), .literal (.boolean false), .array []]),
       ("of", .nested "Cell" [("value", .literal (.reference "value"))]),
       ("note", .literal (.string "(\"\n"))] }

theorem isSpelled_gridMarking : gridMarking.IsSpelled := by
  have hnumber : Annotation.Literal.IsToken (.number "-0x1F") := ⟨_, _, rfl, rfl, rfl⟩
  have hcharacter : Annotation.Literal.IsToken (.character "\\'") := ⟨_, _, rfl, rfl, rfl⟩
  have hclass : Annotation.Literal.IsToken (.classLiteral "java.lang.Class") :=
    show IsName _ by decide
  have hreference : Annotation.Literal.IsToken (.reference "value") :=
    ⟨by decide, by decide, by decide, by decide⟩
  have hplain : Annotation.Literal.IsToken (.boolean false) ∧
      Annotation.Literal.IsToken (.string "(\"\n") := ⟨trivial, trivial⟩
  simp only [gridMarking, Annotation.IsSpelled, Value.AreNamed, Value.IsSpelled,
    Value.AreSpelled, hnumber, hcharacter, hclass, hreference, hplain]
  decide

/-- The annotation in front of another one. -/
theorem readAnnotation_gridMarking :
    ∃ next whole front left, scan "" "@Cell (1)" = .ok next ∧
      scan "" ("@a.Grid(value=\x7b-0x1F, '\\'', java.lang.Class.class, false, \x7b\x7d\x7d, " ++
        "of=@Cell(value), note=\"(\\\"\\n\") @Cell (1)") = .ok whole ∧
      whole.tokens = front ++ left ∧ Token.exactSigns left = Token.exactSigns next.tokens ∧
      Source.readAnnotation { settings := Format.v3.readSettings none, finish := next.finish }
          whole.tokens =
        .ok (gridMarking, left) := by
  have hat : (scan "" "@Cell (1)").toOption.map (fun next => atMark "(" next.tokens) =
      some false := by
    decide +kernel
  cases hscan : scan "" "@Cell (1)" with
  | error fault =>
    rw [hscan] at hat
    cases hat
  | ok next =>
    rw [hscan] at hat
    have htext : (Format.v3.settings none .live .name).annotationText gridMarking ++ " " ++
        "@Cell (1)" =
          "@a.Grid(value=\x7b-0x1F, '\\'', java.lang.Class.class, false, \x7b\x7d\x7d, " ++
        "of=@Cell(value), note=\"(\\\"\\n\") @Cell (1)" := by
      decide +kernel
    obtain ⟨whole, front, left, hwhole, hread⟩ := Source.readAnnotation_annotationText
      (Format.v3.settings none .live .name)
      { settings := Format.v3.readSettings none, finish := next.finish } rfl rfl
      isSpelled_gridMarking hscan (Option.some.inj hat)
    exact ⟨next, whole, front, left, rfl, htext ▸ hwhole, hread⟩

/-! ## Types -/

/-- The token does not go on with a type in front of it. -/
def EndsType (t : Token) : Prop :=
  (∀ mark ∈ ["<", "[", "...", "?", "!"], t.isMark mark = false) ∧
    ∀ word ∈ ["extends", "super"], t.isWord word = false

theorem typeEnds_exactSigns
    {ts : List Token} (h : ∀ t ∈ ts.head?, EndsType t) (type : TypeRef) :
    TypeEnds type (Token.exactSigns ts) := by
  cases ts with
  | nil => exact ⟨fun mark _ => rfl, fun _ => ⟨rfl, rfl⟩⟩
  | cons t ts =>
    obtain ⟨hmarks, hwords⟩ := h t rfl
    exact ⟨hmarks, fun _ => ⟨hwords "extends" (by decide), hwords "super" (by decide)⟩⟩

theorem rebuilt_annotations
    (f : String → String) (name : String) (arguments : List TypeRef) (dimensions : Nat)
    (bound : Option (WildcardBound TypeRef)) (nullability : Nullability) :
    (rebuilt f name arguments dimensions bound nullability).annotations = [] := by
  by_cases hname : name = "?"
  · rw [rebuilt, if_pos hname]
    rfl
  · obtain ⟨n, hrebuilt, -⟩ := rebuilt_named f hname arguments dimensions bound nullability
    rw [hrebuilt]

/-- A type all of whose names are restored is read back but for its annotations. -/
theorem rereadAs_self
    {common : Option CommonPackages} {f : String → String} {t : TypeRef}
    (h : IsLegibleType common t) (hrestored : ∀ name, f name = name) :
    rereadAs f t.nullability t = { t with annotations := [] } := by
  have hplain : (rereadAs f t.nullability t).annotations = [] := rebuilt_annotations ..
  have hself : { rereadAs f t.nullability t with annotations := t.annotations } = t :=
    (reread_eq f t).symm.trans ((reread_eq_self_iff h).mpr fun name _ _ => hrestored name)
  have hclear : ∀ u : TypeRef, u.annotations = [] → u = { u with annotations := [] } := by
    intro u hu
    cases u
    cases hu
    rfl
  calc rereadAs f t.nullability t
      = { rereadAs f t.nullability t with annotations := [] } := hclear _ hplain
    _ = { t with annotations := [] } := congrArg (fun u => { u with annotations := [] }) hself

/-- A type in front of any text that does not go on with it is read back with its annotations apart,
and reading stops at the first token of that text. -/
theorem Source.readType_typeText
    (s : WriteSettings) (src : Source) (hannotations : s.capabilities.annotations = true)
    (homitted : s.omitted = none) (hcommon : src.settings.common = none)
    (hnulls : src.settings.kotlinNulls = s.kotlinNulls) {t : TypeRef} (h : IsLegibleType none t)
    {varargs : Bool} (hvarargs : varargs = true → 0 < t.dimensions) {file rest : String}
    {next : Scan} (hscan : scan file rest = .ok next)
    (hnext : ∀ u ∈ next.tokens.head?, EndsType u) :
    ∃ whole front left,
      scan file (s.typeTextWith varargs true t ++ " " ++ rest) = .ok whole ∧
      whole.tokens = front ++ left ∧ Token.exactSigns left = Token.exactSigns next.tokens ∧
      src.readType whole.tokens =
        .ok (⟨t.annotations, { t with annotations := [] }, varargs⟩, left) := by
  have hagree : Agree s.unabridged src.settings :=
    ⟨rfl, rfl, rfl, hnulls.symm, homitted.trans hcommon.symm⟩
  have hrestored : ∀ name, src.restored s.unabridged name = name := by
    intro name
    have hkept : s.unabridged.typeName name = name := by
      rw [WriteSettings.typeName, show s.unabridged.omitted = none from homitted]
    rw [restored, hkept, typeName, hcommon]
  have hnamed : varargs = true → t.name ≠ "?" ∧ 0 < t.dimensions := by
    intro hdots
    refine ⟨fun hname => ?_, hvarargs hdots⟩
    have hpos := hvarargs hdots
    cases h with
    | bare | upper | lower => cases hpos
    | named _ hisName => exact hisName.ne_wildcard hname
  have hread := readsAs_type hagree (hcommon ▸ h) hnamed true
  rw [if_pos rfl, rereadAs_self h hrestored, s.typeSignsWith_unabridged] at hread
  exact hread.exists_of_spells gives_type
    (spells_typeWith hannotations h varargs true) hscan (typeEnds_exactSigns hnext t)

/-- A nullable array of maps, with annotations and a wildcard inside. -/
def mapsType : TypeRef :=
  { name := "java.util.Map"
    arguments :=
      [{ name := "?", bound := some (.lower { name := "T", dimensions := 1 }) },
       { name := "int", dimensions := 1, nullability := .nonNull
         annotations := [{ name := "a.Unit" }] }]
    dimensions := 1
    nullability := .nullable
    annotations := [{ name := "a.Held", attributes := [("value", .literal (.string "..."))] }] }

theorem isLegible_mapsType : IsLegibleType none mapsType := by
  have hname : ∀ {name : String}, IsName name → IsAnnotationName none name :=
    fun h => ⟨h, by simp⟩
  have hheld : AreTypeAnnotations none mapsType.annotations := by
    refine List.forall_mem_singleton.mpr ⟨⟨hname (by decide), ?_, ?_⟩, by decide⟩
    · exact List.forall_mem_singleton.mpr (by decide)
    · exact List.forall_mem_singleton.mpr (.literal trivial)
  have hunit : AreTypeAnnotations none [{ name := "a.Unit" }] :=
    List.forall_mem_singleton.mpr ⟨⟨hname (by decide), by simp, by simp⟩, by decide⟩
  have hnone : AreTypeAnnotations none [] := List.forall_mem_nil _
  refine .named hheld (by decide) (by decide) ?_
  refine List.forall_mem_cons.mpr ⟨.lower hnone ?_, List.forall_mem_singleton.mpr ?_⟩
  · exact .named hnone (by decide) (by decide) (List.forall_mem_nil _)
  · exact .named hunit (by decide) (by decide) (List.forall_mem_nil _)

/-- The type as that of a varying parameter, in front of the name of the parameter. -/
theorem readType_mapsType :
    ∃ next whole front left, scan "" "args)" = .ok next ∧
      scan "" "@a.Held(\"...\") java.util.Map<? super T[]!, @a.Unit int[]>...? args)" = .ok whole ∧
      whole.tokens = front ++ left ∧ Token.exactSigns left = Token.exactSigns next.tokens ∧
      Source.readType { settings := Format.v3.readSettings none, finish := next.finish }
          whole.tokens =
        .ok (⟨mapsType.annotations, { mapsType with annotations := [] }, true⟩, left) := by
  have hspells : Spells Scan.Anything "args)" [.word "args", .mark ")"] :=
    (Scan.spells_name (show IsName "args" by decide)).append
      (Scan.spells_mark (show ")" ∈ Scan.markTexts by decide))
      fun rest _ => (Scan.Apart.cons (by decide)).nameEnds
  obtain ⟨next, hscan, hrenders⟩ := hspells.scan_eq_ok ""
  have hends : ∀ u ∈ next.tokens.head?, EndsType u := by
    generalize next.tokens = ts at hrenders
    intro u hu
    cases hrenders with
    | cons hargs _ =>
      cases hu
      refine ⟨fun mark _ => (hargs.isMark_eq mark).trans (Sign.isMark_word _ _), ?_⟩
      intro word hword
      rw [hargs.isWord_eq]
      revert word
      decide
  have htext : (Format.v3.settings none .live .name).typeTextWith true true mapsType ++ " " ++
      "args)" = "@a.Held(\"...\") java.util.Map<? super T[]!, @a.Unit int[]>...? args)" := by
    decide +kernel
  obtain ⟨whole, front, left, hwhole, hread⟩ := Source.readType_typeText
    (Format.v3.settings none .live .name)
    { settings := Format.v3.readSettings none, finish := next.finish } rfl rfl rfl rfl
    isLegible_mapsType (fun _ => show 0 < mapsType.dimensions by decide) hscan hends
  exact ⟨next, whole, front, left, hscan, htext ▸ hwhole, hread⟩

end Signature
end ApiSurface
