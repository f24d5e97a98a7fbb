import ApiSurface.Proofs.Quoted
import ApiSurface.Proofs.RoundTrip.Names

/-!
# Annotations are read back

The values of annotations nest, so the signs of a value are defined along with its text, and the
induction is on how the value is built.
-/

namespace ApiSurface
namespace Signature

open Annotation (Literal Value)
open Scan (IsName IsLexeme Spells Apart Anything separated)

/-! ## Annotations that can be written -/

/-- The literal is one token as written. -/
def IsLegibleLiteral : Literal → Prop
  | .string _ => True
  | .number source => IsLexeme ⟨.number, source.toList, source.toList⟩
  | .character source => IsLexeme ⟨.character, source.toList, '\'' :: source.toList ++ ['\'']⟩
  | .boolean _ => True
  | .classLiteral name => IsName (name ++ ".class")
  | .reference name => IsName name ∧ literalOfName name = .reference name

/-- All names and literals in the value can be written and read back. -/
inductive IsLegibleValue (common : Option CommonPackages) : Value → Prop where
  | literal {l : Literal} (h : IsLegibleLiteral l) : IsLegibleValue common (.literal l)
  | array {values : List Value} (h : ∀ v ∈ values, IsLegibleValue common v) :
      IsLegibleValue common (.array values)
  | nested {name : String} {attributes : List (String × Value)}
      (hname : IsAnnotationName common name) (hnames : ∀ a ∈ attributes, IsName a.1)
      (h : ∀ a ∈ attributes, IsLegibleValue common a.2) :
      IsLegibleValue common (.nested name attributes)

/-- The annotation can be written and read back. -/
structure IsLegibleAnnotation (common : Option CommonPackages) (a : Annotation) : Prop where
  name : IsAnnotationName common a.name
  attributeNames : ∀ x ∈ a.attributes, IsName x.1
  attributes : ∀ x ∈ a.attributes, IsLegibleValue common x.2

/-! ## Signs -/

def literalSign : Literal → Sign
  | .string contents => { kind := .string, text := contents }
  | .number source => { kind := .number, text := source }
  | .character source => { kind := .character, text := source }
  | .boolean value => .word (if value then "true" else "false")
  | .classLiteral name => .word (name ++ ".class")
  | .reference name => .word name

def argumentSigns : List (String × List Sign) → List Sign
  | [] => []
  | [("value", signs)] => .mark "(" :: signs ++ [.mark ")"]
  | attributes =>
    .mark "(" :: separated (.mark ",") (attributes.map fun a => .word a.1 :: .mark "=" :: a.2) ++
      [.mark ")"]

namespace WriteSettings

mutual

def valueSigns (s : WriteSettings) : Value → List Sign
  | .literal literal => [literalSign literal]
  | .array values =>
    .mark Token.openBrace :: separated (.mark ",") (valuesSigns s values) ++
      [.mark Token.closeBrace]
  | .nested name attributes =>
    .mark "@" :: .word (s.annotationName name) :: argumentSigns (attributesSigns s attributes)

def valuesSigns (s : WriteSettings) : List Value → List (List Sign)
  | [] => []
  | v :: vs => valueSigns s v :: valuesSigns s vs

def attributesSigns (s : WriteSettings) : List (String × Value) → List (String × List Sign)
  | [] => []
  | (name, v) :: rest => (name, valueSigns s v) :: attributesSigns s rest

end

def annotationSigns (s : WriteSettings) (a : Annotation) : List Sign :=
  .mark "@" :: .word (s.annotationName a.name) :: argumentSigns (s.attributesSigns a.attributes)

theorem valueTexts_eq_map (s : WriteSettings) (values : List Value) :
    s.valueTexts values = values.map s.valueText := by
  induction values with
  | nil => rfl
  | cons v vs ih => rw [valueTexts, ih, List.map_cons]

theorem attributeTexts_eq_map (s : WriteSettings) (attributes : List (String × Value)) :
    s.attributeTexts attributes = attributes.map fun a => (a.1, s.valueText a.2) := by
  induction attributes with
  | nil => rfl
  | cons a as ih => rw [attributeTexts, ih, List.map_cons]

theorem valuesSigns_eq_map (s : WriteSettings) (values : List Value) :
    s.valuesSigns values = values.map s.valueSigns := by
  induction values with
  | nil => rfl
  | cons v vs ih => rw [valuesSigns, ih, List.map_cons]

theorem attributesSigns_eq_map (s : WriteSettings) (attributes : List (String × Value)) :
    s.attributesSigns attributes = attributes.map fun a => (a.1, s.valueSigns a.2) := by
  induction attributes with
  | nil => rfl
  | cons a as ih => rw [attributesSigns, ih, List.map_cons]

end WriteSettings

/-! ## Texts -/

theorem spells_literal
    {l : Literal} (h : IsLegibleLiteral l) : Spells Apart (literalText l) [literalSign l] := by
  have hname : ∀ {name : String}, IsName name → Spells Apart name [.word name] :=
    fun h => (Scan.spells_name h).mono fun _ => Scan.Apart.nameEnds
  cases l with
  | string contents =>
    simpa [literalText, literalSign] using Scan.spells_lexeme (Scan.isLexeme_encode contents)
  | number source => simpa [literalText, literalSign] using Scan.spells_lexeme h
  | character source =>
    have hspells := Scan.spells_lexeme h
    have htext : "'" ++ source ++ "'" = String.ofList ('\'' :: source.toList ++ ['\'']) := by
      apply String.toList_inj.mp
      simp [String.toList_append]
    simpa [literalText, htext, literalSign] using hspells
  | boolean value =>
    cases value with
    | true => exact hname (show IsName "true" by decide)
    | false => exact hname (show IsName "false" by decide)
  | classLiteral name => exact hname h
  | reference name => exact hname h.1

/-- Arguments are a single value or have names. -/
theorem arguments_cases
    (attributes : List (String × Value)) :
    attributes = [] ∨ (∃ v, attributes = [("value", v)]) ∨
      attributes ≠ [] ∧ ∀ v, attributes ≠ [("value", v)] := by
  by_cases hnil : attributes = []
  · exact .inl hnil
  by_cases hvalue : ∃ v, attributes = [("value", v)]
  · exact .inr (.inl hvalue)
  · exact .inr (.inr ⟨hnil, fun v hv => hvalue ⟨v, hv⟩⟩)

theorem argumentsText_of_named
    {attributes : List (String × Value)} (text : Value → String) (hne : attributes ≠ [])
    (hvalue : ∀ v, attributes ≠ [("value", v)]) :
    argumentsText (attributes.map fun a => (a.1, text a.2)) =
      "(" ++ Text.join ", " (attributes.map fun a => a.1 ++ "=" ++ text a.2) ++ ")" := by
  rw [argumentsText, List.map_map]
  · rfl
  · simpa using hne
  · intro t ht
    obtain ⟨a, rfl, ha⟩ := List.map_eq_singleton_iff.mp ht
    obtain ⟨hname, -⟩ := Prod.mk.inj ha
    exact hvalue a.2 (by rw [← hname])

theorem argumentSigns_of_named
    {attributes : List (String × Value)} (signs : Value → List Sign) (hne : attributes ≠ [])
    (hvalue : ∀ v, attributes ≠ [("value", v)]) :
    argumentSigns (attributes.map fun a => (a.1, signs a.2)) =
      .mark "(" :: separated (.mark ",")
        (attributes.map fun a => .word a.1 :: .mark "=" :: signs a.2) ++ [.mark ")"] := by
  rw [argumentSigns, List.map_map]
  · rfl
  · simpa using hne
  · intro t ht
    obtain ⟨a, rfl, ha⟩ := List.map_eq_singleton_iff.mp ht
    obtain ⟨hname, -⟩ := Prod.mk.inj ha
    exact hvalue a.2 (by rw [← hname])

theorem apart_comma (rest : List Char) : Apart (", ".toList ++ rest) :=
  Scan.Apart.cons (by decide)

theorem spells_comma : Spells Anything ", " [.mark ","] :=
  Scan.spells_mark_blank (by decide : "," ∈ Scan.markTexts)

theorem spells_arguments
    {attributes : List (String × Value)} {text : Value → String} {signs : Value → List Sign}
    (hnames : ∀ a ∈ attributes, IsName a.1)
    (h : ∀ a ∈ attributes, Spells Apart (text a.2) (signs a.2)) :
    Spells Apart (argumentsText (attributes.map fun a => (a.1, text a.2)))
      (argumentSigns (attributes.map fun a => (a.1, signs a.2))) := by
  have hopen : Spells Anything "(" [.mark "("] := Scan.spells_mark (by decide)
  have hclose : Spells Apart ")" [.mark ")"] :=
    (Scan.spells_mark (by decide)).mono fun _ _ => trivial
  have hapart : ∀ rest, Apart rest → Apart (")".toList ++ rest) :=
    fun rest _ => Scan.Apart.cons (by decide)
  rcases arguments_cases attributes with rfl | ⟨v, rfl⟩ | ⟨hne, hvalue⟩
  · exact Scan.spells_empty _
  · have hv := h ("value", v) (by simp)
    have hspells := hopen.seq (hv.append hclose hapart)
    rwa [← String.append_assoc] at hspells
  · rw [argumentsText_of_named text hne hvalue, argumentSigns_of_named signs hne hvalue]
    have hequals : Spells Anything "=" [.mark "="] := Scan.spells_mark (by decide)
    have hitems : ∀ a ∈ attributes,
        Spells Apart (a.1 ++ "=" ++ text a.2) (.word a.1 :: .mark "=" :: signs a.2) := by
      intro a ha
      have hname : Spells Anything (a.1 ++ "=") [.word a.1, .mark "="] :=
        (Scan.spells_name (hnames a ha)).append hequals fun rest _ =>
          (Scan.Apart.cons (by decide)).nameEnds
      exact hname.seq (h a ha)
    have hlist := Scan.spells_join spells_comma apart_comma hitems
    have hspells := hopen.seq (hlist.append hclose hapart)
    rwa [← String.append_assoc] at hspells

theorem nameEnds_arguments
    (attributes : List (String × String)) {rest : List Char} (h : Scan.NameEnds rest) :
    Scan.NameEnds ((argumentsText attributes).toList ++ rest) := by
  fun_cases argumentsText attributes with
  | case1 => exact h
  | case2 text =>
    rw [String.toList_append, String.toList_append]
    exact (Scan.Apart.cons (by decide)).nameEnds
  | case3 =>
    rw [String.toList_append, String.toList_append]
    exact (Scan.Apart.cons (by decide)).nameEnds

theorem spells_named
    {name : String} {attributes : List (String × Value)} {text : Value → String}
    {signs : Value → List Sign} (hname : IsName name) (hnames : ∀ a ∈ attributes, IsName a.1)
    (h : ∀ a ∈ attributes, Spells Apart (text a.2) (signs a.2)) :
    Spells Apart ("@" ++ name ++ argumentsText (attributes.map fun a => (a.1, text a.2)))
      (.mark "@" :: .word name :: argumentSigns (attributes.map fun a => (a.1, signs a.2))) := by
  have hat : Spells Anything "@" [.mark "@"] := Scan.spells_mark (by decide)
  have hspells := (hat.seq (Scan.spells_name hname)).append (spells_arguments hnames h)
    fun rest hrest => nameEnds_arguments _ hrest.nameEnds
  exact hspells

/-- A value spells its signs. -/
theorem spells_value
    {common : Option CommonPackages} (s : WriteSettings) {v : Value} (h : IsLegibleValue common v) :
    Spells Apart (s.valueText v) (s.valueSigns v) := by
  induction h with
  | literal hl =>
    rw [WriteSettings.valueText, WriteSettings.valueSigns]
    exact spells_literal hl
  | array _ ih =>
    rw [WriteSettings.valueText, WriteSettings.valueSigns, s.valueTexts_eq_map,
      s.valuesSigns_eq_map]
    have hlist := Scan.spells_join spells_comma apart_comma ih
    have hopen : Spells Anything Token.openBrace [.mark Token.openBrace] :=
      Scan.spells_mark (by decide)
    have hclose : Spells Apart Token.closeBrace [.mark Token.closeBrace] :=
      (Scan.spells_mark (by decide)).mono fun _ _ => trivial
    have hspells := hopen.seq (hlist.append hclose fun rest _ => Scan.Apart.cons (by decide))
    rwa [← String.append_assoc] at hspells
  | nested hname hnames _ ih =>
    rw [WriteSettings.valueText, WriteSettings.valueSigns, s.attributeTexts_eq_map,
      s.attributesSigns_eq_map]
    exact spells_named (isName_annotationName hname.isName) hnames ih

theorem spells_annotation
    {common : Option CommonPackages} (s : WriteSettings) {a : Annotation}
    (h : IsLegibleAnnotation common a) :
    Spells Apart (s.annotationText a) (s.annotationSigns a) := by
  rw [WriteSettings.annotationText, WriteSettings.annotationSigns, s.attributeTexts_eq_map,
    s.attributesSigns_eq_map]
  exact spells_named (isName_annotationName h.name.isName) h.attributeNames
    fun x hx => spells_value s (h.attributes x hx)

theorem spells_annotations
    {common : Option CommonPackages} {s : WriteSettings} (hs : s.capabilities.annotations = true)
    {annotations : List Annotation} (h : ∀ a ∈ annotations, IsLegibleAnnotation common a) :
    Spells Anything (s.annotationsText annotations) (annotations.flatMap s.annotationSigns) := by
  rw [WriteSettings.annotationsText, if_pos hs]
  refine Scan.spells_concat fun a ha => ?_
  have hspells := spells_annotation s (h a ha)
  exact hspells.blank

/-! ## Reading back -/

/-- A value starts with no closing mark, and is a single sign if it starts with a name. -/
theorem valueSigns_start (s : WriteSettings) (v : Value) :
    ∃ x signs, s.valueSigns v = x :: signs ∧ x.isMark ")" = false ∧
      x.isMark Token.closeBrace = false ∧ (x.isName = true → signs = []) := by
  cases v with
  | literal l =>
    refine ⟨literalSign l, [], by rw [WriteSettings.valueSigns], ?_⟩
    cases l <;> simp [literalSign, Sign.isMark, Sign.word]
  | array values =>
    exact ⟨_, _, by rw [WriteSettings.valueSigns]; rfl, by decide, by decide, by simp⟩
  | nested name attributes =>
    exact ⟨_, _, by rw [WriteSettings.valueSigns], by decide, by decide, by simp⟩

theorem splitLast_append
    (mark : Char) (before : List Char) {behind : List Char} (h : mark ∉ behind) :
    Text.splitLast mark (before ++ mark :: behind) = some (before, behind) := by
  have hnone : ∀ {cs : List Char}, mark ∉ cs → Text.splitLast mark cs = none := by
    intro cs hcs
    induction cs with
    | nil => rfl
    | cons c cs ih =>
      simp only [List.mem_cons, not_or] at hcs
      rw [Text.splitLast, ih hcs.2, if_neg (Ne.symm hcs.1)]
  induction before with
  | nil => rw [List.nil_append, Text.splitLast, hnone h, if_pos rfl]
  | cons c cs ih => rw [List.cons_append, Text.splitLast, ih]

theorem literalOfName_class (name : String) :
    literalOfName (name ++ ".class") = .classLiteral name := by
  have hsplit : Text.splitLast '.' (name ++ ".class").toList =
      some (name.toList, ['c', 'l', 'a', 's', 's']) := by
    rw [String.toList_append]
    exact splitLast_append '.' name.toList (by decide)
  have hne : ∀ word : String, '.' ∉ word.toList → name ++ ".class" ≠ word := by
    rintro word hword rfl
    exact hword (by simp [String.toList_append])
  rw [literalOfName, if_neg (hne _ (by decide)), if_neg (hne _ (by decide)), hsplit]
  simp

namespace Source

theorem readValue_literal
    (src : Source) {l : Literal} (h : IsLegibleLiteral l) {t : Token} (hs : t.Shows (literalSign l))
    (depth : Nat) (ts : List Token) :
    src.readValue (depth + 1) (t :: ts) = .ok (.literal l, ts) := by
  have hword : ∀ {name : String}, literalSign l = .word name → literalOfName name = l →
      src.readValue (depth + 1) (t :: ts) = .ok (.literal l, ts) := by
    intro name hsign hname
    have hkind := hs.kind
    have htext := hs.text
    rw [hsign] at hkind htext
    simp only [Sign.word] at hkind htext
    simp only [readValue, hkind, htext, hname]
  have hkind := hs.kind
  have htext := hs.text
  cases l with
  | string contents =>
    simp only [literalSign] at hkind htext
    simp only [readValue, hkind, htext]
  | number source =>
    simp only [literalSign] at hkind htext
    simp only [readValue, hkind, htext]
  | character source =>
    simp only [literalSign] at hkind htext
    simp only [readValue, hkind, htext]
  | boolean value =>
    cases value with
    | true => exact hword rfl rfl
    | false => exact hword rfl rfl
  | classLiteral name => exact hword rfl (literalOfName_class name)
  | reference name => exact hword rfl h.2

theorem readsAs_attribute
    (src : Source) {s : WriteSettings} {value : Reader Value} (name : String) {v : Value}
    (h : ReadsAs value (NotAt "(") (s.valueSigns v) v) :
    ReadsAs (src.readAttribute value) (NotAt "(") (.word name :: .mark "=" :: s.valueSigns v)
      (name, v) := by
  intro ts others hothers hts
  obtain ⟨ts₁, hname, hts₁⟩ := src.expectName_of_renders "attribute name" hts
  obtain ⟨ts₂, hequals, hts₂⟩ := src.expectMark_of_renders hts₁
  obtain ⟨ts₃, hvalue, hts₃⟩ := h ts₂ others hothers hts₂
  refine ⟨ts₃, ?_, hts₃⟩
  simp only [readAttribute, hname, hequals, hvalue, ok_bind, pure_eq_ok]

/-- The arguments of an annotation are read back, given a reader that reads back their values. -/
theorem readsAs_attributes
    (src : Source) {s : WriteSettings} {value : Reader Value} {attributes : List (String × Value)}
    (h : ∀ a ∈ attributes, ReadsAs value (NotAt "(") (s.valueSigns a.2) a.2) :
    ReadsAs (src.readAttributes value) (NotAt "(") (argumentSigns (s.attributesSigns attributes))
      attributes := by
  rw [s.attributesSigns_eq_map]
  intro ts others hothers hts
  rcases arguments_cases attributes with rfl | ⟨v, rfl⟩ | ⟨hne, hnamed⟩
  · refine ⟨ts, ?_, hts⟩
    rw [readAttributes, atMark_eq_false hts hothers]
    rfl
  · have hopen : Renders ts (.mark "(" :: (s.valueSigns v ++ .mark ")" :: others)) := by
      simpa [argumentSigns] using hts
    have hinner : Renders ts.tail (s.valueSigns v ++ .mark ")" :: others) := hopen.tail
    obtain ⟨x, signs, hsigns, hclose, -, hsingle⟩ := valueSigns_start s v
    obtain ⟨ts₁, hvalue, hts₁⟩ := h _ List.mem_cons_self ts.tail (.mark ")" :: others)
      (by simp) hinner
    obtain ⟨ts₂, hexpect, hts₂⟩ := src.expectMark_of_renders hts₁
    refine ⟨ts₂, ?_, hts₂⟩
    -- A single value that is a name is not taken for the name of an attribute.
    have hunnamed : (atName ts.tail && atMark "=" ts.tail.tail) = false := by
      rw [hsigns] at hinner
      rw [atName_of_renders hinner, atMark_of_renders hinner.tail]
      cases hx : x.isName with
      | false => simp [hx]
      | true => simp [hsingle hx]
    have hnonempty : atMark ")" ts.tail = false := by
      rw [hsigns] at hinner
      rw [atMark_of_renders hinner]
      simpa using hclose
    rw [readAttributes, atMark_of_renders hopen]
    simp only [hnonempty, hunnamed, hvalue, hexpect, ok_bind, pure_eq_ok]
    simp
  · rw [argumentSigns_of_named s.valueSigns hne hnamed] at hts
    have hopen : Renders ts (.mark "(" :: (separated (.mark ",")
        (attributes.map fun a => .word a.1 :: .mark "=" :: s.valueSigns a.2) ++
          .mark ")" :: others)) := by
      simpa using hts
    have hinner := hopen.tail
    have hrounds : attributes.length ≤ ts.length := by
      have hlength := hopen.length_eq
      have hcount := Scan.length_le_length_separated (.mark ",")
        (attributes.map fun a => .word a.1 :: .mark "=" :: s.valueSigns a.2)
      simp only [List.length_cons, List.length_append, List.length_map] at hlength hcount
      omega
    have hlist := src.readsAs_list (by decide : ")" ≠ ",") (by simp) (by simp) hne hrounds
      fun a ha => src.readsAs_attribute a.1 (h a ha)
    obtain ⟨ts₁, hread, hts₁⟩ := hlist ts.tail others trivial (by simpa using hinner)
    refine ⟨ts₁, ?_, hts₁⟩
    obtain ⟨a, as, rfl⟩ := List.exists_cons_of_ne_nil hne
    obtain ⟨more, hmore⟩ := Scan.separated_cons (.mark ",")
      (.word a.1 :: .mark "=" :: s.valueSigns a.2)
      (as.map fun a => .word a.1 :: .mark "=" :: s.valueSigns a.2)
    rw [List.tail_cons, List.map_cons, hmore] at hinner
    rw [readAttributes, atMark_of_renders hopen, atMark_of_renders hinner,
      atName_of_renders hinner, atMark_of_renders hinner.tail]
    simpa using hread

/-- An annotation is read back, given a reader that reads back the values in it. -/
theorem readsAs_annotationWith
    {src : Source} {s : WriteSettings} (hagree : Agree s src.settings) {value : Reader Value}
    {name : String} {attributes : List (String × Value)}
    (hname : IsAnnotationName src.settings.common name)
    (h : ∀ a ∈ attributes, ReadsAs value (NotAt "(") (s.valueSigns a.2) a.2) :
    ReadsAs (src.readAnnotationWith value) (NotAt "(") (s.annotationSigns ⟨name, attributes⟩)
      ⟨name, attributes⟩ := by
  intro ts others hothers hts
  obtain ⟨ts₁, hat, hts₁⟩ := src.expectMark_of_renders hts
  obtain ⟨ts₂, hread, hts₂⟩ := src.expectName_of_renders "annotation name" hts₁
  obtain ⟨ts₃, hattributes, hts₃⟩ := src.readsAs_attributes h ts₂ others hothers hts₂
  refine ⟨ts₃, ?_, hts₃⟩
  simp only [readAnnotationWith, hat, hread, hattributes, ok_bind, pure_eq_ok,
    annotationName_annotationName hagree hname]

theorem length_valueSigns_lt
    {s : WriteSettings} {a : Annotation} {x : String × Value} (h : x ∈ a.attributes) :
    (s.valueSigns x.2).length < (s.annotationSigns a).length := by
  rw [WriteSettings.annotationSigns, s.attributesSigns_eq_map]
  rcases arguments_cases a.attributes with hnil | ⟨v, hv⟩ | ⟨hne, hnamed⟩
  · rw [hnil] at h
    cases h
  · rw [hv] at h
    obtain rfl : x = ("value", v) := by simpa using h
    simp [hv, argumentSigns]
    omega
  · rw [argumentSigns_of_named s.valueSigns hne hnamed]
    have hmem := Scan.length_le_of_mem_separated (.mark ",")
      (List.mem_map_of_mem (f := fun a : String × Value =>
        Sign.word a.1 :: Sign.mark "=" :: s.valueSigns a.2) h)
    simp only [List.length_cons, List.length_append] at hmem ⊢
    omega

/-- A value is read back by a reader that goes at least as deep. -/
theorem readsAs_annotationValue
    {src : Source} {s : WriteSettings} (hagree : Agree s src.settings) {v : Value}
    (h : IsLegibleValue src.settings.common v) {depth : Nat}
    (hdepth : (s.valueSigns v).length ≤ depth) :
    ReadsAs (src.readValue depth) (NotAt "(") (s.valueSigns v) v := by
  induction h generalizing depth with
  | literal hl =>
    intro ts others _ hts
    rw [WriteSettings.valueSigns] at hts hdepth
    obtain ⟨depth, rfl⟩ : ∃ n, depth = n + 1 := ⟨depth - 1, by simp at hdepth; omega⟩
    cases hts with
    | cons hs hrest => exact ⟨_, src.readValue_literal hl hs depth _, hrest⟩
  | @array values _ ih =>
    rw [WriteSettings.valueSigns, s.valuesSigns_eq_map] at hdepth ⊢
    obtain ⟨depth, rfl⟩ : ∃ n, depth = n + 1 := ⟨depth - 1, by simp at hdepth; omega⟩
    have hinner : ∀ v ∈ values, ReadsAs (src.readValue depth) (NotAt "(") (s.valueSigns v) v := by
      intro v hv
      have hmem := Scan.length_le_of_mem_separated (.mark ",")
        (List.mem_map_of_mem (f := s.valueSigns) hv)
      refine ih v hv ?_
      simp only [List.length_cons, List.length_append] at hdepth
      omega
    intro ts others _ hts
    obtain ⟨t, ts, rfl⟩ : ∃ t ts', ts = t :: ts' := by
      cases hts
      exact ⟨_, _, rfl⟩
    have hkind : t.kind = .punctuation := (List.forall₂_cons.mp hts).1.kind
    have htext : t.text = Token.openBrace := (List.forall₂_cons.mp hts).1.text
    have hrest := hts.tail
    simp only [List.cons_append, List.tail_cons, List.append_assoc] at hrest
    cases values with
    | nil =>
      refine ⟨ts.tail, ?_, hrest.tail⟩
      simp only [readValue, hkind, htext, atMark_of_renders hrest]
      rfl
    | cons v values =>
      have hrounds : (v :: values).length ≤ ts.length + 1 := by
        have hlength := hrest.length_eq
        have hcount := Scan.length_le_length_separated (.mark ",") ((v :: values).map s.valueSigns)
        simp only [List.length_append, List.length_cons, List.length_map] at hlength hcount ⊢
        omega
      have hlist := src.readsAs_list (by decide : Token.closeBrace ≠ ",") (by simp)
        (fun js => by simp [Token.closeBrace]) (List.cons_ne_nil v values) hrounds hinner
      obtain ⟨ts₁, hread, hts₁⟩ := hlist ts others trivial (by simpa using hrest)
      refine ⟨ts₁, ?_, hts₁⟩
      have hopen : atMark Token.closeBrace ts = false := by
        obtain ⟨x, signs, hsigns, -, hclose, -⟩ := valueSigns_start s v
        obtain ⟨more, hmore⟩ := Scan.separated_cons (.mark ",") (s.valueSigns v)
          (values.map s.valueSigns)
        rw [List.map_cons, hmore, hsigns] at hrest
        rw [atMark_of_renders hrest]
        simpa using hclose
      rw [List.map_id'] at hread
      simp only [readValue, hkind, htext, hopen, hread, ok_bind, pure_eq_ok]
      simp
  | @nested name attributes hname hnames _ ih =>
    have hsigns :
        s.valueSigns (.nested name attributes) = s.annotationSigns ⟨name, attributes⟩ := by
      rw [WriteSettings.valueSigns, WriteSettings.annotationSigns]
    rw [hsigns] at hdepth ⊢
    obtain ⟨depth, rfl⟩ : ∃ n, depth = n + 1 :=
      ⟨depth - 1, by simp [WriteSettings.annotationSigns] at hdepth; omega⟩
    have hinner : ∀ a ∈ attributes,
        ReadsAs (src.readValue depth) (NotAt "(") (s.valueSigns a.2) a.2 := by
      intro a ha
      have hlt := length_valueSigns_lt (s := s) (a := ⟨name, attributes⟩) ha
      exact ih a ha (by omega)
    have hannotation := readsAs_annotationWith hagree hname hinner
    intro ts others hothers hts
    obtain ⟨ts₁, hread, hts₁⟩ := hannotation ts others hothers hts
    refine ⟨ts₁, ?_, hts₁⟩
    obtain ⟨t, ts, rfl⟩ : ∃ t ts', ts = t :: ts' := by
      cases hts
      exact ⟨_, _, rfl⟩
    have hkind : t.kind = .punctuation := (List.forall₂_cons.mp hts).1.kind
    have htext : t.text = "@" := (List.forall₂_cons.mp hts).1.text
    simp only [readValue, hkind, htext, hread, ok_bind, pure_eq_ok]
    simp [Token.openBrace]

/-- An annotation is read back. -/
theorem readsAs_annotation
    {src : Source} {s : WriteSettings} (hagree : Agree s src.settings) {a : Annotation}
    (h : IsLegibleAnnotation src.settings.common a) :
    ReadsAs src.readAnnotation (NotAt "(") (s.annotationSigns a) a := by
  intro ts others hothers hts
  have hvalues : ∀ x ∈ a.attributes,
      ReadsAs (src.readValue ts.length) (NotAt "(") (s.valueSigns x.2) x.2 := by
    intro x hx
    have hlt := length_valueSigns_lt (s := s) hx
    have hlength := hts.length_eq
    rw [List.length_append] at hlength
    exact readsAs_annotationValue hagree (h.attributes x hx) (by omega)
  exact readsAs_annotationWith hagree h.name hvalues ts others hothers hts

/-- Annotations one behind the other are read back. -/
theorem readsAs_annotations
    {src : Source} {s : WriteSettings} (hagree : Agree s src.settings)
    {annotations : List Annotation}
    (h : ∀ a ∈ annotations, IsLegibleAnnotation src.settings.common a) {rounds : Nat}
    (hrounds : annotations.length ≤ rounds) :
    ReadsAs (src.readAnnotations rounds) (fun js => NotAt "@" js ∧ NotAt "(" js)
      (annotations.flatMap s.annotationSigns) annotations := by
  induction annotations generalizing rounds with
  | nil =>
    rintro ts others ⟨hat, -⟩ hts
    refine ⟨ts, ?_, hts⟩
    cases rounds with
    | zero => rfl
    | succ rounds =>
      rw [readAnnotations, atMark_eq_false hts hat]
      rfl
  | cons a as ih =>
    rintro ts others hothers hts
    obtain ⟨rounds, rfl⟩ : ∃ n, rounds = n + 1 := ⟨rounds - 1, by simp at hrounds; omega⟩
    rw [List.flatMap_cons, List.append_assoc] at hts
    have hnext : NotAt "(" (as.flatMap s.annotationSigns ++ others) := by
      cases as with
      | nil => exact hothers.2
      | cons b bs => simp [WriteSettings.annotationSigns]
    obtain ⟨ts₁, hread, hts₁⟩ := readsAs_annotation hagree (h a List.mem_cons_self) ts _ hnext hts
    obtain ⟨ts₂, hmore, hts₂⟩ := ih (fun b hb => h b (List.mem_cons_of_mem _ hb))
      (by simpa using hrounds) ts₁ others hothers hts₁
    refine ⟨ts₂, ?_, hts₂⟩
    have hat : atMark "@" ts = true := by
      rw [atMark_of_renders hts]
      rfl
    simp only [readAnnotations, hat, hread, hmore, ok_bind, pure_eq_ok]
    rfl

end Source

end Signature
end ApiSurface
