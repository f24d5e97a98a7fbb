import ApiSurface.Proofs.Reading.Basic
import ApiSurface.Proofs.RoundTrip.Annotation

/-!
# Annotations that were read

What a reader makes of annotations can be written and read back unchanged.  That takes packages from
which names can be put together; the brackets in what is taken are balanced whatever the packages
are.
-/

namespace ApiSurface
namespace Signature

open Annotation (Literal Value)
open Scan (IsName)

theorem splitLast_eq_some
    {mark : Char} {cs before behind : List Char}
    (h : Text.splitLast mark cs = some (before, behind)) : cs = before ++ mark :: behind := by
  induction cs generalizing before with
  | nil => cases h
  | cons c cs ih =>
    rw [Text.splitLast] at h
    split at h
    · rename_i before' behind' hs
      cases h
      rw [ih hs]
      rfl
    · split at h
      · rename_i hmark
        cases h
        rw [hmark]
        rfl
      · cases h

theorem literalOfName_cases (name : String) :
    (∃ value, literalOfName name = .boolean value) ∨
      (∃ outer, literalOfName name = .classLiteral outer ∧ outer ++ ".class" = name) ∨
      literalOfName name = .reference name := by
  unfold literalOfName
  split
  · exact .inl ⟨true, rfl⟩
  split
  · exact .inl ⟨false, rfl⟩
  split
  · rename_i before hsplit
    refine .inr (.inl ⟨_, rfl, ?_⟩)
    apply String.toList_inj.mp
    rw [splitLast_eq_some hsplit]
    simp [String.toList_append]
  · exact .inr (.inr rfl)

theorem isLegibleLiteral_literalOfName {name : String} (h : IsName name) :
    IsLegibleLiteral (literalOfName name) := by
  rcases literalOfName_cases name with ⟨value, hl⟩ | ⟨outer, hl, hname⟩ | hl
  · rw [hl]
    trivial
  · rw [hl, IsLegibleLiteral, hname]
    exact h
  · rw [hl]
    exact ⟨h, hl⟩

/-- All that is known of an annotation that was read.  Without common packages it has the name that
is written. -/
structure IsGivenAnnotation (common : Option CommonPackages) (ts : List Token) (a : Annotation) :
    Prop where
  legible : AreProper common → IsLegibleAnnotation common a
  named : common = none → atWord a.name ts.tail = true

namespace Source

variable {src : Source}

section

variable {value : Reader Value} {R : Value → Prop} (hvalue : Yields (Balanced false) value R)

include hvalue

theorem yields_attribute :
    Yields (Balanced false) (src.readAttribute value) fun a => IsName a.1 ∧ R a.2 := by
  intro ts
  refine (gives_expectName _ ts).bind fun name ts => ?_
  refine gives_expectMark (fun _ h => .mark h (by decide)) fun ts => ?_
  exact (hvalue ts).map (fun _ _ => rfl) fun v _ hv hname => ⟨hname.1, hv⟩

theorem yields_attributes :
    Yields (Balanced false) (src.readAttributes value) fun as =>
      ∀ a ∈ as, IsName a.1 ∧ R a.2 := by
  intro ts
  rw [readAttributes]
  split
  · exact gives_ok fun _ => List.forall_mem_nil _
  rename_i hat
  refine (Gives.arguments ")" ?_ (by simpa using hat) (by decide) (by decide)).balanced
  split
  · rename_i hclose
    exact gives_closing hclose fun _ => List.forall_mem_nil _
  split
  · exact yields_list (fun _ => .comma) (fun ts => (yields_attribute hvalue ts).loosen) ")" _ _
  · refine (hvalue ts.tail).loosen.bindTo fun v ts => ?_
    have hname : IsName "value" := by decide
    exact gives_expectClose (fun _ => rfl) fun _ hv => List.forall_mem_singleton.mpr ⟨hname, hv⟩

end

theorem gives_annotationWith
    {value : Reader Value}
    (hvalue : Yields (Balanced false) value fun v =>
      AreProper src.settings.common → IsLegibleValue src.settings.common v) (ts : List Token) :
    Gives Solid ts (src.readAnnotationWith value ts) fun a _ =>
      IsGivenAnnotation src.settings.common ts a := by
  refine gives_expectFirst (by decide) ?_
  refine (gives_expectName _ ts.tail).bind fun name ts => ?_
  refine (yields_attributes hvalue ts).map (fun _ _ => rfl) fun attributes _ hall hname => ?_
  refine ⟨fun hproper => ?_, fun hcommon => ?_⟩
  · exact ⟨isAnnotationName_annotationName hproper hname.1, fun x hx => (hall x hx).1,
      fun x hx => (hall x hx).2 hproper⟩
  · change atWord (src.annotationName name) _ = true
    rw [annotationName, hcommon]
    exact hname.2

theorem yields_value (depth : Nat) :
    Yields Solid (src.readValue depth) fun v =>
      AreProper src.settings.common → IsLegibleValue src.settings.common v := by
  induction depth with
  | zero => exact fun ts => gives_error _
  | succ depth ih =>
    intro ts
    cases ts with
    | nil => exact gives_error _
    | cons t ts =>
      have hsolid : t.kind ≠ .punctuation → Solid [t] := fun h => ⟨.name h, List.cons_ne_nil _ _⟩
      rw [readValue]
      cases hkind : t.kind with
      | string => exact gives_token (hsolid (by simp [hkind])) fun _ _ => .literal trivial
      | character =>
        refine gives_token (hsolid (by simp [hkind])) fun hts _ => .literal ?_
        have hlexeme := hts.isLexeme
        have hsource : t.lexeme.toList = '\'' :: t.text.toList ++ ['\''] := hlexeme.character hkind
        rwa [hkind, hsource] at hlexeme
      | number =>
        refine gives_token (hsolid (by simp [hkind])) fun hts _ => .literal ?_
        have hlexeme := hts.isLexeme
        have hsource : t.text.toList = t.lexeme.toList := hlexeme.number hkind
        rwa [hkind, ← hsource] at hlexeme
      | identifier =>
        refine gives_token (hsolid (by simp [hkind])) fun hts _ => .literal ?_
        exact isLegibleLiteral_literalOfName (hts.isName hkind)
      | endOfFile => exact gives_error _
      | punctuation =>
        simp only
        split
        · rename_i hbrace
          have hat : atMark Token.openBrace (t :: ts) = true := by
            simp [atMark, Token.isMark, hkind, hbrace]
          refine Gives.arguments Token.closeBrace ?_ hat (by decide) (by decide)
          split
          · rename_i hclose
            exact gives_closing hclose fun _ _ => .array (List.forall_mem_nil _)
          · refine (yields_list (fun _ => .comma) (fun ts => (ih ts).balanced.loosen) _ _ ts).map
              (fun _ _ => rfl) fun values _ hall hproper => ?_
            exact .array fun v hv => hall v hv hproper
        split
        · have hvalue := fun ts => (ih ts).balanced
          refine (gives_annotationWith hvalue (t :: ts)).map
            (g := fun a => .nested a.name a.attributes) (fun _ _ => rfl) fun a _ ha hproper => ?_
          have ha := ha.legible hproper
          exact .nested ha.name ha.attributeNames ha.attributes
        · exact gives_error _

theorem gives_annotationAt (ts : List Token) :
    Gives Solid ts (src.readAnnotation ts) fun a _ => IsGivenAnnotation src.settings.common ts a :=
  gives_annotationWith (fun us => (yields_value ts.length us).balanced) ts

/-- If anything is read, it starts with the first annotation. -/
theorem gives_annotations (rounds : Nat) (ts : List Token) :
    Gives (Balanced false) ts (src.readAnnotations rounds ts) fun as rest =>
      (∀ a ∈ as, AreProper src.settings.common → IsLegibleAnnotation src.settings.common a) ∧
        (src.settings.common = none →
          rest = ts ∨ atMark "@" ts = true ∧ ∃ a ∈ as, atWord a.name ts.tail = true) := by
  induction rounds generalizing ts with
  | zero => exact gives_ok fun _ => ⟨List.forall_mem_nil _, fun _ => .inl rfl⟩
  | succ rounds ih =>
    rw [readAnnotations]
    split
    · exact gives_ok fun _ => ⟨List.forall_mem_nil _, fun _ => .inl rfl⟩
    · rename_i hat
      refine (gives_annotationAt ts).balanced.bind fun a ts => ?_
      refine (ih ts).map (fun _ _ => rfl) fun as _ has ha => ⟨?_, fun hcommon => .inr ⟨?_, ?_⟩⟩
      · exact List.forall_mem_cons.mpr ⟨ha.legible, has.1⟩
      · simpa using hat
      · exact ⟨a, List.mem_cons_self, ha.named hcommon⟩

end Source

end Signature
end ApiSurface
