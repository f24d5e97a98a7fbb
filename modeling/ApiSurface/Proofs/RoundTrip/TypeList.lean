import ApiSurface.Proofs.RoundTrip.TypeRef
import ApiSurface.Signature.Reader.Codebase
import ApiSurface.Signature.Writer.Declaration

/-!
# Type variables and lists of types are read back

Supertypes and thrown types never admit null, so their nullability is not written.  The compatible
layout has nothing between supertypes, so each but the first must look like the next one.  The
variables of a list are in scope in all its bounds; which names those are is looked up in the tokens
ahead, so the scope is determined by the signs of the list.
-/

namespace ApiSurface
namespace Signature

open Scan (IsName Spells Apart NameEnds Anything separated)

/-! ## Types that never admit null -/

/-- The type is nonnull, or a wildcard, which has no nullability of its own. -/
def IsNonNull (t : TypeRef) : Prop :=
  t.nullability = .nonNull ∨ t.name = "?"

def WriteSettings.nonNullTypeSigns (s : WriteSettings) (t : TypeRef) : List Sign :=
  s.typeSignsWith false false t

theorem withNullability_rereadAs
    (f : String → String) (n m : Nullability) (t : TypeRef) (annotations : List Annotation) :
    { rereadAs f n t with annotations }.withNullability m =
      { rereadAs f m t with annotations } := by
  by_cases hname : t.name = "?"
  · rw [rereadAs_wildcard f n hname, rereadAs_wildcard f m hname]
    rfl
  · rw [rereadAs, rereadAs, rebuilt, rebuilt, if_neg hname, if_neg hname]
    generalize { TypeRef.named (f t.name) with
      arguments := rereadList f t.arguments }.array t.dimensions = u
    by_cases hfixed : (u.isPrimitive || u.isWildcard) = true
    · rw [TypeRef.withNullability.eq_def u, TypeRef.withNullability.eq_def u, if_pos hfixed,
        if_pos hfixed]
      exact if_pos hfixed
    · rw [TypeRef.withNullability.eq_def u, TypeRef.withNullability.eq_def u, if_neg hfixed,
        if_neg hfixed]
      exact if_neg hfixed

theorem reread_nonNull
    (f : String → String) {t : TypeRef} (h : IsNonNull t) :
    { rereadAs f .nonNull t with annotations := t.annotations } = reread f t := by
  rw [reread_eq]
  rcases h with h | h
  · rw [h]
  · rw [rereadAs_wildcard f _ h, rereadAs_wildcard f _ h]

namespace Source

theorem readsAs_nonNullType
    {src : Source} {s : WriteSettings} (hagree : Agree s src.settings) {t : TypeRef}
    (h : IsLegibleType src.settings.common t) (hnonNull : IsNonNull t) :
    ReadsAs src.readNonNullType (TypeEnds t) (s.nonNullTypeSigns t)
      (reread (src.restored s) t) := by
  have hread : ReadsAs src.readType (TypeEnds t) (s.nonNullTypeSigns t)
      ⟨t.annotations, rereadAs (src.restored s) src.plainNullability t, false⟩ :=
    readsAs_type hagree h (by simp) false
  intro ts others hothers hts
  obtain ⟨ts', htype, hts'⟩ := hread ts others hothers hts
  refine ⟨ts', ?_, hts'⟩
  simp only [readNonNullType, readOwnedType, htype, ok_bind, pure_eq_ok, ReadType.owned,
    withNullability_rereadAs, reread_nonNull (src.restored s) hnonNull]

end Source

/-! ## Lists of types -/

/-- The signs of a list of types that never admit null, behind the word that introduces it. -/
def WriteSettings.typeListSigns (s : WriteSettings) (word : String) : List TypeRef → List Sign
  | [] => []
  | types => .word word :: separated (.mark ",") (types.map s.nonNullTypeSigns)

def WriteSettings.supertypesSigns (s : WriteSettings) (word : String) :
    List TypeRef → List Sign
  | [] => []
  | types =>
    .word word ::
      if s.compatible then types.flatMap s.nonNullTypeSigns
      else separated (.mark ",") (types.map s.nonNullTypeSigns)

/-- The type is read as one more supertype though no comma stands in front of it: it starts with a
name, which is not the word in front of the next list. -/
structure WriteSettings.CanFollow (s : WriteSettings) (t : TypeRef) : Prop where
  named : t.name ≠ "?"
  plain : t.annotations = []
  written : s.typeName t.name ≠ "implements"

theorem spells_typeList
    {common : Option CommonPackages} {s : WriteSettings} (hs : s.capabilities.annotations = true)
    {types : List TypeRef} (h : ∀ t ∈ types, IsLegibleType common t) {lead word : String}
    (hlead : Spells Anything lead [.word word]) (hne : types ≠ []) :
    Spells Apart (lead ++ Text.join ", " (types.map s.nonNullTypeText))
      (s.typeListSigns word types) := by
  have hlist : Spells Apart (Text.join ", " (types.map s.nonNullTypeText))
      (separated (.mark ",") (types.map s.nonNullTypeSigns)) :=
    Scan.spells_join spells_comma apart_comma fun t ht => spells_typeWith hs (h t ht) false false
  obtain ⟨t, ts, rfl⟩ := List.exists_cons_of_ne_nil hne
  exact hlead.seq hlist

theorem spells_throws
    {common : Option CommonPackages} {s : WriteSettings} (hs : s.capabilities.annotations = true)
    {types : List TypeRef} (h : ∀ t ∈ types, IsLegibleType common t) :
    Spells Apart (s.throwsText types) (s.typeListSigns "throws" types) := by
  have hblank : Spells Anything " " [] := Scan.spells_blank (by decide)
  have hthrows : Spells Anything " throws " [.word "throws"] :=
    hblank.seq (Scan.spells_word (show IsName "throws" by decide))
  cases types with
  | nil => exact Scan.spells_empty _
  | cons t ts => exact spells_typeList hs h hthrows (List.cons_ne_nil t ts)

theorem spells_supertypes
    {common : Option CommonPackages} {s : WriteSettings} (hs : s.capabilities.annotations = true)
    {types : List TypeRef} (h : ∀ t ∈ types, IsLegibleType common t) {lead word : String}
    (hlead : Spells Anything lead [.word word]) :
    Spells Apart (s.supertypesText lead types) (s.supertypesSigns word types) := by
  have htype : ∀ t ∈ types, Spells Apart (s.nonNullTypeText t) (s.nonNullTypeSigns t) :=
    fun t ht => spells_typeWith hs (h t ht) false false
  cases types with
  | nil => exact Scan.spells_empty _
  | cons t ts =>
    rw [WriteSettings.supertypesText, WriteSettings.supertypesSigns]
    · cases s.compatible with
      | false => exact hlead.seq (Scan.spells_join spells_comma apart_comma htype)
      | true => exact hlead.seq (Scan.spells_spaced htype)
    all_goals exact List.cons_ne_nil t ts

theorem endsBare_of_named {t : TypeRef} (h : t.name ≠ "?") : endsBare t ≠ true := by
  cases t
  simp [endsBare, h]

theorem nonNullTypeSigns_of_canFollow
    {s : WriteSettings} {t : TypeRef} (h : s.CanFollow t) :
    ∃ more, s.nonNullTypeSigns t = .word (s.typeName t.name) :: more := by
  rw [WriteSettings.nonNullTypeSigns, s.typeSignsWith_named _ _ h.named,
    WriteSettings.leadAnnotations, h.plain]
  exact ⟨_, rfl⟩

theorem nonNullTypeSigns_ne_nil (s : WriteSettings) (t : TypeRef) : s.nonNullTypeSigns t ≠ [] := by
  rw [WriteSettings.nonNullTypeSigns]
  by_cases hname : t.name = "?"
  · rw [s.typeSignsWith_wildcard _ _ hname]
    simp
  · rw [s.typeSignsWith_named _ _ hname]
    simp

theorem length_le_length_flatMap
    {α β : Type} {f : α → List β} {xs : List α} (h : ∀ x ∈ xs, f x ≠ []) :
    xs.length ≤ (xs.flatMap f).length := by
  induction xs with
  | nil => exact Nat.le_refl 0
  | cons x xs ih =>
    have hothers := ih fun y hy => h y (List.mem_cons_of_mem x hy)
    have hfirst := List.length_pos_iff.mpr (h x List.mem_cons_self)
    rw [List.flatMap_cons, List.length_append, List.length_cons]
    omega

namespace Source

section

variable {src : Source} {s : WriteSettings} (hagree : Agree s src.settings) {types : List TypeRef}
  (h : ∀ t ∈ types, IsLegibleType src.settings.common t) (hnonNull : ∀ t ∈ types, IsNonNull t)

include hagree h hnonNull

/-- Thrown types are read up to the end of the declaration or to a default. -/
theorem readsAs_throws :
    ReadsAs src.readThrows (At [.mark ";", .word "default"]) (s.typeListSigns "throws" types)
      (types.map (reread (src.restored s))) := by
  intro ts others hothers hts
  cases types with
  | nil =>
    refine ⟨ts, ?_, hts⟩
    rw [readThrows, hothers.atWord_eq_false hts (by decide)]
    rfl
  | cons t us =>
    have hrounds := Scan.length_le_length_separated (.mark ",") ((t :: us).map s.nonNullTypeSigns)
    have hlength := hts.length_eq
    have hitems : ReadsAs (src.readSeparated src.readNonNullType "," ts.length)
        (At [.mark ";", .word "default"])
        (separated (.mark ",") ((t :: us).map s.nonNullTypeSigns))
        ((t :: us).map (reread (src.restored s))) := by
      refine src.readsAs_separated (F := At [.mark ",", .mark ";", .word "default"])
        (At.cons (by decide)) (fun js hjs => ⟨hjs.mono (by decide), hjs.notAt (by decide)⟩)
        (List.cons_ne_nil t us) ?_ ?_
      · simp [WriteSettings.typeListSigns] at hlength hrounds ⊢
        omega
      · intro x hx
        exact (readsAs_nonNullType hagree (h x hx) (hnonNull x hx)).mono fun js hjs =>
          typeEnds_of_at hjs (by decide) x
    have hat : atWord "throws" ts = true := atWord_of_renders hts "throws"
    rw [readThrows, hat]
    exact hitems ts.tail others hothers hts.tail

omit h hnonNull in
/-- The last supertype is read up to the members or to the next list. -/
theorem readsAs_lastSupertype
    {t : TypeRef} (h : IsLegibleType src.settings.common t) (hnonNull : IsNonNull t)
    (rounds : Nat) :
    ReadsAs (src.readSupertypes (rounds + 1)) (At [.mark Token.openBrace, .word "implements"])
      (s.nonNullTypeSigns t) [reread (src.restored s) t] := by
  intro ts others hothers hts
  obtain ⟨ts', hread, hts'⟩ := readsAs_nonNullType hagree h hnonNull ts others
    (typeEnds_of_at hothers (by decide) t) hts
  refine ⟨ts', ?_, hts'⟩
  have hcomma : atMark "," ts' = false := hothers.atMark_eq_false hts' (by decide)
  have hend : (atName ts' && !atWord "implements" ts') = false := by
    rw [atName_of_renders hts', atWord_of_renders hts']
    obtain ⟨s, hs, js, rfl⟩ := hothers
    simp only [List.mem_cons, List.not_mem_nil, or_false] at hs
    rcases hs with rfl | rfl <;> rfl
  simp only [readSupertypes, hread, ok_bind, hcomma, hend, pure_eq_ok]
  rfl

/-- Supertypes with commas between them are read up to the members or to the next list. -/
theorem readsAs_supertypes
    {rounds : Nat} (hne : types ≠ []) (hrounds : types.length ≤ rounds) :
    ReadsAs (src.readSupertypes rounds) (At [.mark Token.openBrace, .word "implements"])
      (separated (.mark ",") (types.map s.nonNullTypeSigns))
      (types.map (reread (src.restored s))) := by
  induction types generalizing rounds with
  | nil => exact absurd rfl hne
  | cons t us ih =>
    obtain ⟨rounds, rfl⟩ : ∃ n, rounds = n + 1 := ⟨rounds - 1, by simp at hrounds; omega⟩
    have ht := readsAs_nonNullType hagree (h t List.mem_cons_self) (hnonNull t List.mem_cons_self)
    intro ts others hothers hts
    cases us with
    | nil =>
      exact readsAs_lastSupertype hagree (h t List.mem_cons_self) (hnonNull t List.mem_cons_self)
        rounds ts others hothers hts
    | cons u us =>
      rw [List.map_cons, List.map_cons, Scan.separated_cons_cons, List.append_assoc] at hts
      obtain ⟨ts₁, hread, hts₁⟩ := ht ts _ (typeEnds_of_at (.cons (List.mem_singleton.mpr rfl) _)
        (by decide) t) hts
      have hother := ih (fun x hx => h x (List.mem_cons_of_mem _ hx))
        (fun x hx => hnonNull x (List.mem_cons_of_mem _ hx)) (List.cons_ne_nil u us)
        (by simpa using hrounds)
      obtain ⟨ts₂, hlist, hts₂⟩ := hother ts₁.tail others hothers hts₁.tail
      refine ⟨ts₂, ?_, hts₂⟩
      have hcomma : atMark "," ts₁ = true := atMark_of_renders hts₁ ","
      simp only [readSupertypes, hread, ok_bind, hcomma, if_true, hlist, pure_eq_ok, List.map_cons]

/-- Supertypes with nothing between them are read up to the members or to the next list. -/
theorem readsAs_adjacentSupertypes
    {rounds : Nat} (hne : types ≠ []) (hrounds : types.length ≤ rounds)
    (hfollow : 1 < types.length → ∀ t ∈ types, s.CanFollow t) :
    ReadsAs (src.readSupertypes rounds) (At [.mark Token.openBrace, .word "implements"])
      (types.flatMap s.nonNullTypeSigns) (types.map (reread (src.restored s))) := by
  induction types generalizing rounds with
  | nil => exact absurd rfl hne
  | cons t us ih =>
    obtain ⟨rounds, rfl⟩ : ∃ n, rounds = n + 1 := ⟨rounds - 1, by simp at hrounds; omega⟩
    have ht := readsAs_nonNullType hagree (h t List.mem_cons_self) (hnonNull t List.mem_cons_self)
    intro ts others hothers hts
    cases us with
    | nil =>
      rw [List.flatMap_cons, List.flatMap_nil, List.append_nil] at hts
      exact readsAs_lastSupertype hagree (h t List.mem_cons_self) (hnonNull t List.mem_cons_self)
        rounds ts others hothers hts
    | cons u us =>
      have hfollow := hfollow (by simp)
      have hbare : endsBare t ≠ true := endsBare_of_named (hfollow t List.mem_cons_self).named
      obtain ⟨more, hmore⟩ := nonNullTypeSigns_of_canFollow (hfollow u (by simp))
      have hother := ih (fun x hx => h x (List.mem_cons_of_mem _ hx))
        (fun x hx => hnonNull x (List.mem_cons_of_mem _ hx)) (List.cons_ne_nil u us)
        (by simpa using hrounds) fun _ x hx => hfollow x (List.mem_cons_of_mem _ hx)
      rw [List.flatMap_cons, List.append_assoc] at hts
      have hnext : (u :: us).flatMap s.nonNullTypeSigns ++ others =
          .word (s.typeName u.name) :: (more ++ us.flatMap s.nonNullTypeSigns ++ others) := by
        rw [List.flatMap_cons, hmore]
        simp only [List.cons_append]
      obtain ⟨ts₁, hread, hts₁⟩ := ht ts _ (by
        rw [hnext]
        exact typeEnds_word (fun hends => absurd hends hbare) _) hts
      obtain ⟨ts₂, hlist, hts₂⟩ := hother ts₁ others hothers hts₁
      refine ⟨ts₂, ?_, hts₂⟩
      rw [hnext] at hts₁
      have hcomma : atMark "," ts₁ = false := atMark_of_renders hts₁ ","
      have hname : atName ts₁ = true := atName_of_renders hts₁
      have hword : atWord "implements" ts₁ = false := by
        rw [atWord_of_renders hts₁]
        simpa using (hfollow u (by simp)).written
      simp only [readSupertypes, hread, ok_bind, hcomma, hname, hword, hlist, pure_eq_ok,
        List.map_cons]
      rfl

/-- Supertypes behind a word are read up to the members, or to the next list if there may be one. -/
theorem readsAs_supertypesAfter
    {word : String} {options : List Sign}
    (hoptions : ∀ o ∈ options, o ∈ [.mark Token.openBrace, Sign.word "implements"])
    (hword : ∀ o ∈ options, o.isWord word = false)
    (hfollow : s.compatible = true → 1 < types.length → ∀ t ∈ types, s.CanFollow t) :
    ReadsAs (src.readSupertypesAfter word) (At options) (s.supertypesSigns word types)
      (types.map (reread (src.restored s))) := by
  intro ts others hothers hts
  cases types with
  | nil =>
    refine ⟨ts, ?_, hts⟩
    rw [readSupertypesAfter, hothers.atWord_eq_false hts hword]
    rfl
  | cons t us =>
    have hlength := hts.length_eq
    have hat : atWord word ts = true := by
      rw [atWord_of_renders hts]
      simp [WriteSettings.supertypesSigns]
    rw [readSupertypesAfter, hat, if_pos rfl]
    cases hcompatible : s.compatible with
    | false =>
      have hrounds := Scan.length_le_length_separated (.mark ",") ((t :: us).map s.nonNullTypeSigns)
      have hle : (t :: us).length ≤ ts.length := by
        simp [WriteSettings.supertypesSigns, hcompatible] at hlength hrounds ⊢
        omega
      simp only [WriteSettings.supertypesSigns, hcompatible, Bool.false_eq_true, if_false] at hts
      exact readsAs_supertypes hagree h hnonNull (List.cons_ne_nil t us) hle ts.tail others
        (hothers.mono hoptions) hts.tail
    | true =>
      have hrounds : (t :: us).length ≤ ((t :: us).flatMap s.nonNullTypeSigns).length :=
        length_le_length_flatMap fun x _ => nonNullTypeSigns_ne_nil s x
      have hle : (t :: us).length ≤ ts.length := by
        simp only [WriteSettings.supertypesSigns, hcompatible, if_true, List.cons_append,
          List.length_cons, List.length_append] at hlength hrounds ⊢
        omega
      simp only [WriteSettings.supertypesSigns, hcompatible, if_true] at hts
      exact readsAs_adjacentSupertypes hagree h hnonNull (List.cons_ne_nil t us) hle
        (hfollow hcompatible) ts.tail others (hothers.mono hoptions) hts.tail

end

end Source

/-! ## Type variables -/

/-- The variable can be written and read back. -/
structure IsLegibleVariable (common : Option CommonPackages) (p : TypeParameter) : Prop where
  name : IsName p.name
  bounds : ∀ t ∈ p.bounds, IsLegibleType common t

/-- The variable that is read where a variable is written. -/
def rereadVariable (f : String → String) (p : TypeParameter) : TypeParameter :=
  { p with bounds := p.bounds.map (reread f) }

def WriteSettings.boundsSigns (s : WriteSettings) : List TypeRef → List Sign
  | [] => []
  | bounds => .word "extends" :: separated (.mark "&") (bounds.map s.typeSigns)

/-- The signs of a type variable with its bounds. -/
def WriteSettings.typeParameterSigns (s : WriteSettings) (p : TypeParameter) : List Sign :=
  .word p.name :: s.boundsSigns p.bounds

/-- The signs of type variables in angle brackets. -/
def WriteSettings.typeParametersSigns (s : WriteSettings) (ps : List TypeParameter) : List Sign :=
  angleSigns (ps.map s.typeParameterSigns)

theorem spells_typeParameter
    {common : Option CommonPackages} {s : WriteSettings} (hs : s.capabilities.annotations = true)
    {p : TypeParameter} (h : IsLegibleVariable common p) :
    Spells Apart (s.typeParameterText p) (s.typeParameterSigns p) := by
  obtain ⟨name, bounds⟩ := p
  have hname := Scan.spells_name h.name
  cases bounds with
  | nil => exact hname.mono fun _ => Scan.Apart.nameEnds
  | cons t ts =>
    have hblank : Spells Anything " " [] := Scan.spells_blank (by decide)
    have hand : Spells Anything " & " [.mark "&"] :=
      hblank.seq (Scan.spells_mark_blank (show "&" ∈ Scan.markTexts by decide))
    have hapart : ∀ rest, Apart (" & ".toList ++ rest) := fun rest => Scan.Apart.cons (by decide)
    have hbounds : Spells Apart (Text.join " & " ((t :: ts).map s.typeText))
        (separated (.mark "&") ((t :: ts).map s.typeSigns)) :=
      Scan.spells_join hand hapart fun t ht => spells_typeWith hs (h.bounds t ht) false true
    have hspells := hname.append (spells_extends.seq hbounds) fun rest _ => by
      simp only [String.toList_append, List.append_assoc]
      exact (Scan.Apart.cons (by decide)).nameEnds
    rwa [← String.append_assoc] at hspells

theorem spells_typeParameters
    {common : Option CommonPackages} {s : WriteSettings} (hs : s.capabilities.annotations = true)
    {ps : List TypeParameter} (h : ∀ p ∈ ps, IsLegibleVariable common p) :
    Spells Anything (s.typeParametersText ps) (s.typeParametersSigns ps) := by
  cases ps with
  | nil => exact Scan.spells_empty _
  | cons p ps =>
    exact spells_angle (List.cons_ne_nil p ps) fun q hq => spells_typeParameter hs (h q hq)

namespace Source

section

variable {src : Source} {s : WriteSettings} (hagree : Agree s src.settings)

include hagree

theorem readsAs_bounds
    {bounds : List TypeRef} (h : ∀ t ∈ bounds, IsLegibleType src.settings.common t) :
    ReadsAs src.readBounds (At [.mark ",", .mark ">"]) (s.boundsSigns bounds)
      (bounds.map (reread (src.restored s))) := by
  intro ts others hothers hts
  cases bounds with
  | nil =>
    refine ⟨ts, ?_, hts⟩
    rw [readBounds, hothers.atWord_eq_false hts (by decide)]
    rfl
  | cons t us =>
    have hrounds := Scan.length_le_length_separated (.mark "&") ((t :: us).map s.typeSigns)
    have hlength := hts.length_eq
    have hitems : ReadsAs (src.readSeparated src.readOwnedType "&" ts.length)
        (At [.mark ",", .mark ">"]) (separated (.mark "&") ((t :: us).map s.typeSigns))
        ((t :: us).map (reread (src.restored s))) := by
      refine src.readsAs_separated (F := At [.mark "&", .mark ",", .mark ">"])
        (At.cons (by decide)) (fun js hjs => ⟨hjs.mono (by decide), hjs.notAt (by decide)⟩)
        (List.cons_ne_nil t us) ?_ ?_
      · simp [WriteSettings.boundsSigns] at hlength hrounds ⊢
        omega
      · intro x hx
        exact (readsAs_ownedType hagree (h x hx)).mono fun js hjs =>
          typeEnds_of_at hjs (by decide) x
    have hat : atWord "extends" ts = true := atWord_of_renders hts "extends"
    rw [readBounds, hat]
    exact hitems ts.tail others hothers hts.tail

theorem readsAs_typeParameter
    {p : TypeParameter} (h : IsLegibleVariable src.settings.common p) :
    ReadsAs src.readTypeParameter (At [.mark ",", .mark ">"]) (s.typeParameterSigns p)
      (rereadVariable (src.restored s) p) := by
  intro ts others hothers hts
  obtain ⟨ts₁, hname, hts₁⟩ := src.expectName_of_renders "type parameter" hts
  obtain ⟨ts₂, hbounds, hts₂⟩ := readsAs_bounds hagree h.bounds ts₁ others hothers hts₁
  refine ⟨ts₂, ?_, hts₂⟩
  simp only [readTypeParameter, hname, hbounds, ok_bind, pure_eq_ok, rereadVariable]

/-- Type variables are read back, the names in their bounds being taken as the source knows them. -/
theorem readsAs_typeParameters
    {ps : List TypeParameter} (h : ∀ p ∈ ps, IsLegibleVariable src.settings.common p) :
    ReadsAs src.readTypeParameters (NotAt "<") (s.typeParametersSigns ps)
      (ps.map (rereadVariable (src.restored s))) := by
  intro ts others hothers hts
  cases ps with
  | nil =>
    refine ⟨ts, ?_, hts⟩
    rw [readTypeParameters, atMark_eq_false hts hothers]
    rfl
  | cons p ps =>
    obtain ⟨hat, ts₁, ts₂, hread, hclose, hts₂⟩ := src.angle_of_renders
      (F := At [.mark ",", .mark ">"]) (At.cons (by decide)) (At.cons (by decide))
      (List.cons_ne_nil p ps) (fun q hq => readsAs_typeParameter hagree (h q hq)) hts
    refine ⟨ts₂, ?_, hts₂⟩
    simp only [readTypeParameters, hat, hread, hclose, ok_bind, pure_eq_ok]
    rfl

end

end Source

/-! ## Setting the annotations of a type, and what it says about null -/

theorem IsLegibleType.withAnnotations
    {common : Option CommonPackages} {t : TypeRef} (h : IsLegibleType common t)
    {annotations : List Annotation} (hannotations : AreTypeAnnotations common annotations) :
    IsLegibleType common { t with annotations } := by
  cases h with
  | bare _ => exact .bare hannotations
  | upper _ h => exact .upper hannotations h
  | lower _ h => exact .lower hannotations h
  | named _ hname hprimitive h => exact .named hannotations hname hprimitive h

theorem IsLegibleType.withNullability
    {common : Option CommonPackages} {t : TypeRef} (h : IsLegibleType common t) (n : Nullability) :
    IsLegibleType common (t.withNullability n) := by
  rw [TypeRef.withNullability]
  split
  · exact h
  · rename_i hother
    cases h with
    | bare _ => simp [TypeRef.isWildcard] at hother
    | upper _ _ => simp [TypeRef.isWildcard] at hother
    | lower _ _ => simp [TypeRef.isWildcard] at hother
    | named hannotations hname _ h =>
      refine .named hannotations hname ?_ h
      rintro rfl hprimitive
      simp [TypeRef.isPrimitive, hprimitive] at hother

theorem isNonNull_withNullability
    {common : Option CommonPackages} {t : TypeRef} (h : IsLegibleType common t) :
    IsNonNull (t.withNullability .nonNull) := by
  rw [TypeRef.withNullability]
  split
  · rename_i hfixed
    cases h with
    | bare _ => exact .inr rfl
    | upper _ _ => exact .inr rfl
    | lower _ _ => exact .inr rfl
    | named _ hname hprimitive _ =>
      simp [TypeRef.isPrimitive, TypeRef.isWildcard, hname.ne_wildcard] at hfixed
      exact .inl (hprimitive hfixed.1 hfixed.2)
  · exact .inl rfl

end Signature
end ApiSurface
