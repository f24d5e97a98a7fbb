import ApiSurface.Proofs.RoundTrip.Annotation

/-!
# Types are read back

A type is read back with every name in it replaced by what its written form stands for in the place
where it is read; everything else of the type is the same.  So a type is read back unchanged if and
only if all its names are restored.
-/

namespace ApiSurface
namespace Signature

open Scan (IsName Spells Apart NameEnds Anything separated)

/-! ## Types that can be written -/

/-- Annotations of a type: all can be written, and none is about null. -/
def AreTypeAnnotations (common : Option CommonPackages) (annotations : List Annotation) : Prop :=
  ∀ a ∈ annotations, IsLegibleAnnotation common a ∧ a.nullness? = none

/-- The type is a wildcard with nothing but annotations and a bound, or a named type without a
bound, and a primitive does not admit null. -/
inductive IsLegibleType (common : Option CommonPackages) : TypeRef → Prop where
  | bare {annotations : List Annotation} (hannotations : AreTypeAnnotations common annotations) :
      IsLegibleType common ⟨"?", [], 0, none, .unknown, annotations⟩
  | upper {annotations : List Annotation} {t : TypeRef}
      (hannotations : AreTypeAnnotations common annotations) (h : IsLegibleType common t) :
      IsLegibleType common ⟨"?", [], 0, some (.upper t), .unknown, annotations⟩
  | lower {annotations : List Annotation} {t : TypeRef}
      (hannotations : AreTypeAnnotations common annotations) (h : IsLegibleType common t) :
      IsLegibleType common ⟨"?", [], 0, some (.lower t), .unknown, annotations⟩
  | named {name : String} {arguments : List TypeRef} {dimensions : Nat} {nullability : Nullability}
      {annotations : List Annotation} (hannotations : AreTypeAnnotations common annotations)
      (hname : IsName name)
      (hprimitive : dimensions = 0 → name ∈ TypeRef.primitives → nullability = .nonNull)
      (h : ∀ t ∈ arguments, IsLegibleType common t) :
      IsLegibleType common ⟨name, arguments, dimensions, none, nullability, annotations⟩

/-! ## Signs -/

def bracketSigns : Nat → List Sign
  | 0 => []
  | n + 1 => .mark "[" :: .mark "]" :: bracketSigns n

/-- The signs of array dimensions; `...` stands for the last one of a parameter that varies. -/
def dimensionSigns (dimensions : Nat) (varargs : Bool) : List Sign :=
  if varargs then bracketSigns (dimensions - 1) ++ [.mark "..."] else bracketSigns dimensions

def suffixSigns : Nullability → List Sign
  | .nullable => [.mark "?"]
  | .unknown => [.mark "!"]
  | .nonNull => []

/-- Signs in angle brackets with commas between them, if there are any. -/
def angleSigns : List (List Sign) → List Sign
  | [] => []
  | first :: others => .mark "<" :: separated (.mark ",") (first :: others) ++ [.mark ">"]

namespace WriteSettings

def leadAnnotations (s : WriteSettings) (marked : Bool) (t : TypeRef) : List Annotation :=
  t.annotations ++
    if marked && !s.kotlinNulls && !t.isPrimitive && !t.isWildcard then
      nullnessAnnotation t.nullability
    else []

def trailNullability (s : WriteSettings) (marked : Bool) (t : TypeRef) : Nullability :=
  if marked && s.kotlinNulls && !t.isPrimitive then t.nullability else .nonNull

def trailSigns (s : WriteSettings) (marked : Bool) (t : TypeRef) : List Sign :=
  suffixSigns (s.trailNullability marked t)

mutual

def typeSignsWith (s : WriteSettings) (varargs marked : Bool) : TypeRef → List Sign
  | ⟨name, arguments, dimensions, bound, nullability, annotations⟩ =>
    let t : TypeRef := ⟨name, arguments, dimensions, bound, nullability, annotations⟩
    if name = "?" then
      (s.leadAnnotations marked t).flatMap s.annotationSigns ++ .mark "?" :: boundSigns s bound
    else
      (s.leadAnnotations marked t).flatMap s.annotationSigns ++ .word (s.typeName name) ::
        (angleSigns (typesSigns s arguments) ++ (dimensionSigns dimensions varargs ++
          s.trailSigns marked t))

def typesSigns (s : WriteSettings) : List TypeRef → List (List Sign)
  | [] => []
  | t :: ts => typeSignsWith s false true t :: typesSigns s ts

def boundSigns (s : WriteSettings) : Option (WildcardBound TypeRef) → List Sign
  | none => []
  | some (.upper t) => .word "extends" :: typeSignsWith s false true t
  | some (.lower t) => .word "super" :: typeSignsWith s false true t

end

def typeSigns (s : WriteSettings) (t : TypeRef) : List Sign :=
  s.typeSignsWith false true t

theorem typesSigns_eq_map (s : WriteSettings) (ts : List TypeRef) :
    s.typesSigns ts = ts.map s.typeSigns := by
  induction ts with
  | nil => rfl
  | cons t ts ih => rw [typesSigns, ih, List.map_cons, typeSigns]

theorem typeTexts_eq_map (s : WriteSettings) (ts : List TypeRef) :
    s.typeTexts ts = ts.map s.typeText := by
  induction ts with
  | nil => rfl
  | cons t ts ih => rw [typeTexts, ih, List.map_cons, typeText]

def typeArgumentsText (s : WriteSettings) (arguments : List TypeRef) : String :=
  match arguments.map s.typeText with
  | [] => ""
  | first :: others => "<" ++ Text.join ", " (first :: others) ++ ">"

theorem typeTextWith_wildcard
    (s : WriteSettings) (varargs marked : Bool) {t : TypeRef} (h : t.name = "?") :
    s.typeTextWith varargs marked t = s.leadText marked t ++ ("?" ++ s.boundText t.bound) := by
  obtain ⟨name, arguments, dimensions, bound, nullability, annotations⟩ := t
  rw [typeTextWith, if_pos h, String.append_assoc]

theorem typeSignsWith_wildcard
    (s : WriteSettings) (varargs marked : Bool) {t : TypeRef} (h : t.name = "?") :
    s.typeSignsWith varargs marked t =
      (s.leadAnnotations marked t).flatMap s.annotationSigns ++
        .mark "?" :: s.boundSigns t.bound := by
  obtain ⟨name, arguments, dimensions, bound, nullability, annotations⟩ := t
  rw [typeSignsWith, if_pos h]

theorem typeTextWith_named
    (s : WriteSettings) (varargs marked : Bool) {t : TypeRef} (h : t.name ≠ "?") :
    s.typeTextWith varargs marked t =
      s.leadText marked t ++ (s.typeName t.name ++ (s.typeArgumentsText t.arguments ++
        (dimensionsText t.dimensions varargs ++ s.trailText marked t))) := by
  obtain ⟨name, arguments, dimensions, bound, nullability, annotations⟩ := t
  rw [typeTextWith, if_neg h, typeTexts_eq_map, typeArgumentsText]
  cases arguments.map s.typeText <;> simp only [String.append_assoc]

theorem typeSignsWith_named
    (s : WriteSettings) (varargs marked : Bool) {t : TypeRef} (h : t.name ≠ "?") :
    s.typeSignsWith varargs marked t =
      (s.leadAnnotations marked t).flatMap s.annotationSigns ++ .word (s.typeName t.name) ::
        (angleSigns (t.arguments.map s.typeSigns) ++
          (dimensionSigns t.dimensions varargs ++ s.trailSigns marked t)) := by
  obtain ⟨name, arguments, dimensions, bound, nullability, annotations⟩ := t
  rw [typeSignsWith, if_neg h, typesSigns_eq_map]

end WriteSettings

/-! ## Texts -/

/-- The annotation that declares a nullability can be written. -/
theorem isLegible_nullnessAnnotation
    (common : Option CommonPackages) (n : Nullability) :
    ∀ a ∈ nullnessAnnotation n, IsLegibleAnnotation common a := by
  have hnullable : IsName Annotation.nullableName := by decide
  have hnonNull : IsName Annotation.nonNullName := by decide
  intro a ha
  cases n with
  | unknown => cases ha
  | nullable =>
    obtain rfl := List.mem_singleton.mp ha
    exact ⟨⟨hnullable, fun _ => by decide⟩, by simp, by simp⟩
  | nonNull =>
    obtain rfl := List.mem_singleton.mp ha
    exact ⟨⟨hnonNull, fun _ => by decide⟩, by simp, by simp⟩

theorem isLegible_leadAnnotations
    {common : Option CommonPackages} (s : WriteSettings) (marked : Bool) {t : TypeRef}
    (h : AreTypeAnnotations common t.annotations) :
    ∀ a ∈ s.leadAnnotations marked t, IsLegibleAnnotation common a := by
  intro a ha
  rcases List.mem_append.mp ha with ha | ha
  · exact (h a ha).1
  · split at ha
    · exact isLegible_nullnessAnnotation common t.nullability a ha
    · cases ha

theorem spells_brackets (n : Nat) :
    Spells Anything (Text.repeated "[]" n) (bracketSigns n) := by
  have hopen : Spells Anything "[" [.mark "["] := Scan.spells_mark (by decide)
  have hclose : Spells Anything "]" [.mark "]"] := Scan.spells_mark (by decide)
  induction n with
  | zero => exact Scan.spells_empty _
  | succ n ih => exact (hopen.seq hclose).seq ih

theorem spells_dimensions (dimensions : Nat) (varargs : Bool) :
    Spells Anything (dimensionsText dimensions varargs) (dimensionSigns dimensions varargs) := by
  cases varargs with
  | false => exact spells_brackets dimensions
  | true => exact (spells_brackets (dimensions - 1)).seq Scan.spells_dots

theorem spells_suffix (n : Nullability) : Spells Anything (suffixText n) (suffixSigns n) := by
  cases n with
  | unknown => exact Scan.spells_mark (by decide)
  | nullable => exact Scan.spells_mark (by decide)
  | nonNull => exact Scan.spells_empty _

theorem spells_trail (s : WriteSettings) (marked : Bool) (t : TypeRef) :
    Spells Anything (s.trailText marked t) (s.trailSigns marked t) := by
  rw [WriteSettings.trailText, WriteSettings.trailSigns, WriteSettings.trailNullability]
  split
  · exact spells_suffix t.nullability
  · exact Scan.spells_empty _

theorem nameEnds_trail
    (s : WriteSettings) (marked : Bool) (t : TypeRef) {rest : List Char} (h : NameEnds rest) :
    NameEnds ((s.trailText marked t).toList ++ rest) := by
  rw [WriteSettings.trailText]
  split
  · cases t.nullability with
    | unknown => exact (Scan.Apart.cons (by decide)).nameEnds
    | nullable => exact (Scan.Apart.cons (by decide)).nameEnds
    | nonNull => exact h
  · exact h

theorem nameEnds_dimensions
    (dimensions : Nat) (varargs : Bool) {rest : List Char} (h : NameEnds rest) :
    NameEnds ((dimensionsText dimensions varargs).toList ++ rest) := by
  have hbrackets : ∀ {rest : List Char} (n : Nat), NameEnds rest →
      NameEnds ((Text.repeated "[]" n).toList ++ rest) := by
    intro rest n hrest
    cases n with
    | zero => exact hrest
    | succ n =>
      rw [Text.repeated, String.toList_append]
      exact (Scan.Apart.cons (by decide)).nameEnds
  cases varargs with
  | false => exact hbrackets dimensions h
  | true =>
    have hdots : NameEnds ("...".toList ++ rest) := rfl
    rw [dimensionsText, if_pos rfl, String.toList_append, List.append_assoc]
    exact hbrackets _ hdots

theorem spells_angle
    {α : Type} {text : α → String} {signs : α → List Sign} {xs : List α} (hne : xs ≠ [])
    (h : ∀ x ∈ xs, Spells Apart (text x) (signs x)) :
    Spells Anything ("<" ++ Text.join ", " (xs.map text) ++ ">") (angleSigns (xs.map signs)) := by
  obtain ⟨x, ys, rfl⟩ := List.exists_cons_of_ne_nil hne
  have hopen : Spells Anything "<" [.mark "<"] := Scan.spells_mark (by decide)
  have hclose : Spells Anything ">" [.mark ">"] := Scan.spells_mark (by decide)
  have hlist := Scan.spells_join spells_comma apart_comma h
  have hspells := hopen.seq (hlist.append hclose fun rest _ => Scan.Apart.cons (by decide))
  rwa [← String.append_assoc] at hspells

theorem spells_typeArguments
    {s : WriteSettings} {arguments : List TypeRef}
    (h : ∀ t ∈ arguments, Spells Apart (s.typeText t) (s.typeSigns t)) :
    Spells Anything (s.typeArgumentsText arguments)
      (angleSigns (arguments.map s.typeSigns)) := by
  cases arguments with
  | nil => exact Scan.spells_empty _
  | cons t ts =>
    have hangle : Spells Anything ("<" ++ Text.join ", " ((t :: ts).map s.typeText) ++ ">")
        (angleSigns ((t :: ts).map s.typeSigns)) := spells_angle (List.cons_ne_nil t ts) h
    rwa [List.map_cons] at hangle

theorem nameEnds_typeArguments
    (s : WriteSettings) (arguments : List TypeRef) {rest : List Char} (h : NameEnds rest) :
    NameEnds ((s.typeArgumentsText arguments).toList ++ rest) := by
  cases arguments with
  | nil => exact h
  | cons t ts =>
    simp only [WriteSettings.typeArgumentsText, List.map_cons, String.toList_append,
      List.append_assoc]
    exact (Scan.Apart.cons (by decide)).nameEnds

theorem spells_extends : Spells Anything " extends " [.word "extends"] := by
  have hblank : Spells Anything " " [] := Scan.spells_blank (by decide)
  exact hblank.seq (Scan.spells_word (show IsName "extends" by decide))

theorem spells_super : Spells Anything " super " [.word "super"] := by
  have hblank : Spells Anything " " [] := Scan.spells_blank (by decide)
  exact hblank.seq (Scan.spells_word (show IsName "super" by decide))

/-- A type spells its signs. -/
theorem spells_typeWith
    {common : Option CommonPackages} {s : WriteSettings} (hs : s.capabilities.annotations = true)
    {t : TypeRef} (h : IsLegibleType common t) (varargs marked : Bool) :
    Spells Apart (s.typeTextWith varargs marked t) (s.typeSignsWith varargs marked t) := by
  have hlead : ∀ {t : TypeRef} (marked : Bool), AreTypeAnnotations common t.annotations →
      Spells Anything (s.leadText marked t)
        ((s.leadAnnotations marked t).flatMap s.annotationSigns) :=
    fun marked h => spells_annotations hs (isLegible_leadAnnotations s marked h)
  have hwildcard : Spells Anything "?" [.mark "?"] := Scan.spells_mark (by decide)
  induction h generalizing varargs marked with
  | bare hannotations =>
    rw [s.typeTextWith_wildcard _ _ rfl, s.typeSignsWith_wildcard _ _ rfl]
    exact (hlead marked hannotations).seq (hwildcard.seq (Scan.spells_empty Apart))
  | upper hannotations _ ih =>
    rw [s.typeTextWith_wildcard _ _ rfl, s.typeSignsWith_wildcard _ _ rfl]
    exact (hlead marked hannotations).seq (hwildcard.seq (spells_extends.seq (ih false true)))
  | lower hannotations _ ih =>
    rw [s.typeTextWith_wildcard _ _ rfl, s.typeSignsWith_wildcard _ _ rfl]
    exact (hlead marked hannotations).seq (hwildcard.seq (spells_super.seq (ih false true)))
  | named hannotations hname _ _ ih =>
    rw [s.typeTextWith_named _ _ hname.ne_wildcard, s.typeSignsWith_named _ _ hname.ne_wildcard]
    have harguments := spells_typeArguments fun t ht => ih t ht false true
    refine (hlead marked hannotations).seq ((Scan.spells_name (isName_typeName hname)).append
      (harguments.seq ((spells_dimensions _ varargs).seq
        ((spells_trail s marked _).mono fun _ _ => trivial))) fun rest hrest => ?_)
    simp only [String.toList_append, List.append_assoc]
    exact nameEnds_typeArguments s _
      (nameEnds_dimensions _ _ (nameEnds_trail s marked _ hrest.nameEnds))

/-! ## What types are read back as -/

/-- The type that is read where one with the given parts is written; `f` tells what the written form
of a name stands for. -/
def rebuilt (f : String → String) (name : String) (arguments : List TypeRef) (dimensions : Nat)
    (bound : Option (WildcardBound TypeRef)) (nullability : Nullability) : TypeRef :=
  if name = "?" then TypeRef.wildcard bound
  else ({ TypeRef.named (f name) with arguments }.array dimensions).withNullability nullability

mutual

/-- The type that is read where a type is written. -/
def reread (f : String → String) : TypeRef → TypeRef
  | ⟨name, arguments, dimensions, bound, nullability, annotations⟩ =>
    { rebuilt f name (rereadList f arguments) dimensions (rereadBound f bound) nullability with
      annotations }

/-- The types that are read where those of a list are written. -/
def rereadList (f : String → String) : List TypeRef → List TypeRef
  | [] => []
  | t :: ts => reread f t :: rereadList f ts

/-- The bound that is read where a bound is written. -/
def rereadBound (f : String → String) :
    Option (WildcardBound TypeRef) → Option (WildcardBound TypeRef)
  | none => none
  | some (.upper t) => some (.upper (reread f t))
  | some (.lower t) => some (.lower (reread f t))

end

/-- The type that is read where a type is written without its annotations and with a nullability of
its own. -/
def rereadAs (f : String → String) (nullability : Nullability) (t : TypeRef) : TypeRef :=
  rebuilt f t.name (rereadList f t.arguments) t.dimensions (rereadBound f t.bound) nullability

theorem reread_eq (f : String → String) (t : TypeRef) :
    reread f t = { rereadAs f t.nullability t with annotations := t.annotations } := by
  obtain ⟨name, arguments, dimensions, bound, nullability, annotations⟩ := t
  rw [reread, rereadAs]

theorem rereadList_eq_map (f : String → String) (ts : List TypeRef) :
    rereadList f ts = ts.map (reread f) := by
  induction ts with
  | nil => rfl
  | cons t ts ih => rw [rereadList, ih, List.map_cons]

theorem rereadAs_wildcard
    (f : String → String) (n : Nullability) {t : TypeRef} (h : t.name = "?") :
    rereadAs f n t = TypeRef.wildcard (rereadBound f t.bound) := by
  rw [rereadAs, rebuilt, if_pos h]

theorem owned_rereadAs (f : String → String) (t : TypeRef) (varargs : Bool) :
    (⟨t.annotations, rereadAs f t.nullability t, varargs⟩ : ReadType).owned = reread f t :=
  (reread_eq f t).symm

/-- What the written form of a name stands for. -/
def Source.restored (src : Source) (s : WriteSettings) (name : String) : String :=
  src.typeName (s.typeName name)

/-! ## Parts of types -/

theorem readDimensions_brackets
    (varargs : Bool) {n : Nat} {ts : List Token} {others : List Sign}
    (h : Renders ts (bracketSigns n ++ others)) :
    ∃ ts', readDimensions varargs ts =
        ((readDimensions varargs ts').1 + n, (readDimensions varargs ts').2) ∧
      Renders ts' others := by
  induction n generalizing ts with
  | zero => exact ⟨ts, rfl, h⟩
  | succ n ih =>
    match ts, h with
    | t :: u :: us, .cons hopen (.cons hclose h) =>
      obtain ⟨ts', hread, hts'⟩ := ih h
      have ht : t.isMark "[" = true := hopen.isMark_eq "["
      have hu : u.isMark "]" = true := hclose.isMark_eq "]"
      refine ⟨ts', ?_, hts'⟩
      rw [readDimensions, ht, hu, hread]
      rfl

theorem readDimensions_end
    {varargs : Bool} {ts : List Token} (hbracket : atMark "[" ts = false)
    (hdots : varargs = true ∨ atMark "..." ts = false) :
    readDimensions varargs ts = (0, varargs, ts) := by
  have hnone : ∀ {t : Token} {ts : List Token}, varargs = true ∨ atMark "..." (t :: ts) = false →
      (!varargs && t.isMark "...") = false := by
    intro t ts h
    rcases h with h | h
    · simp [h]
    · have ht : t.isMark "..." = false := by simpa [atMark] using h
      simp [ht]
  match ts with
  | [] => rfl
  | [t] =>
    rw [readDimensions, hnone hdots]
    rfl
  | t :: u :: ts =>
    have ht : t.isMark "[" = false := by simpa [atMark] using hbracket
    rw [readDimensions, ht, hnone hdots]
    rfl

theorem readDimensions_dots
    {t : Token} (ht : t.Shows (.mark "...")) {ts : List Token} (hbracket : atMark "[" ts = false) :
    readDimensions false (t :: ts) = (1, true, ts) := by
  have hdots : t.isMark "..." = true := ht.isMark_eq "..."
  have hopen : t.isMark "[" = false := ht.isMark_eq "["
  cases ts with
  | nil =>
    rw [readDimensions, hdots]
    rfl
  | cons u us =>
    rw [readDimensions, hdots, hopen, readDimensions_end hbracket (.inl rfl)]
    rfl

theorem readDimensions_of_renders
    {dimensions : Nat} {varargs : Bool} (hvarargs : varargs = true → 0 < dimensions)
    {ts : List Token} {others : List Sign} (hbracket : NotAt "[" others)
    (hdots : NotAt "..." others) (h : Renders ts (dimensionSigns dimensions varargs ++ others)) :
    ∃ ts', readDimensions false ts = (dimensions, varargs, ts') ∧ Renders ts' others := by
  cases varargs with
  | false =>
    obtain ⟨ts', hread, hts'⟩ := readDimensions_brackets false h
    rw [readDimensions_end (atMark_eq_false hts' hbracket)
      (.inr (atMark_eq_false hts' hdots))] at hread
    exact ⟨ts', by simpa using hread, hts'⟩
  | true =>
    simp only [dimensionSigns, if_true, List.append_assoc] at h
    obtain ⟨us, hread, hus⟩ := readDimensions_brackets false h
    match us, hus with
    | t :: ts', .cons ht hts' =>
      have hpos := hvarargs rfl
      rw [readDimensions_dots ht (atMark_eq_false hts' hbracket), Nat.add_sub_cancel' hpos] at hread
      exact ⟨ts', hread, hts'⟩

def suffixNullability (n : Nullability) : Option Nullability :=
  if n = .nonNull then none else some n

theorem readSuffix_of_renders
    {n : Nullability} {ts : List Token} {others : List Sign} (hnullable : NotAt "?" others)
    (hunknown : NotAt "!" others) (h : Renders ts (suffixSigns n ++ others)) :
    ∃ ts', readSuffix ts = (suffixNullability n, ts') ∧ Renders ts' others := by
  cases n with
  | nullable =>
    refine ⟨ts.tail, ?_, h.tail⟩
    have hat : atMark "?" ts = true := atMark_of_renders h "?"
    rw [readSuffix, hat]
    rfl
  | unknown =>
    refine ⟨ts.tail, ?_, h.tail⟩
    have hnot : atMark "?" ts = false := atMark_of_renders h "?"
    have hat : atMark "!" ts = true := atMark_of_renders h "!"
    rw [readSuffix, hnot, hat]
    rfl
  | nonNull =>
    refine ⟨ts, ?_, h⟩
    rw [readSuffix, atMark_eq_false h hnullable, atMark_eq_false h hunknown]
    rfl

theorem notAt_dimensions
    (dimensions : Nat) (varargs : Bool) {signs : List Sign} (h : NotAt "<" signs) :
    NotAt "<" (dimensionSigns dimensions varargs ++ signs) := by
  have hbrackets : ∀ {signs : List Sign} (n : Nat), NotAt "<" signs →
      NotAt "<" (bracketSigns n ++ signs) := by
    intro signs n hsigns
    cases n with
    | zero => exact hsigns
    | succ n => simp [bracketSigns]
  cases varargs with
  | false => exact hbrackets dimensions h
  | true =>
    rw [dimensionSigns, if_pos rfl, List.append_assoc]
    exact hbrackets _ (by simp)

theorem notAt_suffix
    {mark : String} (n : Nullability) (hmark : mark ∉ ["?", "!"]) {signs : List Sign}
    (h : NotAt mark signs) : NotAt mark (suffixSigns n ++ signs) := by
  simp only [List.mem_cons, List.not_mem_nil, or_false, not_or] at hmark
  cases n with
  | nullable => simpa [suffixSigns] using Ne.symm hmark.1
  | unknown => simpa [suffixSigns] using Ne.symm hmark.2
  | nonNull => exact h

theorem nullnessOf_append
    {annotations : List Annotation} (h : ∀ a ∈ annotations, a.nullness? = none)
    (n : Nullability) :
    nullnessOf (annotations ++ nullnessAnnotation n) =
      if n = .unknown then none else some n := by
  have hnone : annotations.filterMap Annotation.nullness? = [] :=
    List.filterMap_eq_nil_iff.mpr h
  rw [nullnessOf, List.filterMap_append, hnone]
  cases n <;> decide

theorem withoutNullness_append
    {annotations : List Annotation} (h : ∀ a ∈ annotations, a.nullness? = none)
    (n : Nullability) :
    withoutNullness (annotations ++ nullnessAnnotation n) = annotations := by
  have hall : annotations.filter (fun a => a.nullness?.isNone) = annotations :=
    List.filter_eq_self.mpr fun a ha => by rw [h a ha]; rfl
  have hnone : ∀ a ∈ nullnessAnnotation n, ¬ a.nullness?.isNone = true := by
    cases n <;> decide
  rw [withoutNullness, List.filter_append, hall, List.filter_eq_nil_iff.mpr hnone,
    List.append_nil]

namespace Source

/-- Primitives have no package, and are never taken for a class. -/
theorem restored_primitive
    (src : Source) (s : WriteSettings) {name : String} (h : name ∈ TypeRef.primitives) :
    src.restored s name = name := by
  have hdot : '.' ∉ name.toList := by
    have hall : ∀ n ∈ TypeRef.primitives, '.' ∉ n.toList := by decide
    exact hall name h
  have hkept : s.typeName name = name := by
    rw [WriteSettings.typeName]
    split
    · rename_i common _
      rcases common.shorten_cases .type name with hkept | ⟨xs, ys, hname, -⟩
      · exact hkept
      · exact absurd (by simp [hname]) hdot
    · rfl
  rw [restored, hkept, typeName]
  split
  · rfl
  · simp [h]

/-- A primitive has its nullability from its name. -/
theorem rereadAs_primitive
    (src : Source) (s : WriteSettings) {t : TypeRef} (h : t.isPrimitive = true)
    (n m : Nullability) :
    rereadAs (src.restored s) n t = rereadAs (src.restored s) m t := by
  simp only [TypeRef.isPrimitive, Bool.and_eq_true, beq_iff_eq, List.contains_eq_mem,
    decide_eq_true_eq] at h
  obtain ⟨hdimensions, hname⟩ := h
  have hprimitive : ∀ arguments : List TypeRef,
      ({ TypeRef.named t.name with arguments }.array 0).isPrimitive = true := by
    intro arguments
    simp [TypeRef.named, TypeRef.array, TypeRef.isPrimitive, hname]
  rw [rereadAs, rereadAs, rebuilt, rebuilt, hdimensions, src.restored_primitive s hname]
  simp [TypeRef.withNullability, hprimitive]

/-- What the signs around a type tell about null, put together, is its nullability. -/
theorem nullability_written
    {src : Source} {s : WriteSettings} (hagree : Agree s src.settings) (marked : Bool) {t : TypeRef}
    (hannotations : ∀ a ∈ t.annotations, a.nullness? = none) (hprimitive : t.isPrimitive = false)
    (hwildcard : t.isWildcard = false) :
    ((suffixNullability (s.trailNullability marked t)).or
        (nullnessOf (s.leadAnnotations marked t))).getD src.plainNullability =
      if marked then t.nullability else src.plainNullability := by
  have hnone : nullnessOf (t.annotations ++ []) = none := nullnessOf_append hannotations .unknown
  have hsome := nullnessOf_append hannotations t.nullability
  rw [WriteSettings.trailNullability, WriteSettings.leadAnnotations, hprimitive, hwildcard,
    plainNullability, ← hagree.kotlinNulls]
  cases marked with
  | false =>
    simp only [Bool.false_and, Bool.false_eq_true, if_false, hnone]
    rfl
  | true =>
    cases s.kotlinNulls with
    | true =>
      simp only [Bool.not_true, Bool.and_false, Bool.false_and, Bool.false_eq_true, if_false, hnone]
      cases t.nullability <;> rfl
    | false =>
      simp only [Bool.not_false, Bool.and_self, if_true, hsome]
      cases t.nullability <;> rfl

theorem rereadAs_written
    {src : Source} {s : WriteSettings} (hagree : Agree s src.settings) (marked : Bool) {t : TypeRef}
    (hannotations : ∀ a ∈ t.annotations, a.nullness? = none) (hname : t.name ≠ "?") :
    rereadAs (src.restored s)
        (((suffixNullability (s.trailNullability marked t)).or
          (nullnessOf (s.leadAnnotations marked t))).getD src.plainNullability) t =
      rereadAs (src.restored s) (if marked then t.nullability else src.plainNullability) t := by
  cases hprimitive : t.isPrimitive with
  | true => exact src.rereadAs_primitive s hprimitive _ _
  | false =>
    have hwildcard : t.isWildcard = false := by simpa [TypeRef.isWildcard] using hname
    rw [nullability_written hagree marked hannotations hprimitive hwildcard]

end Source

/-! ## Types are read back -/

mutual

/-- Whether the last sign of the type is the mark of a wildcard. -/
def endsBare : TypeRef → Bool
  | ⟨name, _, _, bound, _, _⟩ => name == "?" && boundEndsBare bound

/-- Whether nothing is written for the bound, or the mark of a wildcard is its last sign. -/
def boundEndsBare : Option (WildcardBound TypeRef) → Bool
  | none => true
  | some (.upper t) => endsBare t
  | some (.lower t) => endsBare t

end

@[simp]
theorem endsBare_owned (t : ReadType) : endsBare t.owned = endsBare t.type := by
  obtain ⟨annotations, type, varargs⟩ := t
  cases type
  rfl

/-- The signs do not start with the word. -/
def NotAtWord (word : String) (signs : List Sign) : Prop :=
  (signs.head?.any fun s => s.isWord word) = false

/-- The signs cannot continue the type in front of them. -/
structure TypeEnds (t : TypeRef) (signs : List Sign) : Prop where
  marks : ∀ mark ∈ ["<", "[", "...", "?", "!"], NotAt mark signs
  words : endsBare t = true → NotAtWord "extends" signs ∧ NotAtWord "super" signs

/-- Whether the sign continues no type at all. -/
def Sign.endsType (s : Sign) : Bool :=
  !(["<", "[", "...", "?", "!"].any s.isMark || ["extends", "super"].any s.isWord)

theorem typeEnds_of_at
    {options signs : List Sign} (h : At options signs)
    (hends : ∀ s ∈ options, Sign.endsType s = true)
    (t : TypeRef) : TypeEnds t signs := by
  obtain ⟨s, hs, js, rfl⟩ := h
  have hs := hends s hs
  simp only [Sign.endsType, Bool.not_eq_true', Bool.or_eq_false_iff, List.any_eq_false] at hs
  constructor
  · intro mark hmark
    simpa [NotAt] using hs.1 mark hmark
  · intro _
    exact ⟨by simpa [NotAtWord] using hs.2 "extends" (by decide),
      by simpa [NotAtWord] using hs.2 "super" (by decide)⟩

theorem typeEnds_word
    {word : String} {t : TypeRef} (h : endsBare t = true → word ≠ "extends" ∧ word ≠ "super")
    (signs : List Sign) : TypeEnds t (.word word :: signs) where
  marks := by simp
  words hbare := by simpa [NotAtWord] using h hbare

theorem ReadsAs.mono
    {α : Type} {r : Reader α} {F G : List Sign → Prop} {signs : List Sign} {x : α}
    (h : ReadsAs r F signs x) (hfollow : ∀ js, G js → F js) : ReadsAs r G signs x :=
  fun ts others hothers hts => h ts others (hfollow others hothers) hts

namespace Source

theorem readsAs_bound_none
    (type : Reader ReadType) :
    ReadsAs (readBound type) (fun js => NotAtWord "extends" js ∧ NotAtWord "super" js) [] none := by
  rintro ts others ⟨hextends, hsuper⟩ hts
  refine ⟨ts, ?_, hts⟩
  have hnot : atWord "extends" ts = false := (atWord_of_renders hts "extends").trans hextends
  have hnot' : atWord "super" ts = false := (atWord_of_renders hts "super").trans hsuper
  rw [readBound, hnot, hnot']
  rfl

theorem readsAs_bound_upper
    {type : Reader ReadType} {F : List Sign → Prop} {signs : List Sign} {t : ReadType}
    (h : ReadsAs type F signs t) :
    ReadsAs (readBound type) F (.word "extends" :: signs) (some (.upper t.owned)) := by
  intro ts others hothers hts
  obtain ⟨ts', hread, hts'⟩ := h ts.tail others hothers hts.tail
  refine ⟨ts', ?_, hts'⟩
  have hat : atWord "extends" ts = true := atWord_of_renders hts "extends"
  rw [readBound, hat, hread]
  rfl

theorem readsAs_bound_lower
    {type : Reader ReadType} {F : List Sign → Prop} {signs : List Sign} {t : ReadType}
    (h : ReadsAs type F signs t) :
    ReadsAs (readBound type) F (.word "super" :: signs) (some (.lower t.owned)) := by
  intro ts others hothers hts
  obtain ⟨ts', hread, hts'⟩ := h ts.tail others hothers hts.tail
  refine ⟨ts', ?_, hts'⟩
  have hnot : atWord "extends" ts = false := atWord_of_renders hts "extends"
  have hat : atWord "super" ts = true := atWord_of_renders hts "super"
  rw [readBound, hnot, hat, hread]
  rfl

theorem length_le_of_mem_angle
    {α : Type} (signs : α → List Sign) {xs : List α} {x : α} (h : x ∈ xs) :
    (signs x).length ≤ (angleSigns (xs.map signs)).length := by
  cases xs with
  | nil => cases h
  | cons y ys =>
    have hle := Scan.length_le_of_mem_separated (.mark ",") (List.mem_map_of_mem (f := signs) h)
    simp only [angleSigns, List.map_cons, List.length_append, List.length_cons] at hle ⊢
    omega

/-- Items in angle brackets are read up to the closing bracket. -/
theorem angle_of_renders
    {α β : Type} (src : Source) {item : Reader α} {F : List Sign → Prop}
    (hcomma : ∀ js, F (.mark "," :: js)) (hclose : ∀ js, F (.mark ">" :: js))
    {signs : β → List Sign} {value : β → α} {xs : List β} (hne : xs ≠ [])
    (h : ∀ x ∈ xs, ReadsAs item F (signs x) (value x)) {ts : List Token} {others : List Sign}
    (hts : Renders ts (angleSigns (xs.map signs) ++ others)) :
    atMark "<" ts = true ∧ ∃ ts₁ ts₂,
      src.readSeparated item "," ts.length ts.tail = .ok (xs.map value, ts₁) ∧
        src.expectMark ">" ts₁ = .ok ts₂ ∧ Renders ts₂ others := by
  obtain ⟨x, ys, rfl⟩ := List.exists_cons_of_ne_nil hne
  have hrounds := Scan.length_le_length_separated (.mark ",") ((x :: ys).map signs)
  have hlength := hts.length_eq
  have hinside : Renders ts.tail
      (separated (.mark ",") ((x :: ys).map signs) ++ .mark ">" :: others) := by
    simpa [angleSigns] using hts.tail
  have hitems : ReadsAs (src.readSeparated item "," ts.length) (At [.mark ">"])
      (separated (.mark ",") ((x :: ys).map signs)) ((x :: ys).map value) := by
    refine src.readsAs_separated hcomma ?_ hne ?_ h
    · rintro js hjs
      refine ⟨?_, hjs.notAt (by decide)⟩
      obtain ⟨s, hs, js', rfl⟩ := hjs
      rw [List.mem_singleton.mp hs]
      exact hclose js'
    · simp [angleSigns] at hlength hrounds ⊢
      omega
  obtain ⟨ts₁, hread, hts₁⟩ := hitems ts.tail _ (.cons (by decide) others) hinside
  obtain ⟨ts₂, hexpect, hts₂⟩ := src.expectMark_of_renders hts₁
  exact ⟨atMark_of_renders hts "<", ts₁, ts₂, hread, hexpect, hts₂⟩

theorem readsAs_typeArguments
    (src : Source) {type : Reader ReadType} {signs : TypeRef → List Sign}
    {value : TypeRef → ReadType} {arguments : List TypeRef}
    (h : ∀ t ∈ arguments, ReadsAs type (TypeEnds t) (signs t) (value t)) :
    ReadsAs (src.readArguments type) (NotAt "<") (angleSigns (arguments.map signs))
      (arguments.map fun t => (value t).owned) := by
  intro ts others hothers hts
  cases arguments with
  | nil =>
    refine ⟨ts, ?_, hts⟩
    rw [readArguments, atMark_eq_false hts hothers]
    rfl
  | cons t us =>
    obtain ⟨hat, ts₁, ts₂, hread, hclose, hts₂⟩ := src.angle_of_renders
      (F := At [.mark ",", .mark ">"]) (At.cons (by decide)) (At.cons (by decide))
      (List.cons_ne_nil t us)
      (fun x hx => (h x hx).mono fun js hjs => typeEnds_of_at hjs (by decide) x) hts
    refine ⟨ts₂, ?_, hts₂⟩
    simp only [readArguments, hat, hread, hclose, ok_bind, pure_eq_ok]
    simp [Function.comp_def]

theorem length_le_length_annotations (s : WriteSettings) (annotations : List Annotation) :
    annotations.length ≤ (annotations.flatMap s.annotationSigns).length := by
  induction annotations with
  | nil => simp
  | cons a as ih =>
    simp only [List.flatMap_cons, List.length_append, List.length_cons,
      WriteSettings.annotationSigns]
    omega

/-- The annotations in front of a type are read back. -/
theorem readsAs_leadAnnotations
    {src : Source} {s : WriteSettings} (hagree : Agree s src.settings) (marked : Bool) {t : TypeRef}
    (h : AreTypeAnnotations src.settings.common t.annotations) :
    ReadsAs (fun ts => src.readAnnotations ts.length ts) (fun js => NotAt "@" js ∧ NotAt "(" js)
      ((s.leadAnnotations marked t).flatMap s.annotationSigns) (s.leadAnnotations marked t) := by
  intro ts others hothers hts
  have hrounds := length_le_length_annotations s (s.leadAnnotations marked t)
  have hlength := hts.length_eq
  rw [List.length_append] at hlength
  exact readsAs_annotations hagree (isLegible_leadAnnotations s marked h) (by omega) ts others
    hothers hts

theorem withoutNullness_leadAnnotations
    (s : WriteSettings) (marked : Bool) {t : TypeRef}
    (h : ∀ a ∈ t.annotations, a.nullness? = none) :
    withoutNullness (s.leadAnnotations marked t) = t.annotations := by
  rw [WriteSettings.leadAnnotations]
  split
  · exact withoutNullness_append h t.nullability
  · exact withoutNullness_append h .unknown

/-- A wildcard is read back if its bound is. -/
theorem readsAs_wildcard
    {src : Source} {s : WriteSettings} (hagree : Agree s src.settings) (marked : Bool) {t : TypeRef}
    (h : AreTypeAnnotations src.settings.common t.annotations) {F : List Sign → Prop}
    {signs : List Sign} {bound : Option (WildcardBound TypeRef)} {depth : Nat}
    (hbound : ReadsAs (readBound (src.readTypeWithin depth)) F signs bound) :
    ReadsAs (src.readTypeWithin (depth + 1)) F
      ((s.leadAnnotations marked t).flatMap s.annotationSigns ++ .mark "?" :: signs)
      ⟨t.annotations, TypeRef.wildcard bound, false⟩ := by
  intro ts others hothers hts
  rw [List.append_assoc] at hts
  obtain ⟨ts₁, hlead, hts₁⟩ :=
    readsAs_leadAnnotations hagree marked h ts _ ⟨by simp, by simp⟩ hts
  obtain ⟨ts₂, hread, hts₂⟩ := hbound ts₁.tail others hothers hts₁.tail
  refine ⟨ts₂, ?_, hts₂⟩
  have hat : atMark "?" ts₁ = true := atMark_of_renders hts₁ "?"
  simp only [readTypeWithin, hlead, hat, hread, ok_bind, pure_eq_ok,
    withoutNullness_leadAnnotations s marked fun a ha => (h a ha).2]
  rfl

/-- A type with a name is read back if its arguments are. -/
theorem readsAs_named
    {src : Source} {s : WriteSettings} (hagree : Agree s src.settings) (varargs marked : Bool)
    {t : TypeRef} (h : AreTypeAnnotations src.settings.common t.annotations) (hname : t.name ≠ "?")
    (hvarargs : varargs = true → 0 < t.dimensions) {depth : Nat}
    (harguments : ReadsAs (src.readArguments (src.readTypeWithin depth)) (NotAt "<")
      (angleSigns (t.arguments.map s.typeSigns))
      (rereadList (src.restored s) t.arguments)) :
    ReadsAs (src.readTypeWithin (depth + 1)) (TypeEnds t) (s.typeSignsWith varargs marked t)
      ⟨t.annotations,
        rereadAs (src.restored s) (if marked then t.nullability else src.plainNullability) t,
        varargs⟩ := by
  intro ts others hothers hts
  have hmark := hothers.marks
  simp only [List.mem_cons, List.not_mem_nil, or_false, forall_eq_or_imp, forall_eq] at hmark
  obtain ⟨hangle, hbracket, hdots, hnullable, hunknown⟩ := hmark
  simp only [s.typeSignsWith_named varargs marked hname, List.append_assoc, List.cons_append] at hts
  obtain ⟨ts₁, hlead, hts₁⟩ :=
    readsAs_leadAnnotations hagree marked h ts _ ⟨by simp, by simp⟩ hts
  obtain ⟨ts₂, hread, hts₂⟩ := src.expectName_of_renders "type" hts₁
  obtain ⟨ts₃, hinside, hts₃⟩ := harguments ts₂ _
    (notAt_dimensions t.dimensions varargs (notAt_suffix _ (by decide) hangle)) hts₂
  obtain ⟨ts₄, hcount, hts₄⟩ := readDimensions_of_renders hvarargs
    (notAt_suffix _ (by decide) hbracket) (notAt_suffix _ (by decide) hdots) hts₃
  obtain ⟨ts₅, hsuffix, hts₅⟩ := readSuffix_of_renders hnullable hunknown hts₄
  refine ⟨ts₅, ?_, hts₅⟩
  have hat : atMark "?" ts₁ = false := atMark_of_renders hts₁ "?"
  rw [← rereadAs_written hagree marked (fun a ha => (h a ha).2) hname, rereadAs, rebuilt,
    if_neg hname]
  simp only [readTypeWithin, hlead, hat, hread, hinside, hcount, hsuffix, ok_bind, pure_eq_ok,
    withoutNullness_leadAnnotations s marked fun a ha => (h a ha).2]
  rfl

/-- A type is read back, in front of signs that cannot continue it. -/
theorem readsAs_typeWithin
    {src : Source} {s : WriteSettings} (hagree : Agree s src.settings) {t : TypeRef}
    (h : IsLegibleType src.settings.common t) {varargs : Bool}
    (hvarargs : varargs = true → t.name ≠ "?" ∧ 0 < t.dimensions) (marked : Bool) {depth : Nat}
    (hdepth : (s.typeSignsWith varargs marked t).length ≤ depth) :
    ReadsAs (src.readTypeWithin depth) (TypeEnds t) (s.typeSignsWith varargs marked t)
      ⟨t.annotations,
        rereadAs (src.restored s) (if marked then t.nullability else src.plainNullability) t,
        varargs⟩ := by
  induction h generalizing depth varargs marked with
  | bare hannotations =>
    obtain rfl : varargs = false := by simpa using hvarargs
    rw [s.typeSignsWith_wildcard _ _ rfl] at hdepth ⊢
    obtain ⟨depth, rfl⟩ : ∃ n, depth = n + 1 := ⟨depth - 1, by simp at hdepth; omega⟩
    exact (readsAs_wildcard hagree marked hannotations (readsAs_bound_none _)).mono
      fun js hjs => hjs.words rfl
  | @upper annotations t hannotations _ ih =>
    obtain rfl : varargs = false := by simpa using hvarargs
    rw [s.typeSignsWith_wildcard _ _ rfl] at hdepth ⊢
    obtain ⟨depth, rfl⟩ : ∃ n, depth = n + 1 := ⟨depth - 1, by simp at hdepth; omega⟩
    have hinside : (s.typeSignsWith false true t).length ≤ depth := by
      simp [WriteSettings.boundSigns] at hdepth
      omega
    have hbound := readsAs_bound_upper (ih (by simp) true hinside)
    rw [if_pos rfl, owned_rereadAs] at hbound
    rw [rereadAs_wildcard _ _ rfl]
    exact (readsAs_wildcard hagree marked hannotations hbound).mono fun js hjs =>
      ⟨hjs.marks, hjs.words⟩
  | @lower annotations t hannotations _ ih =>
    obtain rfl : varargs = false := by simpa using hvarargs
    rw [s.typeSignsWith_wildcard _ _ rfl] at hdepth ⊢
    obtain ⟨depth, rfl⟩ : ∃ n, depth = n + 1 := ⟨depth - 1, by simp at hdepth; omega⟩
    have hinside : (s.typeSignsWith false true t).length ≤ depth := by
      simp [WriteSettings.boundSigns] at hdepth
      omega
    have hbound := readsAs_bound_lower (ih (by simp) true hinside)
    rw [if_pos rfl, owned_rereadAs] at hbound
    rw [rereadAs_wildcard _ _ rfl]
    exact (readsAs_wildcard hagree marked hannotations hbound).mono fun js hjs =>
      ⟨hjs.marks, hjs.words⟩
  | @named name arguments dimensions nullability annotations hannotations hname hprimitive _ ih =>
    have hlength := hdepth
    rw [s.typeSignsWith_named _ _ hname.ne_wildcard] at hlength
    obtain ⟨depth, rfl⟩ : ∃ n, depth = n + 1 := ⟨depth - 1, by simp at hlength; omega⟩
    have hinside : ∀ t ∈ arguments, (s.typeSignsWith false true t).length ≤ depth := by
      intro t ht
      have hle := length_le_of_mem_angle s.typeSigns ht
      rw [WriteSettings.typeSigns] at hle
      simp only [List.length_append, List.length_cons] at hlength
      omega
    have harguments := src.readsAs_typeArguments fun t ht => ih t ht (by simp) true (hinside t ht)
    simp only [if_true, owned_rereadAs] at harguments
    rw [← rereadList_eq_map] at harguments
    exact readsAs_named hagree varargs marked hannotations hname.ne_wildcard
      (fun h => (hvarargs h).2) harguments

theorem readsAs_type
    {src : Source} {s : WriteSettings} (hagree : Agree s src.settings) {t : TypeRef}
    (h : IsLegibleType src.settings.common t) {varargs : Bool}
    (hvarargs : varargs = true → t.name ≠ "?" ∧ 0 < t.dimensions) (marked : Bool) :
    ReadsAs src.readType (TypeEnds t) (s.typeSignsWith varargs marked t)
      ⟨t.annotations,
        rereadAs (src.restored s) (if marked then t.nullability else src.plainNullability) t,
        varargs⟩ := by
  intro ts others hothers hts
  have hlength := hts.length_eq
  rw [List.length_append] at hlength
  exact readsAs_typeWithin hagree h hvarargs marked (by omega) ts others hothers hts

theorem readsAs_ownedType
    {src : Source} {s : WriteSettings} (hagree : Agree s src.settings) {t : TypeRef}
    (h : IsLegibleType src.settings.common t) :
    ReadsAs src.readOwnedType (TypeEnds t) (s.typeSigns t) (reread (src.restored s) t) := by
  have hread : ReadsAs src.readType (TypeEnds t) (s.typeSigns t)
      ⟨t.annotations, rereadAs (src.restored s) t.nullability t, false⟩ :=
    readsAs_type hagree h (by simp) true
  intro ts others hothers hts
  obtain ⟨ts', htype, hts'⟩ := hread ts others hothers hts
  refine ⟨ts', ?_, hts'⟩
  simp only [readOwnedType, htype, ok_bind, pure_eq_ok, owned_rereadAs]

end Source

/-! ## Types read back unchanged -/

theorem rebuilt_self
    {name : String} {arguments : List TypeRef} {dimensions : Nat} {nullability : Nullability}
    {f : String → String} (hname : name ≠ "?") (hrestored : f name = name)
    (hprimitive : dimensions = 0 → name ∈ TypeRef.primitives → nullability = .nonNull) :
    rebuilt f name arguments dimensions none nullability =
      ⟨name, arguments, dimensions, none, nullability, []⟩ := by
  rw [rebuilt, if_neg hname, hrestored]
  by_cases hmember : name ∈ TypeRef.primitives
  · cases dimensions with
    | zero =>
      simp [TypeRef.named, TypeRef.array, TypeRef.withNullability, TypeRef.isPrimitive, hmember,
        hprimitive rfl hmember]
    | succ n =>
      simp [TypeRef.named, TypeRef.array, TypeRef.withNullability, TypeRef.isPrimitive,
        TypeRef.isWildcard, hname]
  · simp [TypeRef.named, TypeRef.array, TypeRef.withNullability, TypeRef.isPrimitive,
      TypeRef.isWildcard, hmember, hname]

theorem rebuilt_named
    (f : String → String) {name : String} (hname : name ≠ "?") (arguments : List TypeRef)
    (dimensions : Nat) (bound : Option (WildcardBound TypeRef)) (nullability : Nullability) :
    ∃ n, rebuilt f name arguments dimensions bound nullability =
        ⟨f name, arguments, dimensions, none, n, []⟩ ∧
      (dimensions = 0 → f name ∈ TypeRef.primitives → n = .nonNull) := by
  rw [rebuilt, if_neg hname, TypeRef.withNullability]
  split
  · refine ⟨_, by rw [TypeRef.array, TypeRef.named, Nat.zero_add], ?_⟩
    rintro rfl hprimitive
    simp [hprimitive]
  · rename_i hother
    refine ⟨nullability, by simp [TypeRef.named, TypeRef.array], ?_⟩
    rintro rfl hprimitive
    exact absurd hother (by simp [TypeRef.named, TypeRef.array, TypeRef.isPrimitive, hprimitive])

theorem map_eq_self_iff
    {α : Type} {f : α → α} {xs : List α} : xs.map f = xs ↔ ∀ x ∈ xs, f x = x := by
  induction xs with
  | nil => simp
  | cons x xs ih => simp [ih]

theorem mem_namesList_iff {n : String} {ts : List TypeRef} :
    n ∈ TypeRef.namesList ts ↔ ∃ t ∈ ts, n ∈ t.names := by
  induction ts with
  | nil => simp [TypeRef.namesList]
  | cons t ts ih => simp [TypeRef.namesList, ih]

/-- A type is read back unchanged if and only if the names in it are restored. -/
theorem reread_eq_self_iff
    {common : Option CommonPackages} {f : String → String} {t : TypeRef}
    (h : IsLegibleType common t) : reread f t = t ↔ ∀ n ∈ t.names, n ≠ "?" → f n = n := by
  induction h with
  | bare _ => simp [reread, rebuilt, TypeRef.wildcard, rereadBound, TypeRef.names,
      TypeRef.namesList, TypeRef.namesBound]
  | upper _ _ ih =>
    simp [reread, rebuilt, TypeRef.wildcard, rereadBound, TypeRef.names, TypeRef.namesList,
      TypeRef.namesBound, ih]
  | lower _ _ ih =>
    simp [reread, rebuilt, TypeRef.wildcard, rereadBound, TypeRef.names, TypeRef.namesList,
      TypeRef.namesBound, ih]
  | @named name arguments dimensions nullability annotations _ hname hprimitive _ ih =>
    have harguments : arguments.map (reread f) = arguments ↔
        ∀ n ∈ TypeRef.namesList arguments, n ≠ "?" → f n = n := by
      rw [map_eq_self_iff]
      constructor
      · intro hall n hn
        obtain ⟨t, ht, hn⟩ := mem_namesList_iff.mp hn
        exact (ih t ht).mp (hall t ht) n hn
      · intro hall t ht
        exact (ih t ht).mpr fun n hn => hall n (mem_namesList_iff.mpr ⟨t, ht, hn⟩)
    rw [reread, rereadBound, rereadList_eq_map]
    simp only [TypeRef.names, TypeRef.namesBound, List.append_nil, List.mem_cons, forall_eq_or_imp]
    constructor
    · intro heq
      obtain ⟨n, hrebuilt, -⟩ := rebuilt_named f hname.ne_wildcard (arguments.map (reread f))
        dimensions none nullability
      rw [hrebuilt] at heq
      injection heq with hnamed hinside
      exact ⟨fun _ => hnamed, harguments.mp hinside⟩
    · rintro ⟨hnamed, hinside⟩
      rw [harguments.mpr hinside, rebuilt_self hname.ne_wildcard (hnamed hname.ne_wildcard)
        hprimitive]

end Signature
end ApiSurface
