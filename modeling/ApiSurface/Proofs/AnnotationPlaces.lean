import ApiSurface.Proofs.Layout.Brackets
import ApiSurface.Proofs.Layout.Values
import ApiSurface.Proofs.RoundTrip.Preamble

/-!
# Annotations before and behind type variables

The annotations of a method may stand before its type variables, where they are read as part of the
preamble, or behind them, where they are read as part of the type.  Methods are read in both orders
or in neither, and all but the annotations is read alike.  What the annotations come to is compared
here: the two orders differ where an annotation deprecates, and where an annotation speaks of null
but the type is marked as unknown, or is plain and the version takes plain types for nonnull.
-/

namespace ApiSurface
namespace Signature

/-! ## Types without the annotations in front of them -/

/-- A type as read, without the annotations in front of it. -/
structure BareType where
  type : TypeRef
  /-- The mark of nullability behind the type. -/
  suffix : Option Nullability
  varargs : Bool

namespace BareType

/-- The nullability that the type says of itself, given the annotations in front of it. -/
def stated (t : BareType) (annotations : List Annotation) : Option Nullability :=
  t.suffix.or (nullnessOf annotations)

/-- The type with the annotations in front of it, and with a nullability where it says none. -/
def annotated (t : BareType) (plain : Nullability) (annotations : List Annotation) : ReadType :=
  ⟨withoutNullness annotations, t.type.withNullability ((t.stated annotations).getD plain),
    t.varargs⟩

end BareType

namespace Source

def readBare (src : Source) (depth : Nat) : Reader BareType := fun ts =>
  if atMark "?" ts then do
    let (bound, ts) ← readBound (src.readTypeWithin depth) ts.tail
    return (⟨TypeRef.wildcard bound, none, false⟩, ts)
  else do
    let (name, ts) ← src.expectName "type" ts
    let (arguments, ts) ← src.readArguments (src.readTypeWithin depth) ts
    let (dimensions, varargs, ts) := readDimensions false ts
    let (suffix, ts) := readSuffix ts
    let type := { TypeRef.named (src.typeName name) with arguments }.array dimensions
    return (⟨type, suffix, varargs⟩, ts)

variable {src : Source}

theorem readTypeWithin_succ (src : Source) (depth : Nat) (ts : List Token) :
    src.readTypeWithin (depth + 1) ts = src.readAnnotations ts.length ts >>= fun p =>
      src.readBare depth p.2 >>= fun q => .ok (q.1.annotated src.plainNullability p.1, q.2) := by
  rw [readTypeWithin]
  refine bind_congr fun p => ?_
  simp only [readBare]
  -- A wildcard keeps its nullability, whatever the annotations say.
  split
  · simp only [bind_assoc]
    rfl
  · simp only [bind_assoc]
    rfl

/-! ## Enough rounds -/

/-- Annotations take a token at least, so the tokens that are left bound their number. -/
theorem readAnnotations_of_le
    {ts : List Token} {rounds rounds' : Nat} (h : ts.length ≤ rounds) (h' : ts.length ≤ rounds') :
    src.readAnnotations rounds ts = src.readAnnotations rounds' ts := by
  have hnil : ∀ rounds, src.readAnnotations rounds [] = .ok ([], []) := by
    intro rounds
    cases rounds <;> rfl
  induction rounds generalizing ts rounds' with
  | zero =>
    rw [List.length_eq_zero_iff.mp (Nat.le_zero.mp h), hnil, hnil]
  | succ rounds ih =>
    cases rounds' with
    | zero => rw [List.length_eq_zero_iff.mp (Nat.le_zero.mp h'), hnil, hnil]
    | succ rounds' =>
      rw [readAnnotations, readAnnotations]
      split
      · rfl
      · cases ha : src.readAnnotation ts with
        | error fault => rfl
        | ok p =>
          obtain ⟨a, rest⟩ := p
          have hlt := (gives_annotationAt ts).length_lt ha
          have hrest : src.readAnnotations rounds rest = src.readAnnotations rounds' rest :=
            ih (by omega) (by omega)
          simp only [ok_bind, hrest]

theorem readSeparated_congr
    {α : Type} {item item' : Reader α} {limit : Nat}
    (hitem : ∀ ts, ts.length ≤ limit → item ts = item' ts)
    (hshrinks : ∀ ts x rest, item ts = .ok (x, rest) → rest.length ≤ ts.length) (mark : String)
    (rounds : Nat) {ts : List Token} (hts : ts.length ≤ limit) :
    src.readSeparated item mark rounds ts = src.readSeparated item' mark rounds ts := by
  induction rounds generalizing ts with
  | zero => rfl
  | succ rounds ih =>
    rw [readSeparated, readSeparated, ← hitem ts hts]
    cases hx : item ts with
    | error fault => rfl
    | ok p =>
      obtain ⟨x, rest⟩ := p
      have hle := hshrinks ts x rest hx
      have htail := rest.length_tail
      simp only [ok_bind]
      rw [ih (by omega)]

theorem readBare_congr
    {depth depth' limit : Nat}
    (h : ∀ ts, ts.length ≤ limit → src.readTypeWithin depth ts = src.readTypeWithin depth' ts)
    {ts : List Token} (hts : ts.length ≤ limit + 1) :
    src.readBare depth ts = src.readBare depth' ts := by
  rw [readBare, readBare]
  split
  · rw [readBound, readBound, h _ (by simp only [List.length_tail]; omega)]
  · cases hname : src.expectName "type" ts with
    | error fault => rfl
    | ok p =>
      obtain ⟨name, rest⟩ := p
      obtain ⟨u, rfl, -⟩ := exists_of_expectName hname
      rw [List.length_cons] at hts
      have hshrinks : ∀ ts t rest, src.readTypeWithin depth ts = .ok (t, rest) →
          rest.length ≤ ts.length := fun ts _ _ => (gives_typeWithin depth ts).length_le
      simp only [ok_bind]
      rw [readArguments, readArguments,
        readSeparated_congr h hshrinks "," rest.length (by simp only [List.length_tail]; omega)]

/-- A type nests at most as deep as there are tokens left. -/
theorem readTypeWithin_of_le
    {ts : List Token} {depth depth' : Nat} (h : ts.length ≤ depth) (h' : ts.length ≤ depth') :
    src.readTypeWithin depth ts = src.readTypeWithin depth' ts := by
  have hnil : ∀ depth, src.readTypeWithin depth [] = .error (src.fault [] "type") := by
    intro depth
    cases depth <;> rfl
  induction depth generalizing ts depth' with
  | zero =>
    rw [List.length_eq_zero_iff.mp (Nat.le_zero.mp h), hnil, hnil]
  | succ depth ih =>
    cases depth' with
    | zero => rw [List.length_eq_zero_iff.mp (Nat.le_zero.mp h'), hnil, hnil]
    | succ depth' =>
      rw [readTypeWithin_succ, readTypeWithin_succ]
      cases hannotations : src.readAnnotations ts.length ts with
      | error fault => rfl
      | ok p =>
        obtain ⟨annotations, rest⟩ := p
        have hle := (gives_annotations ts.length ts).length_le hannotations
        have hbare : src.readBare depth rest = src.readBare depth' rest :=
          readBare_congr (fun ts (hts : ts.length ≤ min depth depth') => ih (by omega) (by omega))
            (by omega)
        simp only [ok_bind, hbare]

/-! ## Stretches of tokens -/

/-- Stretches of tokens, one for each of the annotations, none of which starts like the declaration
of an annotation type. -/
def AreAnnotations (src : Source) (groups : List (List Token)) (annotations : List Annotation) :
    Prop :=
  List.Forall₂
    (fun g a => src.readAnnotation g = .ok (a, []) ∧ atWord "interface" g.tail = false)
    groups annotations

theorem readAnnotation_append
    {src' : Source} (hsettings : src'.settings = src.settings) {g ts : List Token} {a : Annotation}
    (h : src.readAnnotation g = .ok (a, [])) (hts : atMark "(" ts = false) :
    src'.readAnnotation (g ++ ts) = .ok (a, ts) := by
  obtain ⟨rest, hrest, hechoes⟩ :=
    annotation_repeats hsettings (Echoes.append_behind ts g) a [] h fun _ => hts
  rw [hrest, hechoes.eq_append]
  rfl

/-- An annotation starts with its mark and a name. -/
theorem exists_of_readAnnotation
    {g rest : List Token} {a : Annotation} (h : src.readAnnotation g = .ok (a, rest)) :
    ∃ t u ts, g = t :: u :: ts ∧ t.isMark "@" = true := by
  obtain ⟨ts, hmark, h⟩ := bind_eq_ok.mp h
  have hat := atMark_of_expectMark hmark
  rw [expectMark, if_pos hat] at hmark
  cases hmark
  obtain ⟨_, hname, -⟩ := bind_eq_ok.mp h
  rcases g with _ | ⟨t, _ | ⟨u, ts⟩⟩
  · cases hat
  · cases hname
  · exact ⟨t, u, ts, rfl, hat⟩

namespace AreAnnotations

variable {groups : List (List Token)} {annotations : List Annotation} {ts : List Token}

theorem length_le (h : AreAnnotations src groups annotations) :
    groups.length ≤ groups.flatten.length := by
  induction h with
  | nil => exact le_rfl
  | cons hfirst _ ih =>
    obtain ⟨t, u, us, rfl, -⟩ := exists_of_readAnnotation hfirst.1
    simp only [List.length_cons, List.flatten_cons, List.length_append]
    omega

/-- Annotations and what follows them are not taken for arguments. -/
theorem not_open (h : AreAnnotations src groups annotations) (hts : atMark "(" ts = false) :
    atMark "(" (groups.flatten ++ ts) = false := by
  cases h with
  | nil => exact hts
  | cons hfirst _ =>
    obtain ⟨t, u, us, rfl, hat⟩ := exists_of_readAnnotation hfirst.1
    exact isMark_of_isMark hat (by decide)

/-- In a preamble, annotations are taken over one by one. -/
theorem extendPreamble_eq
    (h : AreAnnotations src groups annotations) (hts : atMark "(" ts = false) (rounds : Nat)
    (p : Preamble) :
    src.extendPreamble (groups.length + rounds) p (groups.flatten ++ ts) =
      src.extendPreamble rounds (annotations.foldl Preamble.annotate p) ts := by
  induction h generalizing p with
  | nil => rw [List.length_nil, Nat.zero_add]; rfl
  | @cons g a groups annotations hfirst hothers ih =>
    have hopen := not_open hothers hts
    have hread := readAnnotation_append rfl hfirst.1 hopen
    obtain ⟨t, u, us, rfl, hat⟩ := exists_of_readAnnotation hfirst.1
    have hword : atWord "interface" (u :: us ++ (groups.flatten ++ ts)) = false := hfirst.2
    rw [List.length_cons, List.flatten_cons, List.append_assoc,
      show groups.length + 1 + rounds = groups.length + rounds + 1 by omega]
    rw [List.cons_append, extendPreamble, hat, hword, ← List.cons_append, hread]
    exact ih (p.annotate a)

/-- In front of a type, annotations are read one by one. -/
theorem readAnnotations_eq
    {src' : Source} (hsettings : src'.settings = src.settings)
    (h : AreAnnotations src groups annotations) (hts : atMark "(" ts = false) (rounds : Nat) :
    src'.readAnnotations (groups.length + rounds) (groups.flatten ++ ts) =
      src'.readAnnotations rounds ts >>= fun p => .ok (annotations ++ p.1, p.2) := by
  induction h with
  | nil =>
    rw [List.length_nil, Nat.zero_add]
    exact (bind_pure (src'.readAnnotations rounds ts)).symm
  | @cons g a groups annotations hfirst hothers ih =>
    have hread := readAnnotation_append hsettings hfirst.1 (not_open hothers hts)
    obtain ⟨t, u, us, rfl, hat⟩ := exists_of_readAnnotation hfirst.1
    have hmark : atMark "@" (t :: u :: us ++ (groups.flatten ++ ts)) = true := hat
    rw [List.length_cons, List.flatten_cons, List.append_assoc,
      show groups.length + 1 + rounds = groups.length + rounds + 1 by omega, readAnnotations, hmark,
      hread, ok_bind]
    simp only [ih, bind_assoc]
    rfl

/-- A type behind annotations. -/
theorem readType_eq
    {src' : Source} (hsettings : src'.settings = src.settings)
    (h : AreAnnotations src groups annotations) (hts : atMark "(" ts = false) :
    src'.readType (groups.flatten ++ ts) = src'.readAnnotations ts.length ts >>= fun p =>
      src'.readBare ts.length p.2 >>= fun q =>
        .ok (q.1.annotated src'.plainNullability (annotations ++ p.1), q.2) := by
  have hle := h.length_le
  have hlength : (groups.flatten ++ ts).length = groups.flatten.length + ts.length :=
    List.length_append
  obtain ⟨more, hmore⟩ := Nat.exists_eq_add_of_le (hle.trans (Nat.le_add_right _ ts.length))
  rw [readType, readTypeWithin_of_le le_rfl (Nat.le_succ _), readTypeWithin_succ, hlength, hmore,
    readAnnotations_eq hsettings h hts,
    readAnnotations_of_le (show ts.length ≤ more by omega) le_rfl]
  cases hread : src'.readAnnotations ts.length ts with
  | error fault => rfl
  | ok p =>
    obtain ⟨others, rest⟩ := p
    have hrest := (gives_annotations ts.length ts).length_le hread
    have hbare : src'.readBare (groups.length + more) rest = src'.readBare ts.length rest :=
      readBare_congr (fun us (hus : us.length ≤ ts.length) =>
        readTypeWithin_of_le (by omega) (by omega)) (by omega)
    simp only [ok_bind, hbare]

end AreAnnotations

/-- Keywords are taken over into the modifiers. -/
theorem extendPreamble_words
    {words : List Token}
    (h : ∀ t ∈ words, t.kind = .identifier ∧ Modifiers.isKeyword t.text = true) (rounds : Nat)
    (p : Preamble) (ts : List Token) :
    src.extendPreamble (words.length + rounds) p (words ++ ts) = src.extendPreamble rounds
      { p with modifiers := p.modifiers.withKeywords (words.map Token.text) } ts := by
  induction words generalizing p with
  | nil => rw [List.length_nil, Nat.zero_add]; rfl
  | cons t words ih =>
    obtain ⟨⟨hkind, hkeyword⟩, hothers⟩ := List.forall_mem_cons.mp h
    have hmark : t.isMark "@" = false := by simp [Token.isMark, hkind]
    rw [← p.modifiers.isSome_withKeyword?] at hkeyword
    obtain ⟨modifiers, hmodifiers⟩ := Option.isSome_iff_exists.mp hkeyword
    rw [List.length_cons, show words.length + 1 + rounds = words.length + rounds + 1 by omega,
      List.cons_append, extendPreamble, hmark, Bool.false_and, if_neg Bool.false_ne_true,
      if_pos hkind, hmodifiers]
    simp only [ih hothers, Modifiers.withKeywords, List.map_cons, List.foldl_cons, hmodifiers,
      Option.getD_some]

/-- A preamble ends in front of type variables. -/
theorem extendPreamble_of_angle
    {ts : List Token} (h : atMark "<" ts = true) (rounds : Nat) (p : Preamble) :
    src.extendPreamble rounds p ts = .ok (p, ts) := by
  cases ts with
  | nil => cases h
  | cons t ts =>
    cases rounds with
    | zero => rfl
    | succ rounds =>
      have hmark : t.isMark "@" = false := isMark_of_isMark h (by decide)
      have hkind : t.kind ≠ .identifier := by
        have hat : t.isMark "<" = true := h
        simp only [Token.isMark, Bool.and_eq_true, decide_eq_true_eq] at hat
        simp [hat.1]
      rw [extendPreamble, hmark, Bool.false_and, if_neg Bool.false_ne_true, if_neg hkind]

/-- What keywords alone say in front of a declaration. -/
def ofKeywords (words : List Token) : Preamble :=
  { modifiers := ({} : Modifiers).withKeywords (words.map Token.text) }

/-- Keywords, and type variables in their brackets. -/
structure IsHead (src : Source) (words list : List Token) (ps : List TypeParameter) : Prop where
  keywords : ∀ t ∈ words, t.kind = .identifier ∧ Modifiers.isKeyword t.text = true
  opens : atMark "<" list = true
  reads : (src.within (variablesAhead list)).readTypeParameters list = .ok (ps, [])

/-- Keywords and annotations in front of type variables. -/
theorem readPreamble_of_angle
    {words ts : List Token} {groups : List (List Token)} {annotations : List Annotation}
    (hwords : ∀ t ∈ words, t.kind = .identifier ∧ Modifiers.isKeyword t.text = true)
    (hgroups : AreAnnotations src groups annotations) (hts : atMark "<" ts = true) :
    src.readPreamble (words ++ (groups.flatten ++ ts)) =
      .ok (annotations.foldl Preamble.annotate (ofKeywords words), ts) := by
  have hle := hgroups.length_le
  have hopen : atMark "(" ts = false := by
    cases ts with
    | nil => rfl
    | cons t ts => exact isMark_of_isMark hts (by decide)
  obtain ⟨rounds, hrounds⟩ : ∃ rounds, (words ++ (groups.flatten ++ ts)).length =
      words.length + (groups.length + rounds) :=
    ⟨groups.flatten.length + ts.length - groups.length, by
      simp only [List.length_append]
      omega⟩
  rw [readPreamble, hrounds, extendPreamble_words hwords, hgroups.extendPreamble_eq hopen,
    extendPreamble_of_angle hts]
  rfl

/-- Type variables are read alike whatever stands behind them. -/
theorem readTypeParameters_append
    {ts others : List Token} {ps : List TypeParameter} (hat : atMark "<" ts = true)
    (h : src.readTypeParameters ts = .ok (ps, [])) :
    src.readTypeParameters (ts ++ others) = .ok (ps, others) := by
  have hcarries : Carries Eq others (fun _ => True) (src.readTypeParameters ts)
      (src.readTypeParameters (ts ++ others)) :=
    carries_typeParameters rfl rfl (Echoes.append_behind others ts) fun hnil =>
      absurd hnil (ne_nil_of_atMark hat)
  obtain ⟨rest, hrest, hechoes⟩ := hcarries ps [] h trivial
  rw [hrest, hechoes.eq_append]
  rfl

end Source

/-! ## The parts of a method -/

/-- The type of a member, where nullability declared in the preamble counts if none is known of the
type. -/
def Preamble.typeUnder (p : Preamble) (t : TypeRef) : TypeRef :=
  match nullnessOf p.annotations with
  | some nullability => if t.nullability.isKnown then t else t.withNullability nullability
  | none => t

/-- A method with what stands in front of its name. -/
def Preamble.complete (p : Preamble) (m : Method) (t : ReadType) : Method :=
  { m with
    modifiers := p.modifiers
    returnType := some (p.typeUnder t.type)
    annotations := withoutNullness p.annotations ++ t.annotations }

namespace Source

variable {src : Source}

/-- A method behind its type: its name, its parameters and what follows them. -/
def readMethodBehindType (src : Source) (c : ClassDecl) (typeParameters : List TypeParameter) :
    Reader Method := fun ts => do
  let (name, ts) ← src.expectName "method name" ts
  let (parameters, ts) ← src.readParameters ts
  let (throws, ts) ← src.readThrows ts
  let (defaultValue, ts) ← src.readMarkedValue (atWord "default" ts) [";"] ts
  let ts ← src.expectMark ";" ts
  return (
    { name, owner := c.qualifiedName, modifiers := {}, returnType := none, typeParameters
      parameters, throws, defaultValue }, ts)

theorem readMethod_eq (src : Source) (c : ClassDecl) (ts : List Token) :
    src.readMethod c ts = src.readPreamble ts >>= fun p =>
      (src.within (variablesAhead p.2)).readTypeParameters p.2 >>= fun q =>
        (src.within (variablesAhead p.2)).readType q.2 >>= fun t =>
          (src.within (variablesAhead p.2)).readMethodBehindType c q.1 t.2 >>= fun m =>
            .ok (p.1.complete m.1 t.1, m.2) := by
  simp only [readMethod, readMemberType, readMethodBehindType, bind_assoc, pure_bind]
  rfl

/-- What stands behind the type variables of a method: annotations, a type, and a method as far as
they leave it open. -/
def HasParts (src : Source) (c : ClassDecl) (ps : List TypeParameter) (ts : List Token)
    (annotations : List Annotation) (t : BareType) (m : Method) : Prop :=
  ∃ ts₁ ts₂ rest, src.readAnnotations ts.length ts = .ok (annotations, ts₁) ∧
    src.readBare ts.length ts₁ = .ok (t, ts₂) ∧ src.readMethodBehindType c ps ts₂ = .ok (m, rest)

theorem HasParts.unique
    {c : ClassDecl} {ps : List TypeParameter} {ts : List Token} {as bs : List Annotation}
    {t u : BareType} {m n : Method} (h : src.HasParts c ps ts as t m)
    (h' : src.HasParts c ps ts bs u n) : bs = as ∧ u = t ∧ n = m := by
  obtain ⟨ts₁, ts₂, rest, has, ht, hm⟩ := h
  obtain ⟨us₁, us₂, rest', hbs, hu, hn⟩ := h'
  cases has.symm.trans hbs
  cases ht.symm.trans hu
  cases hm.symm.trans hn
  exact ⟨rfl, rfl, rfl⟩

/-- A method with annotations both before and behind its type variables is made of its parts. -/
theorem exists_readMethod_iff
    {words list others : List Token} {before behind : List (List Token)}
    {as bs : List Annotation} {ps : List TypeParameter} (hhead : src.IsHead words list ps)
    (hbefore : AreAnnotations src before as) (hbehind : AreAnnotations src behind bs)
    (hothers : atMark "(" others = false) (c : ClassDecl) (m : Method) :
    (∃ rest, src.readMethod c
        (words ++ (before.flatten ++ (list ++ (behind.flatten ++ others)))) = .ok (m, rest)) ↔
      ∃ xs t s, (src.within (variablesAhead list)).HasParts c ps others xs t s ∧
        m = (as.foldl Preamble.annotate (ofKeywords words)).complete s
          (t.annotated src.plainNullability (bs ++ xs)) := by
  obtain ⟨hwords, hat, hlist⟩ := hhead
  have hangle : atMark "<" (list ++ (behind.flatten ++ others)) = true := by
    cases list with
    | nil => cases hat
    | cons t ts => exact hat
  have hsettings : (src.within (variablesAhead list)).settings = src.settings := rfl
  rw [readMethod_eq, readPreamble_of_angle hwords hbefore hangle, ok_bind]
  simp only [variablesAhead_append hat hlist, readTypeParameters_append hat hlist, ok_bind,
    hbehind.readType_eq hsettings hothers, bind_assoc]
  constructor
  · rintro ⟨rest, h⟩
    obtain ⟨⟨xs, ts₁⟩, hxs, h⟩ := bind_eq_ok.mp h
    obtain ⟨⟨t, ts₂⟩, ht, h⟩ := bind_eq_ok.mp h
    obtain ⟨⟨s, ts₃⟩, hs, h⟩ := bind_eq_ok.mp h
    cases h
    exact ⟨xs, t, s, ⟨ts₁, ts₂, ts₃, hxs, ht, hs⟩, rfl⟩
  · rintro ⟨xs, t, s, ⟨ts₁, ts₂, rest, hxs, ht, hs⟩, rfl⟩
    refine ⟨rest, ?_⟩
    rw [hxs, ok_bind, ht, ok_bind, hs, ok_bind]
    rfl

/-- The nullability that the type in front states of itself, by a mark behind it or by annotations
in front of it. -/
def statedNullability (src : Source) (ts : List Token) : Option Nullability :=
  match (do
    let (annotations, rest) ← src.readAnnotations ts.length ts
    let (t, _) ← src.readBare ts.length rest
    return t.stated annotations : Except Fault (Option Nullability)) with
  | .ok stated => stated
  | .error _ => none

theorem HasParts.statedNullability_eq
    {c : ClassDecl} {ps : List TypeParameter} {ts : List Token} {bs : List Annotation}
    {t : BareType} {m : Method} (h : src.HasParts c ps ts bs t m) :
    src.statedNullability ts = t.stated bs := by
  obtain ⟨ts₁, ts₂, rest, hbs, ht, -⟩ := h
  rw [statedNullability, hbs, ok_bind]
  simp only
  rw [ht]
  rfl

end Source

/-- The places of tokens make no difference. -/
theorem readMethod_iff_of_exactSigns
    {src : Source} {ts us : List Token} (h : us.map Token.exactSign = ts.map Token.exactSign)
    (c : ClassDecl) (finish : Token) (m : Method) :
    (∃ rest, src.readMethod c ts = .ok (m, rest)) ↔
      ∃ rest, (src.endingAt finish).readMethod c us = .ok (m, rest) := by
  have hcarries : ∀ {src : Source} (finish : Token) {ts us : List Token},
      us.map Token.exactSign = ts.map Token.exactSign →
      Carries (Alike fun _ => True) [] (fun _ => True) (src.readMethod c ts)
        ((src.endingAt finish).readMethod c us) := by
    intro src finish ts us h
    have hrenders := renders_exactSign us
    rw [h] at hrenders
    exact Source.carries_method finish (echoes_of_renders hrenders) (fun _ _ _ _ => trivial) c
  constructor
  · rintro ⟨rest, hm⟩
    obtain ⟨rest', hm', -⟩ := hcarries finish h m rest hm trivial
    exact ⟨rest', hm'⟩
  · rintro ⟨rest, hm⟩
    obtain ⟨rest', hm', -⟩ := hcarries src.finish h.symm m rest hm trivial
    exact ⟨rest', hm'⟩

/-! ## What annotations come to -/

theorem nullnessOf_of_append (as bs : List Annotation) :
    nullnessOf (as ++ bs) = (nullnessOf bs).or (nullnessOf as) := by
  rw [nullnessOf, List.filterMap_append, List.getLast?_append]
  rfl

theorem isKnown_of_nullnessOf
    {annotations : List Annotation} {n : Nullability} (h : nullnessOf annotations = some n) :
    n.isKnown = true := by
  obtain ⟨a, -, ha⟩ := List.mem_filterMap.mp (List.mem_of_getLast? h)
  unfold Annotation.nullness? at ha
  split at ha
  · cases ha
    rfl
  split at ha
  · cases ha
    rfl
  · cases ha

/-- Annotations come to the same nullability before and behind the type variables, given what a type
states of itself and what is plain.  Before them, annotations count where the type is unknown;
behind them, where the type states nothing. -/
def AgreesOnNull (annotations : List Annotation) (plain : Nullability)
    (stated : Option Nullability) : Prop :=
  nullnessOf annotations = none ∨ stated.any Nullability.isKnown = true ∨
    (stated = none ∧ (plain = .unknown ∨ nullnessOf annotations = some plain))

theorem type_annotated_eq_iff
    (t : BareType) (plain : Nullability) (as bs : List Annotation) (modifiers : Modifiers) :
    (t.annotated plain (as ++ bs)).type =
        Preamble.typeUnder ⟨as, modifiers⟩ (t.annotated plain bs).type ↔
      (t.type.isPrimitive || t.type.isWildcard) = true ∨ AgreesOnNull as plain (t.stated bs) := by
  have hstated : t.stated (as ++ bs) = (t.stated bs).or (nullnessOf as) := by
    rw [BareType.stated, nullnessOf_of_append, ← Option.or_assoc]
    rfl
  simp only [BareType.annotated, Preamble.typeUnder, hstated, AgreesOnNull]
  cases hn : nullnessOf as with
  | none => simp
  | some n =>
    have hknown := isKnown_of_nullnessOf hn
    by_cases hfixed : (t.type.isPrimitive || t.type.isWildcard) = true
    · have hkeeps : ∀ k, t.type.withNullability k = t.type := fun k => if_pos hfixed
      simp [hkeeps, hfixed]
    · have hsets : ∀ k, t.type.withNullability k = { t.type with nullability := k } :=
        fun k => if_neg hfixed
      have hresets : ∀ k l, ({ t.type with nullability := k } : TypeRef).withNullability l =
          { t.type with nullability := l } := fun k l => if_neg hfixed
      have hinj : ∀ k l, ({ t.type with nullability := k } : TypeRef) =
          { t.type with nullability := l } ↔ k = l := fun k l => by simp
      simp only [hsets, hresets, ← apply_ite (fun k =>
        ({ t.type with nullability := k } : TypeRef)),
        hinj, hfixed]
      -- What is left is a comparison of the two nullabilities.
      cases t.stated bs with
      | none => cases plain <;> cases n <;> simp_all [Nullability.isKnown]
      | some k => cases k <;> cases n <;> simp_all [Nullability.isKnown]

theorem annotations_foldl_annotate (annotations : List Annotation) (p : Preamble) :
    (annotations.foldl Preamble.annotate p).annotations =
      p.annotations ++ annotations.filter fun a => !a.isDeprecated := by
  induction annotations generalizing p with
  | nil => simp
  | cons a as ih =>
    rw [List.foldl_cons, ih, Preamble.annotate]
    cases ha : a.isDeprecated with
    | true => simp [ha]
    | false => simp [ha]

theorem nullness?_of_isDeprecated {a : Annotation} (h : a.isDeprecated = true) :
    a.nullness? = none := by
  have hname : a.name = "java.lang.Deprecated" ∨ a.name = "Deprecated" := by
    unfold Annotation.isDeprecated Annotation.deprecatedNames at h
    simpa using h
  unfold Annotation.nullness?
  rcases hname with hname | hname
  · rw [hname]
    decide
  · rw [hname]
    decide

/-- An annotation that deprecates is kept with the method only behind the type variables. -/
theorem complete_eq_iff
    (m : Method) (t : BareType) (plain : Nullability) (as bs : List Annotation)
    (modifiers : Modifiers) :
    Preamble.complete { modifiers } m (t.annotated plain (as ++ bs)) =
        (as.foldl Preamble.annotate { modifiers }).complete m (t.annotated plain bs) ↔
      (∀ a ∈ as, a.isDeprecated = false) ∧
        ((t.type.isPrimitive || t.type.isWildcard) = true ∨
          AgreesOnNull as plain (t.stated bs)) := by
  have hboth : ∀ as, withoutNullness (as ++ bs) = withoutNullness as ++ withoutNullness bs :=
    fun as => List.filter_append ..
  by_cases hnone : ∀ a ∈ as, a.isDeprecated = false
  · rw [foldl_annotate hnone, ← type_annotated_eq_iff t plain as bs modifiers]
    refine ⟨fun h => ⟨hnone, Option.some.inj (congrArg Method.returnType h)⟩, fun h => ?_⟩
    have htype : Preamble.typeUnder { modifiers } (t.annotated plain (as ++ bs)).type = _ := h.2
    rw [Preamble.complete, Preamble.complete, htype]
    simp only [BareType.annotated, hboth]
    rfl
  · refine iff_of_false (fun h => hnone fun a ha => ?_) fun h => hnone h.1
    have hannotations := congrArg Method.annotations h
    simp only [Preamble.complete, BareType.annotated, hboth, annotations_foldl_annotate]
      at hannotations
    have hsame : withoutNullness as = withoutNullness (as.filter fun a => !a.isDeprecated) := by
      simpa [withoutNullness] using hannotations
    cases hdeprecated : a.isDeprecated with
    | false => rfl
    | true =>
      have hmem : a ∈ withoutNullness as :=
        List.mem_filter.mpr ⟨ha, by rw [nullness?_of_isDeprecated hdeprecated]; rfl⟩
      rw [hsame] at hmem
      simpa [hdeprecated] using (List.mem_filter.mp (List.mem_filter.mp hmem).1).2

/-- What is set about null does not make a type a primitive or a wildcard. -/
theorem isFixed_withNullability (t : TypeRef) (n : Nullability) :
    ((t.withNullability n).isPrimitive || (t.withNullability n).isWildcard) =
      (t.isPrimitive || t.isWildcard) := by
  rw [TypeRef.withNullability]
  split <;> rfl

theorem isFixed_typeUnder (p : Preamble) (t : TypeRef) :
    ((p.typeUnder t).isPrimitive || (p.typeUnder t).isWildcard) =
      (t.isPrimitive || t.isWildcard) := by
  rw [Preamble.typeUnder]
  split
  · split
    · rfl
    · exact isFixed_withNullability t _
  · rfl

/-- A method is read with its annotations before the type variables if and only if it is read with
them behind.  Both methods are the same exactly if no annotation deprecates and, unless the type of
the result is a primitive or a wildcard, the annotations agree on null. -/
theorem readMethod_moved_eq_iff
    {src : Source} {words list others ts us : List Token} {groups : List (List Token)}
    {annotations : List Annotation} {ps : List TypeParameter} (c : ClassDecl) (finish : Token)
    (hhead : src.IsHead words list ps) (hgroups : src.AreAnnotations groups annotations)
    (hothers : atMark "(" others = false)
    (hts : ts.map Token.exactSign =
      (words ++ (groups.flatten ++ (list ++ others))).map Token.exactSign)
    (hus : us.map Token.exactSign =
      (words ++ (list ++ (groups.flatten ++ others))).map Token.exactSign) :
    ((∃ m rest, src.readMethod c ts = .ok (m, rest)) ↔
        ∃ m rest, (src.endingAt finish).readMethod c us = .ok (m, rest)) ∧
      ∀ m rest m' rest', src.readMethod c ts = .ok (m, rest) →
        (src.endingAt finish).readMethod c us = .ok (m', rest') →
        (m' = m ↔ (∀ a ∈ annotations, a.isDeprecated = false) ∧
          ((m.returnType.any fun t => t.isPrimitive || t.isWildcard) = true ∨
            AgreesOnNull annotations src.plainNullability
              ((src.within (Source.variablesAhead list)).statedNullability others))) := by
  have hbefore : ∀ m, (∃ rest, src.readMethod c ts = .ok (m, rest)) ↔ _ := fun m =>
    (readMethod_iff_of_exactSigns hts c src.finish m).symm.trans
      (Source.exists_readMethod_iff hhead hgroups .nil hothers c m)
  have hbehind : ∀ m, (∃ rest, (src.endingAt finish).readMethod c us = .ok (m, rest)) ↔ _ :=
    fun m =>
    (readMethod_iff_of_exactSigns hus c finish m).symm.trans
      (Source.exists_readMethod_iff hhead .nil hgroups hothers c m)
  refine ⟨?_, fun m rest m' rest' hm hm' => ?_⟩
  · simp only [hbefore, hbehind]
    constructor
    · rintro ⟨m, bs, t, s, hparts, -⟩
      exact ⟨_, bs, t, s, hparts, rfl⟩
    · rintro ⟨m, bs, t, s, hparts, -⟩
      exact ⟨_, bs, t, s, hparts, rfl⟩
  · obtain ⟨bs, t, s, hparts, rfl⟩ := (hbefore m).mp ⟨rest, hm⟩
    obtain ⟨bs', t', s', hparts', rfl⟩ := (hbehind m').mp ⟨rest', hm'⟩
    obtain ⟨rfl, rfl, rfl⟩ := hparts.unique hparts'
    have hfixed : ∀ p : Preamble,
        ((p.complete s' (t'.annotated src.plainNullability bs')).returnType.any
          fun t => t.isPrimitive || t.isWildcard) = (t'.type.isPrimitive || t'.type.isWildcard) :=
      fun p => (isFixed_typeUnder p _).trans (isFixed_withNullability _ _)
    rw [hparts.statedNullability_eq, List.nil_append, hfixed]
    exact complete_eq_iff s' t' src.plainNullability annotations bs' _

/-- Texts with an annotation before and behind the type variables of a method. -/
def leverTexts (mark : String) : String × String :=
  ("package a \x7b class Lever \x7b method " ++ mark ++ " <T> b.Arm pull(); \x7d\x7d",
    "package a \x7b class Lever \x7b method <T> " ++ mark ++ " b.Arm pull(); \x7d\x7d")

def methodsOf (options : ReadOptions) (text : String) : List Method :=
  match read options text with
  | .ok cb => cb.classes.items.flatMap ClassDecl.methods
  | .error _ => []

/-- Behind the type variables, an annotation that deprecates is kept as an annotation.  Before them,
where types are nonnull unless they say otherwise, an annotation on null comes too late. -/
theorem leverTexts_differ :
    (methodsOf {} (leverTexts "@Deprecated").1).map
        (fun m => (m.modifiers.isDeprecated, m.annotations)) = [(true, [])] ∧
      (methodsOf {} (leverTexts "@Deprecated").2).map
        (fun m => (m.modifiers.isDeprecated, m.annotations)) =
          [(false, [{ name := "Deprecated" }])] ∧
      (methodsOf { format := some .v3 } (leverTexts "@Nullable").1).map
        (fun m => m.returnType.map TypeRef.nullability) = [some .nonNull] ∧
      (methodsOf { format := some .v3 } (leverTexts "@Nullable").2).map
        (fun m => m.returnType.map TypeRef.nullability) = [some .nullable] := by
  decide +kernel

def tokensOf (text : String) : List Token :=
  match scan "" text with
  | .ok s => s.tokens
  | .error _ => []

def leverSource : Source :=
  { settings := { format := .v3, kotlinNulls := true, common := none, file := "" }
    finish := { kind := .endOfFile, text := "", blank := "", lexeme := "", start := {} } }

/-- A method with annotations before its type variables, and the same with them behind. -/
def leverTokens : List Token × List Token :=
  (tokensOf "public @c.Oiled(2) @NonNull <T extends b.Arm<T>[]> T pull(T = t(1 , 2));",
    tokensOf "public <T extends b.Arm<T>[]> @c.Oiled(2) @NonNull T pull(T = t(1 , 2));")

/-- Annotations with an argument and on null, which agree with what is plain. -/
theorem readMethod_leverTokens :
    ∃ m rest rest',
      leverSource.readMethod (ClassDecl.declare "a" "Lever" .ordinary) leverTokens.1 =
          .ok (m, rest) ∧
        leverSource.readMethod (ClassDecl.declare "a" "Lever" .ordinary) leverTokens.2 =
          .ok (m, rest') := by
  have hhead : leverSource.IsHead (tokensOf "public") (tokensOf " <T extends b.Arm<T>[]>")
      [{ name := "T", bounds := [
        { name := "b.Arm", arguments := [{ name := "T", nullability := .nonNull }]
          dimensions := 1, nullability := .nonNull }] }] :=
    ⟨by decide +kernel, by decide +kernel, by decide +kernel⟩
  have hgroups : leverSource.AreAnnotations [tokensOf " @c.Oiled(2)", tokensOf " @NonNull"]
      [{ name := "c.Oiled", attributes := [("value", .literal (.number "2"))] },
        { name := "NonNull" }] :=
    .cons (by decide +kernel) (.cons (by decide +kernel) .nil)
  have hothers : atMark "(" (tokensOf " T pull(T = t(1 , 2));") = false := by decide +kernel
  obtain ⟨hboth, hsame⟩ := readMethod_moved_eq_iff (ClassDecl.declare "a" "Lever" .ordinary)
    leverSource.finish hhead hgroups hothers
    (show leverTokens.1.map Token.exactSign = _ by decide +kernel)
    (show leverTokens.2.map Token.exactSign = _ by decide +kernel)
  have hok : (leverSource.readMethod (ClassDecl.declare "a" "Lever" .ordinary)
      leverTokens.1).isOk = true := by
    decide +kernel
  cases hm : leverSource.readMethod (ClassDecl.declare "a" "Lever" .ordinary) leverTokens.1 with
  | error fault =>
    rw [hm] at hok
    cases hok
  | ok p =>
    obtain ⟨m', rest', hm'⟩ := hboth.mp ⟨p.1, p.2, hm⟩
    have heq := (hsame p.1 p.2 m' rest' hm hm').mpr
      ⟨by decide +kernel, .inr (.inr (.inr ⟨by decide +kernel, .inr (by decide +kernel)⟩))⟩
    exact ⟨p.1, p.2, rest', rfl, heq ▸ hm'⟩

end Signature
end ApiSurface
