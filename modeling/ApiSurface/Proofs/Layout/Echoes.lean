import ApiSurface.Proofs.Reading.Annotation
import ApiSurface.Proofs.RoundTrip.TypeRef
import ApiSurface.Signature.Reader.TypeParameter

/-!
# Readers on tokens that say the same

Readers of annotations and types look at the kind and the text of tokens only, never at the
places of tokens or at the blanks between them.  They also look ahead by no more than two
tokens, so that it matters little what stands behind the tokens that they take.  Both are said
at once: what a reader gives for some tokens it also gives for tokens that say the same and go
on with others, provided that the others cannot be taken for a continuation of what was read.
-/

namespace ApiSurface
namespace Signature

open Annotation (Value)

/-- The second tokens say what the first say, and go on with the tokens behind.  The relation tells
what else corresponding tokens have in common. -/
inductive Echoes (common : Token → Token → Prop) (behind : List Token) :
    List Token → List Token → Prop where
  | nil : Echoes common behind [] behind
  | cons {t u : Token} {ts us : List Token} (kind : t.kind = u.kind) (text : t.text = u.text)
      (also : common t u) (others : Echoes common behind ts us) :
      Echoes common behind (t :: ts) (u :: us)

namespace Echoes

variable {common : Token → Token → Prop} {behind ts us : List Token}

theorem length_le (h : Echoes common behind ts us) : ts.length ≤ us.length := by
  induction h with
  | nil => exact Nat.zero_le _
  | cons _ _ _ _ ih => exact Nat.succ_le_succ ih

theorem length_eq (h : Echoes common [] ts us) : ts.length = us.length := by
  induction h with
  | nil => rfl
  | cons _ _ _ _ ih => exact congrArg Nat.succ ih

theorem append_behind (behind ts : List Token) : Echoes Eq behind ts (ts ++ behind) := by
  induction ts with
  | nil => exact .nil
  | cons t ts ih => exact .cons rfl rfl rfl ih

theorem eq_append (h : Echoes Eq behind ts us) : us = ts ++ behind := by
  induction h with
  | nil => rfl
  | cons _ _ also _ ih => rw [← also, ih, List.cons_append]

theorem tail (h : Echoes common behind ts us) (hne : ts ≠ []) :
    Echoes common behind ts.tail us.tail := by
  cases h with
  | nil => exact absurd rfl hne
  | cons _ _ _ others => exact others

/-- Nothing is left of no tokens if nothing stands behind them. -/
theorem tail_to_end (h : Echoes common [] ts us) : Echoes common [] ts.tail us.tail := by
  cases h with
  | nil => exact .nil
  | cons _ _ _ others => exact others

/-- What is seen of the first token is seen of the token that says the same, and nothing is seen
of the tokens behind. -/
theorem any_eq
    (h : Echoes common behind ts us) {fits : Token → Bool}
    (hfits : ∀ t u : Token, t.kind = u.kind → t.text = u.text → fits u = fits t)
    (hbehind : ts = [] → behind.head?.any fits = false) :
    us.head?.any fits = ts.head?.any fits := by
  cases h with
  | nil => exact hbehind rfl
  | cons kind text _ _ => exact hfits _ _ kind text

theorem atMark_eq
    (h : Echoes common behind ts us) {mark : String}
    (hbehind : ts = [] → atMark mark behind = false) :
    atMark mark us = atMark mark ts :=
  h.any_eq (fun t u hkind htext => by simp only [Token.isMark, hkind, htext]) hbehind

theorem atWord_eq
    (h : Echoes common behind ts us) {word : String}
    (hbehind : ts = [] → atWord word behind = false) :
    atWord word us = atWord word ts :=
  h.any_eq (fun t u hkind htext => by simp only [Token.isWord, hkind, htext]) hbehind

theorem atName_eq
    (h : Echoes common behind ts us) (hbehind : ts = [] → atName behind = false) :
    atName us = atName ts :=
  h.any_eq (fun t u hkind _ => by simp only [hkind]) hbehind

end Echoes

theorem ne_nil_of_atMark {mark : String} {ts : List Token} (h : atMark mark ts = true) :
    ts ≠ [] := by
  rintro rfl
  cases h

theorem ne_nil_of_atWord {word : String} {ts : List Token} (h : atWord word ts = true) :
    ts ≠ [] := by
  rintro rfl
  cases h

/-! ## Outcomes -/

/-- What comes of the first, with what is left having the given property, comes of the second, with
what is left saying the same. -/
def Carries
    {α : Type} (common : Token → Token → Prop) (behind : List Token) (left : List Token → Prop)
    (outcome outcome' : Except Fault (α × List Token)) : Prop :=
  ∀ x rest, outcome = .ok (x, rest) → left rest →
    ∃ rest', outcome' = .ok (x, rest') ∧ Echoes common behind rest rest'

/-- What the first reader gives, the second gives for tokens that say the same. -/
def Repeats
    {α : Type} (common : Token → Token → Prop) (behind : List Token) (left : List Token → Prop)
    (r r' : Reader α) : Prop :=
  ∀ {ts us : List Token}, Echoes common behind ts us → Carries common behind left (r ts) (r' us)

section Carries

variable {α β : Type} {common : Token → Token → Prop} {behind : List Token}
  {left left' : List Token → Prop} {outcome outcome' : Except Fault (α × List Token)}

theorem Carries.mono
    (h : Carries common behind left outcome outcome') (hleft : ∀ rest, left' rest → left rest) :
    Carries common behind left' outcome outcome' :=
  fun x rest hx hrest => h x rest hx (hleft rest hrest)

theorem Repeats.mono
    {r r' : Reader α} (h : Repeats common behind left r r')
    (hleft : ∀ rest, left' rest → left rest) : Repeats common behind left' r r' :=
  fun hts => (h hts).mono hleft

/-- Whatever follows from the outcome may be assumed. -/
theorem Carries.assuming
    {P : Prop} (hP : ∀ x rest, outcome = .ok (x, rest) → left rest → P)
    (h : P → Carries common behind left outcome outcome') :
    Carries common behind left outcome outcome' :=
  fun x rest hx hrest => h (hP x rest hx hrest) x rest hx hrest

theorem carries_ok (x : α) {rest rest' : List Token} (hrest : Echoes common behind rest rest') :
    Carries common behind left (.ok (x, rest)) (.ok (x, rest')) := by
  intro y others hy _
  cases hy
  exact ⟨rest', rfl, hrest⟩

theorem carries_error (fault : Fault) : Carries common behind left (.error fault) outcome' := by
  intro x rest hx
  cases hx

/-- A step after which more is read; the property must hold of what is left in between. -/
theorem Carries.bind
    {next next' : α × List Token → Except Fault (β × List Token)}
    (h : Carries common behind left outcome outcome')
    (hleft : ∀ x rest y others, next (x, rest) = .ok (y, others) → left' others → left rest)
    (hnext : ∀ x rest rest', outcome = .ok (x, rest) → outcome' = .ok (x, rest') → left rest →
      Echoes common behind rest rest' →
      Carries common behind left' (next (x, rest)) (next' (x, rest'))) :
    Carries common behind left' (outcome >>= next) (outcome' >>= next') := by
  intro y others hy hothers
  obtain ⟨⟨x, rest⟩, hx, hy⟩ := bind_eq_ok.mp hy
  have hrest := hleft x rest y others hy hothers
  obtain ⟨rest', hx', hechoes⟩ := h x rest hx hrest
  rw [hx', ok_bind]
  exact hnext x rest rest' hx hx' hrest hechoes y others hy hothers

/-- A step that no property of what is left in between matters to. -/
theorem Carries.andThen
    {next next' : α × List Token → Except Fault (β × List Token)}
    (h : Carries common behind (fun _ => True) outcome outcome')
    (hnext : ∀ x rest rest', Echoes common behind rest rest' →
      Carries common behind left' (next (x, rest)) (next' (x, rest'))) :
    Carries common behind left' (outcome >>= next) (outcome' >>= next') :=
  h.bind (fun _ _ _ _ _ _ => trivial) fun x rest rest' _ _ _ => hnext x rest rest'

/-- A step that only changes what was read. -/
theorem Carries.bind_pure
    {next next' : α × List Token → Except Fault (β × List Token)} {g : α → β}
    (h : Carries common behind left outcome outcome')
    (hnext : ∀ x rest, next (x, rest) = .ok (g x, rest))
    (hnext' : ∀ x rest, next' (x, rest) = .ok (g x, rest)) :
    Carries common behind left (outcome >>= next) (outcome' >>= next') := by
  refine h.bind (fun x rest y others hy hothers => ?_) fun x rest rest' _ _ _ hrest => ?_
  · rw [hnext] at hy
    cases hy
    exact hothers
  · rw [hnext, hnext']
    exact carries_ok (g x) hrest

theorem Carries.ite
    {c c' : Bool} {yes yes' no no' : Except Fault (α × List Token)} (hc : c' = c)
    (hyes : c = true → Carries common behind left yes yes')
    (hno : c = false → Carries common behind left no no') :
    Carries common behind left (if c = true then yes else no)
      (if c' = true then yes' else no') := by
  subst hc
  cases hc : c' with
  | true => exact hyes hc
  | false => exact hno hc

end Carries

/-- An annotation in front of the tokens that are left is not continued by the tokens behind. -/
def Unopened (behind rest : List Token) : Prop :=
  rest = [] → atMark "(" behind = false

theorem unopened_of_ne_nil {behind rest : List Token} (h : rest ≠ []) : Unopened behind rest :=
  fun hnil => absurd hnil h

namespace Source

variable {α β : Type} {common : Token → Token → Prop} {behind : List Token}
  {left : List Token → Prop} {src src' : Source}

/-! ## Marks, names and lists -/

theorem carries_expectMark
    {mark : String} {ts us : List Token} (hts : Echoes common behind ts us)
    {next next' : List Token → Except Fault (β × List Token)}
    (hnext : atMark mark ts = true → Echoes common behind ts.tail us.tail →
      Carries common behind left (next ts.tail) (next' us.tail)) :
    Carries common behind left (src.expectMark mark ts >>= next)
      (src'.expectMark mark us >>= next') := by
  cases hat : atMark mark ts with
  | true =>
    have hne := ne_nil_of_atMark hat
    have hat' : atMark mark us = true := (hts.atMark_eq fun hnil => absurd hnil hne).trans hat
    rw [expectMark, expectMark, if_pos hat, if_pos hat']
    exact hnext hat (hts.tail hne)
  | false =>
    rw [expectMark, if_neg (by simp [hat])]
    exact carries_error _

theorem repeats_expectName (what : String) :
    Repeats common behind left (src.expectName what) (src'.expectName what) := by
  intro ts us hts
  cases hts with
  | nil => exact carries_error _
  | @cons t u ts us kind text _ others =>
    rw [expectName, expectName, ← kind, ← text]
    by_cases hkind : t.kind = .identifier
    · rw [if_pos hkind, if_pos hkind]
      exact carries_ok _ others
    · rw [if_neg hkind]
      exact carries_error _

theorem atMark_of_expectMark
    {mark : String} {ts rest : List Token} (h : src.expectMark mark ts = .ok rest) :
    atMark mark ts = true := by
  obtain ⟨t, rfl, ht⟩ := exists_of_expectMark h
  exact ht

/-- A list ends with its closing mark, whatever stands behind it. -/
theorem repeats_list
    {item item' : Reader α} (hitem : Repeats common behind (fun rest => rest ≠ []) item item')
    (close : String) {rounds rounds' : Nat} (hrounds : rounds ≤ rounds') :
    Repeats common behind left (src.readList item close rounds)
      (src'.readList item' close rounds') := by
  induction rounds generalizing rounds' left with
  | zero => exact fun _ => carries_error _
  | succ rounds ih =>
    obtain ⟨more, rfl⟩ := Nat.exists_eq_add_of_le hrounds
    rw [show rounds + 1 + more = rounds + more + 1 by omega]
    intro ts us hts
    refine (hitem hts).bind (fun x ts xs rest h _ => ?_) fun x ts us _ _ hne hts => ?_
    · simp only at h
      split at h
      · rename_i hclose
        exact ne_nil_of_atMark hclose
      · obtain ⟨_, hcomma, -⟩ := bind_eq_ok.mp h
        exact ne_nil_of_atMark (atMark_of_expectMark hcomma)
    · refine .ite (hts.atMark_eq fun hnil => absurd hnil hne)
        (fun _ => carries_ok _ (hts.tail hne)) fun _ => ?_
      refine carries_expectMark hts fun _ hts => ?_
      exact (ih (Nat.le_add_right _ _) hts).bind_pure (fun _ _ => rfl) fun _ _ => rfl

/-! ## Annotations -/

theorem repeats_attribute
    {value value' : Reader Value} (hvalue : Repeats common behind left value value') :
    Repeats common behind left (src.readAttribute value)
      (src'.readAttribute value') := by
  intro ts us hts
  refine (repeats_expectName _ hts).andThen fun name ts us hts => ?_
  refine carries_expectMark hts fun _ hts => ?_
  exact (hvalue hts).bind_pure (fun _ _ => rfl) fun _ _ => rfl

/-- Arguments are either none at all or at least two tokens behind the parenthesis. -/
theorem tail_ne_nil_of_readAttributes
    {value : Reader Value}
    (hshrinks : ∀ ts v rest, value ts = .ok (v, rest) → rest.length < ts.length)
    {ts rest : List Token} {as : List (String × Value)}
    (h : src.readAttributes value ts = .ok (as, rest)) (hopen : atMark "(" ts = true) :
    ts.tail ≠ [] ∧ (atMark ")" ts.tail = false → ts.tail.tail ≠ []) := by
  rw [readAttributes, hopen] at h
  simp only [Bool.not_true, Bool.false_eq_true, if_false] at h
  split at h
  · rename_i hclose
    exact ⟨ne_nil_of_atMark hclose, fun hfalse => absurd (hclose.symm.trans hfalse) (by decide)⟩
  split at h
  · rename_i hnamed
    have hne := ne_nil_of_atMark (Bool.and_eq_true_iff.mp hnamed).2
    exact ⟨fun hnil => hne (by rw [hnil]; rfl), fun _ => hne⟩
  · obtain ⟨⟨v, ts₁⟩, hv, h⟩ := bind_eq_ok.mp h
    obtain ⟨ts₂, hclose, -⟩ := bind_eq_ok.mp h
    have hlt := hshrinks _ v ts₁ hv
    have hpos : 0 < ts₁.length :=
      List.length_pos_iff.mpr (ne_nil_of_atMark (atMark_of_expectMark hclose))
    refine ⟨List.length_pos_iff.mp (by omega), fun _ => List.length_pos_iff.mp ?_⟩
    rw [List.length_tail]
    omega

/-- Arguments end with their parenthesis; without any, no parenthesis follows. -/
theorem repeats_attributes
    {value value' : Reader Value}
    (hshrinks : ∀ ts v rest, value ts = .ok (v, rest) → rest.length < ts.length)
    (hvalue : Repeats common behind (fun rest => rest ≠ []) value value') :
    Repeats common behind (Unopened behind) (src.readAttributes value)
      (src'.readAttributes value') := by
  intro ts us hts
  refine .assuming (P := (ts = [] → atMark "(" behind = false) ∧ (atMark "(" ts = true →
    ts.tail ≠ [] ∧ (atMark ")" ts.tail = false → ts.tail.tail ≠ []))) (fun as rest h hleft => ?_) ?_
  · refine ⟨?_, tail_ne_nil_of_readAttributes hshrinks h⟩
    rintro rfl
    cases h
    exact hleft rfl
  rintro ⟨hnil, hlong⟩
  rw [readAttributes, readAttributes]
  refine .ite (congrArg _ (hts.atMark_eq hnil)) (fun _ => carries_ok _ hts) fun hopen => ?_
  have hopen : atMark "(" ts = true := by simpa using hopen
  obtain ⟨hne₁, hlong⟩ := hlong hopen
  have hinside := hts.tail (ne_nil_of_atMark hopen)
  refine .ite (hinside.atMark_eq fun h => absurd h hne₁)
    (fun _ => carries_ok _ (hinside.tail hne₁)) fun hclose => ?_
  have hname := hinside.atName_eq fun h => absurd h hne₁
  have hequals : atMark "=" us.tail.tail = atMark "=" ts.tail.tail :=
    (hinside.tail hne₁).atMark_eq fun h => absurd h (hlong hclose)
  refine .ite (congr_arg₂ _ hname hequals) (fun _ => ?_) fun _ => ?_
  · exact repeats_list (repeats_attribute hvalue) _ hts.length_le hinside
  · refine (hvalue hinside).bind (fun v ts₁ as rest h _ => ?_) fun v ts us _ _ _ hts => ?_
    · obtain ⟨_, hclose, -⟩ := bind_eq_ok.mp h
      exact ne_nil_of_atMark (atMark_of_expectMark hclose)
    · exact carries_expectMark hts fun _ hts => carries_ok _ hts

theorem repeats_annotationWith
    (hsettings : src'.settings = src.settings) {value value' : Reader Value}
    (hshrinks : ∀ ts v rest, value ts = .ok (v, rest) → rest.length < ts.length)
    (hvalue : Repeats common behind (fun rest => rest ≠ []) value value') :
    Repeats common behind (Unopened behind) (src.readAnnotationWith value)
      (src'.readAnnotationWith value') := by
  intro ts us hts
  refine carries_expectMark hts fun _ hts => ?_
  refine (repeats_expectName _ hts).andThen fun name ts us hts => ?_
  refine (repeats_attributes hshrinks hvalue hts).bind_pure (fun _ _ => rfl) fun attributes _ => ?_
  simp only [annotationName, hsettings]
  rfl

/-- Values nest as deep as the first reader admits. -/
theorem repeats_value
    (hsettings : src'.settings = src.settings) {depth depth' : Nat} (hdepth : depth ≤ depth') :
    Repeats common behind (Unopened behind) (src.readValue depth) (src'.readValue depth') := by
  induction depth generalizing depth' with
  | zero => exact fun _ => carries_error _
  | succ depth ih =>
    obtain ⟨more, rfl⟩ := Nat.exists_eq_add_of_le hdepth
    rw [show depth + 1 + more = depth + more + 1 by omega]
    have hvalue : Repeats common behind (fun rest => rest ≠ []) (src.readValue depth)
        (src'.readValue (depth + more)) :=
      Repeats.mono (ih (Nat.le_add_right _ _)) fun _ => unopened_of_ne_nil
    intro ts us hts
    cases hts with
    | nil => exact carries_error _
    | @cons t u ts us kind text also others =>
      rw [readValue, readValue, ← kind, ← text]
      cases hkind : t.kind with
      | string => exact carries_ok _ others
      | character => exact carries_ok _ others
      | number => exact carries_ok _ others
      | identifier => exact carries_ok _ others
      | endOfFile => exact carries_error _
      | punctuation =>
        simp only
        split
        · refine .assuming (P := ts ≠ []) (fun v rest h _ => ?_) fun hne => ?_
          · rintro rfl
            cases depth <;> cases h
          refine .ite (others.atMark_eq fun hnil => absurd hnil hne)
            (fun _ => carries_ok _ (others.tail hne)) fun _ => ?_
          exact (repeats_list hvalue _ (Nat.succ_le_succ others.length_le) others).bind_pure
            (fun _ _ => rfl) fun _ _ => rfl
        split
        · have hannotation := repeats_annotationWith hsettings
            (fun ts _ _ => (yields_value _ ts).length_lt) hvalue (.cons kind text also others)
          exact hannotation.bind_pure (g := fun a => .nested a.name a.attributes)
            (fun _ _ => rfl) fun _ _ => rfl
        · exact carries_error _

theorem annotation_repeats (hsettings : src'.settings = src.settings) :
    Repeats common behind (Unopened behind) src.readAnnotation src'.readAnnotation := by
  intro ts us hts
  have hvalue : Repeats common behind (fun rest => rest ≠ []) (src.readValue ts.length)
      (src'.readValue us.length) :=
    Repeats.mono (repeats_value hsettings hts.length_le) fun _ => unopened_of_ne_nil
  exact repeats_annotationWith hsettings (fun ts _ _ => (yields_value _ ts).length_lt) hvalue hts

/-- Annotations in front of something. -/
theorem carries_annotations
    (hsettings : src'.settings = src.settings) {ts us : List Token}
    (hts : Echoes common behind ts us)
    {rounds rounds' : Nat} (hrounds : ts.length ≤ rounds) (hrounds' : us.length ≤ rounds') :
    Carries common behind (fun rest => rest ≠ []) (src.readAnnotations rounds ts)
      (src'.readAnnotations rounds' us) := by
  induction rounds generalizing ts us rounds' with
  | zero =>
    intro as rest h hne
    cases h
    exact absurd (List.length_eq_zero_iff.mp (Nat.le_zero.mp hrounds)) hne
  | succ rounds ih =>
    refine .assuming (P := ts ≠ []) (fun as rest h hne => ?_) fun hne => ?_
    · rintro rfl
      cases h
      exact hne rfl
    have hpos : 0 < us.length := (List.length_pos_iff.mpr hne).trans_le hts.length_le
    obtain ⟨rounds', rfl⟩ := Nat.exists_eq_succ_of_ne_zero (show rounds' ≠ 0 by omega)
    rw [readAnnotations, readAnnotations]
    refine .ite (congrArg _ (hts.atMark_eq fun hnil => absurd hnil hne))
      (fun _ => carries_ok _ hts) fun _ => ?_
    refine (annotation_repeats hsettings hts).bind (fun a ts₁ as rest h hrest => ?_)
      fun a ts₁ us₁ ha ha' _ hts₁ => ?_
    · refine unopened_of_ne_nil ?_
      rintro rfl
      cases rounds <;> cases h <;> exact hrest rfl
    · have hlt := (gives_annotationAt ts).length_lt ha
      have hlt' := (gives_annotationAt us).length_lt ha'
      exact (ih hts₁ (by omega) (by omega)).bind_pure (fun _ _ => rfl) fun _ _ => rfl

/-! ## Types -/

/-- A type in front of the tokens that are left is not continued by the tokens behind. -/
def Unextended (behind rest : List Token) : Prop :=
  rest = [] ∨ atMark "[" rest = true → behind = []

theorem unextended_of_atMark
    {mark : String} {rest : List Token} (h : atMark mark rest = true) (hmark : mark ≠ "[") :
    Unextended behind rest := by
  rintro (hnil | hbracket)
  · exact absurd hnil (ne_nil_of_atMark h)
  · cases rest with
    | nil => cases h
    | cons t rest =>
      simp only [atMark, List.head?_cons, Option.any_some, Token.isMark, Bool.and_eq_true,
        decide_eq_true_eq] at h hbracket
      exact absurd (h.2.symm.trans hbracket.2) hmark

/-- Nothing is seen at the end of the tokens if nothing stands behind them. -/
theorem unseen
    {ts : List Token} (h : ts = [] → behind = []) (fits : Token → Bool) :
    ts = [] → behind.head?.any fits = false := by
  intro hnil
  rw [h hnil]
  rfl

theorem repeats_bound
    {type type' : Reader ReadType} (htype : Repeats common behind (Unextended behind) type type') :
    Repeats common behind (Unextended behind) (readBound type) (readBound type') := by
  intro ts us hts
  refine .assuming (P := ts = [] → behind = []) (fun bound rest h hleft => ?_) fun hnil => ?_
  · rintro rfl
    cases h
    exact hleft (.inl rfl)
  refine .ite (hts.atWord_eq (unseen hnil _)) (fun hat => ?_) fun _ => ?_
  · exact (htype (hts.tail (ne_nil_of_atWord hat))).bind_pure (fun _ _ => rfl) fun _ _ => rfl
  refine .ite (hts.atWord_eq (unseen hnil _)) (fun hat => ?_) fun _ => carries_ok _ hts
  exact (htype (hts.tail (ne_nil_of_atWord hat))).bind_pure (fun _ _ => rfl) fun _ _ => rfl

/-- Items with marks between them, where an item is not continued by a mark. -/
theorem repeats_separated
    {item item' : Reader α} (hitem : Repeats common behind (Unextended behind) item item')
    {mark : String} (hmark : mark ≠ "[") {rounds rounds' : Nat} (hrounds : rounds ≤ rounds') :
    Repeats common behind (Unextended behind) (src.readSeparated item mark rounds)
      (src'.readSeparated item' mark rounds') := by
  induction rounds generalizing rounds' with
  | zero => exact fun _ => carries_error _
  | succ rounds ih =>
    obtain ⟨more, rfl⟩ := Nat.exists_eq_add_of_le hrounds
    rw [show rounds + 1 + more = rounds + more + 1 by omega]
    intro ts us hts
    refine (hitem hts).bind (fun x ts xs rest h hleft => ?_) fun x ts us _ _ hleft hts => ?_
    · simp only at h
      split at h
      · cases h
        exact hleft
      · rename_i hat
        exact unextended_of_atMark (by simpa using hat) hmark
    · refine .ite (congrArg _ (hts.atMark_eq (unseen (fun hnil => hleft (.inl hnil)) _)))
        (fun _ => carries_ok _ hts) fun hat => ?_
      have hat : atMark mark ts = true := by simpa using hat
      exact (ih (Nat.le_add_right _ _) (hts.tail (ne_nil_of_atMark hat))).bind_pure
        (fun _ _ => rfl) fun _ _ => rfl

/-- Items in angle brackets, if there are any, end with their bracket, whatever stands behind it. -/
theorem carries_angle
    {item item' : Reader α} (hitem : Repeats common behind (Unextended behind) item item')
    {ts us : List Token} (hts : Echoes common behind ts us) (hnil : ts = [] → behind = [])
    (g : List α → List β) :
    Carries common behind left
      (if !atMark "<" ts then .ok (g [], ts)
        else src.readSeparated item "," ts.length ts.tail >>= fun p =>
          src.expectMark ">" p.2 >>= fun rest => .ok (g p.1, rest))
      (if !atMark "<" us then .ok (g [], us)
        else src'.readSeparated item' "," us.length us.tail >>= fun p =>
          src'.expectMark ">" p.2 >>= fun rest => .ok (g p.1, rest)) := by
  refine .ite (congrArg _ (hts.atMark_eq (unseen hnil _))) (fun _ => carries_ok _ hts)
    fun hat => ?_
  have hat : atMark "<" ts = true := by simpa using hat
  have hcomma : "," ≠ "[" := by decide
  refine (repeats_separated hitem hcomma hts.length_le (hts.tail (ne_nil_of_atMark hat))).bind
    (fun _ ts₁ _ _ h _ => ?_) fun xs ts us _ _ _ hts => ?_
  · obtain ⟨_, hclose, -⟩ := bind_eq_ok.mp h
    exact unextended_of_atMark (atMark_of_expectMark hclose) (by decide)
  · exact carries_expectMark hts fun _ hts => carries_ok _ hts

/-- Without arguments, something else follows. -/
theorem repeats_arguments
    {type type' : Reader ReadType} (htype : Repeats common behind (Unextended behind) type type') :
    Repeats common behind (fun rest => rest = [] → behind = []) (src.readArguments type)
      (src'.readArguments type') := by
  intro ts us hts
  refine .assuming (P := ts = [] → behind = []) (fun types rest h hleft => ?_) fun hnil => ?_
  · rintro rfl
    cases h
    exact hleft rfl
  exact carries_angle htype hts hnil (List.map ReadType.owned)

theorem dimensions_of_echoes
    {ts us : List Token} (hts : Echoes common behind ts us) (varargs : Bool)
    (hleft : Unextended behind (readDimensions varargs ts).2.2) :
    ∃ us', readDimensions varargs us =
        ((readDimensions varargs ts).1, (readDimensions varargs ts).2.1, us') ∧
      Echoes common behind (readDimensions varargs ts).2.2 us' := by
  have hmark : ∀ {t u : Token} (mark : String), t.kind = u.kind → t.text = u.text →
      u.isMark mark = t.isMark mark := fun _ hkind htext => by
    simp only [Token.isMark, hkind, htext]
  fun_induction readDimensions varargs ts generalizing us with
  | case1 varargs t t₁ ts hbrackets dimensions varargs' rest hread ih =>
    cases hts with
    | cons kind text _ others =>
      cases others with
      | cons kind₁ text₁ _ others =>
        rw [hread] at ih
        obtain ⟨us', hus', hrest⟩ := ih others hleft
        refine ⟨us', ?_, hrest⟩
        rw [readDimensions, hmark _ kind text, hmark _ kind₁ text₁, if_pos hbrackets, hus']
  | case2 varargs t t₁ ts hbrackets hdots dimensions varargs' rest hread ih =>
    cases hts with
    | cons kind text _ others =>
      cases others with
      | cons kind₁ text₁ also₁ others =>
        rw [hread] at ih
        obtain ⟨us', hus', hrest⟩ := ih (.cons kind₁ text₁ also₁ others) hleft
        refine ⟨us', ?_, hrest⟩
        rw [readDimensions, hmark _ kind text, hmark _ kind₁ text₁, hmark _ kind text,
          if_neg hbrackets, if_pos hdots, hus']
  | case3 varargs t t₁ ts hbrackets hdots =>
    cases hts with
    | cons kind text also others =>
      cases others with
      | cons kind₁ text₁ also₁ others =>
        refine ⟨_, ?_, .cons kind text also (.cons kind₁ text₁ also₁ others)⟩
        rw [readDimensions, hmark _ kind text, hmark _ kind₁ text₁, hmark _ kind text,
          if_neg hbrackets, if_neg hdots]
  | case4 varargs t hdots =>
    cases hts with
    | cons kind text _ others =>
      cases others
      obtain rfl : behind = [] := hleft (.inl rfl)
      refine ⟨[], ?_, .nil⟩
      rw [readDimensions, hmark _ kind text, if_pos hdots]
  | case5 varargs t hdots =>
    cases hts with
    | cons kind text also others =>
      cases others
      refine ⟨_, ?_, .cons kind text also .nil⟩
      cases behind with
      | nil => rw [readDimensions, hmark _ kind text, if_neg hdots]
      | cons u₁ behind =>
        -- More tokens follow, so that the token is known not to open a dimension.
        have hbracket : t.isMark "[" = false :=
          Bool.eq_false_iff.mpr fun hat => absurd (hleft (.inr hat)) (List.cons_ne_nil _ _)
        rw [readDimensions, hmark _ kind text, hmark _ kind text, hbracket, if_neg hdots]
        rfl
  | case6 varargs =>
    cases hts
    obtain rfl : behind = [] := hleft (.inl rfl)
    exact ⟨[], rfl, .nil⟩

theorem suffix_of_echoes
    {ts us : List Token} (hts : Echoes common behind ts us)
    (hleft : (readSuffix ts).2 = [] → behind = []) :
    ∃ us', readSuffix us = ((readSuffix ts).1, us') ∧
      Echoes common behind (readSuffix ts).2 us' := by
  have hnil : ts = [] → behind = [] := by
    rintro rfl
    exact hleft rfl
  have hnullable : atMark "?" us = atMark "?" ts := hts.atMark_eq (unseen hnil _)
  have hunknown : atMark "!" us = atMark "!" ts := hts.atMark_eq (unseen hnil _)
  rw [readSuffix, readSuffix, hnullable, hunknown]
  split
  · rename_i hat
    exact ⟨us.tail, rfl, hts.tail (ne_nil_of_atMark hat)⟩
  split
  · rename_i hat
    exact ⟨us.tail, rfl, hts.tail (ne_nil_of_atMark hat)⟩
  · exact ⟨us, rfl, hts⟩

/-- What stands in front of a mark of nullability is not continued, nor is what stands in front of
something that is not continued. -/
theorem unextended_of_readSuffix
    {ts : List Token} (h : Unextended behind (readSuffix ts).2) : Unextended behind ts := by
  rw [readSuffix] at h
  split at h
  · rename_i hat
    exact unextended_of_atMark hat (by decide)
  split at h
  · rename_i hat
    exact unextended_of_atMark hat (by decide)
  · exact h

/-- Types nest as deep as the first reader admits. -/
theorem repeats_typeWithin
    (hsettings : src'.settings = src.settings) (hscope : src'.scope = src.scope)
    {depth depth' : Nat} (hdepth : depth ≤ depth') :
    Repeats common behind (Unextended behind) (src.readTypeWithin depth)
      (src'.readTypeWithin depth') := by
  induction depth generalizing depth' with
  | zero => exact fun _ => carries_error _
  | succ depth ih =>
    obtain ⟨more, rfl⟩ := Nat.exists_eq_add_of_le hdepth
    rw [show depth + 1 + more = depth + more + 1 by omega]
    have htype : Repeats common behind (Unextended behind) (src.readTypeWithin depth)
        (src'.readTypeWithin (depth + more)) := ih (Nat.le_add_right _ _)
    intro ts us hts
    refine (carries_annotations hsettings hts le_rfl le_rfl).bind (fun as ts₁ t rest h _ => ?_)
      fun annotations ts us _ _ hne hts => ?_
    · rintro rfl
      cases h
    refine .ite (hts.atMark_eq fun hnil => absurd hnil hne) (fun _ => ?_) fun _ => ?_
    · exact (repeats_bound htype (hts.tail hne)).bind_pure (fun _ _ => rfl) fun _ _ => rfl
    refine (repeats_expectName _ hts).andThen fun name ts us hts => ?_
    refine (repeats_arguments htype hts).bind (fun arguments ts₁ t rest h hleft => ?_)
      fun arguments ts us _ _ _ hts => ?_
    · rintro rfl
      cases h
      exact hleft (.inl rfl)
    intro t rest h hleft
    cases h
    have hsuffix := unextended_of_readSuffix hleft
    obtain ⟨us₁, hdimensions, hts₁⟩ := dimensions_of_echoes hts false hsuffix
    obtain ⟨us₂, hus₂, hts₂⟩ := suffix_of_echoes hts₁ fun hnil => hleft (.inl hnil)
    refine ⟨us₂, ?_, hts₂⟩
    simp only [hdimensions, hus₂, typeName, plainNullability, hsettings, hscope]
    rfl

theorem repeats_type (hsettings : src'.settings = src.settings) (hscope : src'.scope = src.scope) :
    Repeats common behind (Unextended behind) src.readType src'.readType :=
  fun hts => repeats_typeWithin hsettings hscope hts.length_le hts

theorem repeats_ownedType
    (hsettings : src'.settings = src.settings) (hscope : src'.scope = src.scope) :
    Repeats common behind (Unextended behind) src.readOwnedType src'.readOwnedType :=
  fun hts => (repeats_type hsettings hscope hts).bind_pure (fun _ _ => rfl) fun _ _ => rfl

theorem repeats_bounds (hsettings : src'.settings = src.settings)
    (hscope : src'.scope = src.scope) :
    Repeats common behind (Unextended behind) src.readBounds src'.readBounds := by
  intro ts us hts
  refine .assuming (P := ts = [] → behind = []) (fun bounds rest h hleft => ?_) fun hnil => ?_
  · rintro rfl
    cases h
    exact hleft (.inl rfl)
  refine .ite (hts.atWord_eq (unseen hnil _)) (fun hat => ?_) fun _ => carries_ok _ hts
  exact repeats_separated (repeats_ownedType hsettings hscope) (by decide) hts.length_le
    (hts.tail (ne_nil_of_atWord hat))

theorem repeats_typeParameter
    (hsettings : src'.settings = src.settings) (hscope : src'.scope = src.scope) :
    Repeats common behind (Unextended behind) src.readTypeParameter src'.readTypeParameter := by
  intro ts us hts
  refine (repeats_expectName _ hts).andThen fun name ts us hts => ?_
  exact (repeats_bounds hsettings hscope hts).bind_pure (fun _ _ => rfl) fun _ _ => rfl

theorem carries_typeParameters
    (hsettings : src'.settings = src.settings) (hscope : src'.scope = src.scope)
    {ts us : List Token} (hts : Echoes common behind ts us) (hnil : ts = [] → behind = []) :
    Carries common behind left (src.readTypeParameters ts) (src'.readTypeParameters us) :=
  carries_angle (repeats_typeParameter hsettings hscope) hts hnil id

end Source

end Signature
end ApiSurface
