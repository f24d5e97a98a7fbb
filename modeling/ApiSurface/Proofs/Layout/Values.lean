import ApiSurface.Proofs.Layout.Echoes
import ApiSurface.Proofs.RawValue
import ApiSurface.Signature.Reader.Codebase

/-!
# Where blanks count

Constants and defaults are kept as written, with the blanks and comments between their tokens.
These are the only blanks that reach a codebase: tokens that are written alike, and have the same
blanks in front of them where they stand inside a value, are read alike.
-/

namespace ApiSurface
namespace Signature

/-! ## The values of a text -/

/-- What comes of the tokens behind a step, if the step succeeds. -/
def after {α β : Type} (outcome : Except Fault (α × List Token)) (next : α → List Token → List β) :
    List β :=
  match outcome with
  | .ok (x, ts) => next x ts
  | .error _ => []

namespace Source

variable {α : Type}

def markedValues (src : Source) (present : Bool) (stops : List String) (ts : List Token) :
    List (List Token) :=
  if !present then [] else after (src.takeValue stops 0 ts.tail) fun value _ => [value]

def parameterValues (src : Source) (ts : List Token) : List (List Token) :=
  after (src.readType ts) fun _ ts =>
    let ts := if atName ts then ts.tail else ts
    src.markedValues (atMark "=" ts) [",", ")"] ts

def listValues (src : Source) (item : Reader α) (values : List Token → List (List Token))
    (close : String) : (rounds : Nat) → List Token → List (List Token)
  | 0, _ => []
  | rounds + 1, ts =>
    values ts ++ after (item ts) fun _ ts =>
      if atMark close ts then []
      else if atMark "," ts then src.listValues item values close rounds ts.tail
      else []

def parametersValues (src : Source) (ts : List Token) : List (List Token) :=
  if atMark ")" ts.tail then []
  else src.listValues src.readParameter src.parameterValues ")" (ts.tail.length + 1) ts.tail

/-- The defaults of the parameters of a constructor. -/
def constructorValues (src : Source) (ts : List Token) : List (List Token) :=
  after (src.readPreamble ts) fun _ ts =>
    let src := src.within (variablesAhead ts)
    after (src.readTypeParameters ts) fun _ ts =>
      after (src.expectName "constructor name" ts) fun _ ts => src.parametersValues ts

/-- The defaults of the parameters of a method, and the default of an attribute. -/
def methodValues (src : Source) (ts : List Token) : List (List Token) :=
  after (src.readPreamble ts) fun p ts =>
    let src := src.within (variablesAhead ts)
    after (src.readTypeParameters ts) fun _ ts =>
      after (src.readMemberType p ts) fun _ ts =>
        after (src.expectName "method name" ts) fun _ ts =>
          src.parametersValues ts ++ after (src.readParameters ts) fun _ ts =>
            after (src.readThrows ts) fun _ ts => src.markedValues (atWord "default" ts) [";"] ts

def fieldValues (src : Source) (ts : List Token) : List (List Token) :=
  after (src.readPreamble ts) fun p ts =>
    after (src.readMemberType p ts) fun _ ts =>
      after (src.expectName "field name" ts) fun _ ts => src.markedValues (atMark "=" ts) [";"] ts

def memberValues (src : Source) (ts : List Token) : List (List Token) :=
  if atWord "ctor" ts then src.constructorValues ts.tail
  else if atWord "method" ts then src.methodValues ts.tail
  else if atWord "field" ts then src.fieldValues ts.tail
  else if atWord "enum_constant" ts then src.fieldValues ts.tail
  else []

def membersValues (src : Source) : (rounds : Nat) → ClassDecl → List Token → List (List Token)
  | 0, _, _ => []
  | rounds + 1, c, ts =>
    if atMark Token.closeBrace ts then []
    else
      src.memberValues ts ++ after (src.readMember c ts) fun c ts => src.membersValues rounds c ts

def classValues (src : Source) (cb : Codebase) (package : String) (ts : List Token) :
    List (List Token) :=
  after (src.readPreamble ts) fun p ts =>
    after (src.readKind ts) fun kind ts =>
      after (src.expectName "class name" ts) fun name ts =>
        let c := (ClassDecl.declare package name kind).withModifiers p.modifiers
        let c := { c with annotations := withoutNullness p.annotations }
        let outer := (cb.enclosing c).flatMap fun o => o.typeParameters.map TypeParameter.name
        let src := { src with scope := outer ++ variablesAhead ts }
        after (src.readTypeParameters ts) fun typeParameters ts =>
          after (src.readSupertypesAfter "extends" ts) fun extended ts =>
            after (src.readSupertypesAfter "implements" ts) fun implemented ts =>
              let c := extend { c with typeParameters } extended
              let c := { c with interfaces := c.interfaces ++ implemented }
              src.membersValues (ts.tail.length + 1) c ts.tail

/-- The values in the classes of a package up to the closing brace. -/
def classesValues (src : Source) (package : String) :
    (rounds : Nat) → Codebase → List Token → List (List Token)
  | 0, _, _ => []
  | rounds + 1, cb, ts =>
    if atMark Token.closeBrace ts then []
    else
      src.classValues cb package ts ++ after (src.readClass cb package ts) fun c ts =>
        match cb.addClass c with
        | .ok cb => src.classesValues package rounds cb ts
        | .error _ => []

/-- The values in the packages up to the end of the text. -/
def packagesValues (src : Source) : (rounds : Nat) → Codebase → List Token → List (List Token)
  | 0, _, _ => []
  | rounds + 1, cb, ts =>
    after (src.expectName "package name" ts.tail) fun package ts =>
      src.classesValues package (ts.tail.length + 1) (cb.addPackage package) ts.tail ++
        after (src.readClasses package (ts.tail.length + 1) (cb.addPackage package) ts.tail)
          fun cb ts => src.packagesValues rounds cb ts

end Source

/-- The tokens of each field value, parameter default and attribute default that reading a text
comes to. -/
def values (options : ReadOptions) (text : String) : List (List Token) :=
  match (do
    let settings ← options.resolve (← Header.declared text)
    return (settings, ← ApiSurface.scan settings.file text) :
      Except Fault (ReadSettings × Scan)) with
  | .ok (settings, scan) =>
    Source.packagesValues { settings, finish := scan.finish } scan.tokens.length ∅ scan.tokens
  | .error _ => []

/-- The tokens that stand inside a value, behind its first token. -/
def tokensInside (options : ReadOptions) (text : String) : List Token :=
  (values options text).flatMap List.tail

example :
    (values {}
      "package a \x7b class B \x7b field int c = 1 + (2); method void d(e = f); \x7d\x7d").map
      (List.map Token.text) = [["1", "+", "(", "2", ")"], ["f"]] := by
  decide +kernel

/-! ## Readers of declarations -/

/-- The source with another mark of the end of the text. -/
def Source.endingAt (src : Source) (finish : Token) : Source :=
  { src with finish }

namespace Source

variable {α β : Type} {common : Token → Token → Prop} {left : List Token → Prop} {src : Source}
  (finish : Token)

theorem settings_endingAt (src : Source) : (src.endingAt finish).settings = src.settings :=
  rfl

theorem scope_endingAt (src : Source) : (src.endingAt finish).scope = src.scope :=
  rfl

theorem repeats_type_to_end :
    Repeats common [] left src.readType (src.endingAt finish).readType :=
  fun hts => (repeats_type (settings_endingAt finish src) (scope_endingAt finish src) hts).mono
    fun _ _ _ => rfl

theorem repeats_typeParameters :
    Repeats common [] left src.readTypeParameters (src.endingAt finish).readTypeParameters :=
  fun hts => carries_typeParameters (settings_endingAt finish src) (scope_endingAt finish src) hts
    fun _ => rfl

theorem repeats_nonNullType :
    Repeats common [] left src.readNonNullType (src.endingAt finish).readNonNullType := by
  intro ts us hts
  have htype := repeats_ownedType (settings_endingAt finish src) (scope_endingAt finish src) hts
  exact (htype.mono fun _ _ _ => rfl).andThen fun t ts us hts => carries_ok _ hts

theorem repeats_supertypes (rounds : Nat) :
    Repeats common [] left (src.readSupertypes rounds)
      ((src.endingAt finish).readSupertypes rounds) := by
  induction rounds generalizing left with
  | zero => exact fun _ => carries_error _
  | succ rounds ih =>
    intro ts us hts
    refine (repeats_nonNullType finish hts).andThen fun t ts us hts => ?_
    refine .ite (hts.atMark_eq fun _ => rfl) (fun hat => ?_) fun _ => ?_
    · exact (ih hts.tail_to_end).bind_pure (fun _ _ => rfl) fun _ _ => rfl
    have hword : (!atWord "implements" us) = !atWord "implements" ts :=
      congrArg _ (hts.atWord_eq fun _ => rfl)
    refine .ite (congr_arg₂ _ (hts.atName_eq fun _ => rfl) hword) (fun _ => ?_)
      fun _ => carries_ok _ hts
    exact (ih hts).bind_pure (fun _ _ => rfl) fun _ _ => rfl

theorem repeats_supertypesAfter (word : String) :
    Repeats common [] left (src.readSupertypesAfter word)
      ((src.endingAt finish).readSupertypesAfter word) := by
  intro ts us hts
  rw [readSupertypesAfter, readSupertypesAfter, hts.length_eq]
  refine .ite (hts.atWord_eq fun _ => rfl) (fun hat => ?_) fun _ => carries_ok _ hts
  exact repeats_supertypes finish us.length hts.tail_to_end

theorem repeats_throws :
    Repeats common [] left src.readThrows (src.endingAt finish).readThrows := by
  intro ts us hts
  refine .ite (hts.atWord_eq fun _ => rfl) (fun hat => ?_) fun _ => carries_ok _ hts
  have htypes : Repeats common [] (Unextended []) src.readNonNullType
    (src.endingAt finish).readNonNullType := repeats_nonNullType finish
  exact (repeats_separated htypes (by decide) hts.length_le hts.tail_to_end).mono
    fun _ _ _ => rfl

theorem repeats_extendPreamble (rounds : Nat) (p : Preamble) :
    Repeats common [] left (src.extendPreamble rounds p)
      ((src.endingAt finish).extendPreamble rounds p) := by
  induction rounds generalizing p with
  | zero => exact fun hts => carries_ok p hts
  | succ rounds ih =>
    intro ts us hts
    cases hts with
    | nil => exact carries_ok p .nil
    | @cons t u ts us kind text also others =>
      have hmark : u.isMark "@" = t.isMark "@" := by simp only [Token.isMark, kind, text]
      have hword : (!atWord "interface" us) = !atWord "interface" ts :=
        congrArg _ (others.atWord_eq fun _ => rfl)
      rw [extendPreamble, extendPreamble, ← kind, ← text]
      refine .ite (congr_arg₂ _ hmark hword) (fun _ => ?_) fun _ => ?_
      · refine Carries.andThen ?_ fun a ts us hts => ih (p.annotate a) hts
        have ha := annotation_repeats (settings_endingAt finish src) (.cons kind text also others)
        exact ha.mono fun _ _ _ => rfl
      · split
        · split
          · exact ih _ others
          · exact carries_ok p (.cons kind text also others)
        · exact carries_ok p (.cons kind text also others)

theorem repeats_preamble :
    Repeats common [] left src.readPreamble (src.endingAt finish).readPreamble := by
  intro ts us hts
  rw [readPreamble, readPreamble, hts.length_eq]
  exact repeats_extendPreamble finish us.length {} hts

theorem repeats_memberType (p : Preamble) :
    Repeats common [] left (src.readMemberType p) ((src.endingAt finish).readMemberType p) :=
  fun hts => (repeats_type_to_end finish hts).andThen fun _ _ _ hts => carries_ok _ hts

theorem repeats_kind : Repeats common [] left src.readKind (src.endingAt finish).readKind := by
  intro ts us hts
  refine .ite (hts.atWord_eq fun _ => rfl) (fun _ => carries_ok _ hts.tail_to_end) fun _ => ?_
  refine .ite (hts.atWord_eq fun _ => rfl) (fun _ => carries_ok _ hts.tail_to_end) fun _ => ?_
  refine .ite (hts.atWord_eq fun _ => rfl) (fun _ => carries_ok _ hts.tail_to_end) fun _ => ?_
  have hword : atWord "interface" us.tail = atWord "interface" ts.tail :=
    hts.tail_to_end.atWord_eq fun _ => rfl
  exact .ite (congr_arg₂ _ (hts.atMark_eq fun _ => rfl) hword)
    (fun _ => carries_ok _ hts.tail_to_end.tail_to_end) fun _ => carries_error _

end Source

theorem declaredVariables_of_echoes
    {common : Token → Token → Prop} {ts us : List Token} (h : Echoes common [] ts us) (depth : Nat)
    (due : Bool) : declaredVariables depth due us = declaredVariables depth due ts := by
  induction h generalizing depth due with
  | nil => rfl
  | cons kind text _ _ ih => simp only [declaredVariables, Token.isMark, kind, text, ih]

theorem variablesAhead_of_echoes
    {common : Token → Token → Prop} {ts us : List Token} (h : Echoes common [] ts us) :
    Source.variablesAhead us = Source.variablesAhead ts := by
  rw [Source.variablesAhead, Source.variablesAhead, h.atMark_eq fun _ => rfl,
    declaredVariables_of_echoes h]

/-! ## Values -/

/-- Tokens that are written alike; the blanks in front of them count where the first stands inside
a value. -/
def Alike (inside : Token → Prop) (t u : Token) : Prop :=
  t.lexeme = u.lexeme ∧ (inside t → t.blank = u.blank)

theorem renders_exactSign (ts : List Token) : Renders ts (ts.map Token.exactSign) := by
  have hshows : ∀ t : Token, t.Shows t.exactSign := fun t =>
    ⟨rfl, rfl, by simp [Token.exactSign], by simp [Token.exactSign]⟩
  exact List.forall₂_map_right_iff.mpr (List.forall₂_same.mpr fun t _ => hshows t)

theorem echoes_of_renders
    {inside : Token → Prop} {ts us : List Token} (h : Renders us (ts.map Token.exactSign)) :
    Echoes (Alike inside) [] ts us := by
  induction ts generalizing us with
  | nil =>
    cases h
    exact .nil
  | cons t ts ih =>
    cases h with
    | cons hfirst hothers =>
      exact .cons hfirst.kind.symm hfirst.text.symm
        ⟨(hfirst.lexeme _ rfl).symm, fun _ => (hfirst.blank _ rfl).symm⟩ (ih hothers)

/-- The tokens behind the first of each value count as inside. -/
def Covers (inside : Token → Prop) (values : List (List Token)) : Prop :=
  ∀ value ∈ values, ∀ t ∈ value.tail, inside t

theorem Covers.of_append
    {inside : Token → Prop} {values others : List (List Token)}
    (h : Covers inside (values ++ others)) :
    Covers inside values ∧ Covers inside others :=
  List.forall_mem_append.mp h

/-- A step after which there may be values. -/
theorem Carries.andThenWith
    {α β : Type} {common : Token → Token → Prop} {left : List Token → Prop} {inside : Token → Prop}
    {outcome outcome' : Except Fault (α × List Token)}
    {next next' : α × List Token → Except Fault (β × List Token)}
    {values : α → List Token → List (List Token)}
    (hvalues : Covers inside (after outcome values))
    (h : Carries common [] (fun _ => True) outcome outcome')
    (hnext : ∀ x rest rest', Echoes common [] rest rest' → Covers inside (values x rest) →
      Carries common [] left (next (x, rest)) (next' (x, rest'))) :
    Carries common [] left (outcome >>= next) (outcome' >>= next') := by
  refine h.bind (fun _ _ _ _ _ _ => trivial) fun x rest rest' hx _ _ hrest => ?_
  rw [hx] at hvalues
  exact hnext x rest rest' hrest hvalues

/-- The tokens that correspond to a stretch of tokens. -/
theorem Echoes.of_append
    {common : Token → Token → Prop} {ts rest us : List Token}
    (h : Echoes common [] (ts ++ rest) us) :
    ∃ us' rest', us = us' ++ rest' ∧ Echoes common [] ts us' ∧ Echoes common [] rest rest' := by
  induction ts generalizing us with
  | nil => exact ⟨[], us, rfl, .nil, h⟩
  | cons t ts ih =>
    cases h with
    | cons kind text also others =>
      obtain ⟨us', rest', rfl, hts, hrest⟩ := ih others
      exact ⟨_ :: us', rest', rfl, .cons kind text also hts, hrest⟩

theorem encloses_of_echoes
    {common : Token → Token → Prop} {ts us : List Token} (h : Echoes common [] ts us)
    (stops : List String) (depth : Nat) :
    encloses stops depth (us.map Token.exactSign) =
      encloses stops depth (ts.map Token.exactSign) := by
  induction h generalizing depth with
  | nil => rfl
  | @cons t u _ _ kind text _ _ ih =>
    have hkind : u.exactSign.kind = t.exactSign.kind := kind.symm
    have htext : u.exactSign.text = t.exactSign.text := text.symm
    simp only [List.map_cons, encloses, hkind, htext, ih]

theorem sourceText_of_echoes
    {inside : Token → Prop} {ts us : List Token} (h : Echoes (Alike inside) [] ts us)
    (hinside : ∀ t ∈ ts.tail, inside t) : Token.sourceText us = Token.sourceText ts := by
  have hmap : ∀ {ts us : List Token}, Echoes (Alike inside) [] ts us → (∀ t ∈ ts, inside t) →
      us.map Token.exactSign = ts.map Token.exactSign := by
    intro ts us hts hall
    induction hts with
    | nil => rfl
    | cons kind text also _ ih =>
      obtain ⟨hfirst, hothers⟩ := List.forall_mem_cons.mp hall
      rw [List.map_cons, List.map_cons, ih hothers]
      simp only [Token.exactSign, kind, text, also.1, also.2 hfirst]
  apply Token.sourceText_eq_of_exactSigns
  cases h with
  | nil => rfl
  | cons kind text also others =>
    simp only [Token.exactSigns, hmap others hinside, Token.exactSign, kind, text, also.1]

namespace Source

variable {inside : Token → Prop} {left : List Token → Prop} {src : Source} (finish : Token)

/-- Values are kept with the blanks inside them. -/
theorem carries_valueText
    {stops : List String} {ts us : List Token} (hts : Echoes (Alike inside) [] ts us)
    (hvalues : Covers inside (after (src.takeValue stops 0 ts) fun value _ => [value])) :
    Carries (Alike inside) [] left (src.readValueText stops ts)
      ((src.endingAt finish).readValueText stops us) := by
  intro text rest h _
  obtain ⟨⟨value, rest₁⟩, hvalue, htext⟩ := bind_eq_ok.mp h
  rw [hvalue] at hvalues
  obtain ⟨rfl, henclosed, mark, hmark, hat⟩ := encloses_of_takeValue hvalue
  obtain ⟨value', rest', rfl, hechoes, hrest⟩ := hts.of_append
  have hvalue' : (src.endingAt finish).takeValue stops 0 (value' ++ rest') = .ok (value', rest') :=
    takeValue_of_encloses _ (renders_exactSign value')
      ((encloses_of_echoes hechoes stops 0).trans henclosed)
      ⟨mark, hmark, (hrest.atMark_eq fun _ => rfl).trans hat⟩
  have hsame := sourceText_of_echoes hechoes (hvalues value List.mem_cons_self)
  have hempty : value'.isEmpty = value.isEmpty := by
    cases hechoes <;> rfl
  rw [readValueText, hvalue', ok_bind]
  simp only at htext ⊢
  rw [hempty, hsame]
  split at htext
  · cases htext
  · rename_i hne
    cases htext
    rw [if_neg hne]
    exact ⟨rest', rfl, hrest⟩

theorem carries_markedValue
    {present present' : Bool} {stops : List String} {ts us : List Token}
    (hpresent : present' = present) (hts : Echoes (Alike inside) [] ts us)
    (hvalues : Covers inside (src.markedValues present stops ts)) :
    Carries (Alike inside) [] left (src.readMarkedValue present stops ts)
      ((src.endingAt finish).readMarkedValue present' stops us) := by
  rw [markedValues] at hvalues
  refine .ite (congrArg _ hpresent) (fun _ => carries_ok none hts) fun hthere => ?_
  rw [hthere] at hvalues
  exact (carries_valueText finish hts.tail_to_end hvalues).bind_pure (fun _ _ => rfl) fun _ _ => rfl

theorem carries_parameter
    {ts us : List Token} (hts : Echoes (Alike inside) [] ts us)
    (hvalues : Covers inside (src.parameterValues ts)) :
    Carries (Alike inside) [] left (src.readParameter ts)
      ((src.endingAt finish).readParameter us) := by
  refine .andThenWith hvalues (repeats_type_to_end finish hts) fun t ts us hts hvalues => ?_
  have hname : atName us = atName ts := hts.atName_eq fun _ => rfl
  have htext : us.head?.map Token.text = ts.head?.map Token.text := by
    cases hts with
    | nil => rfl
    | cons _ text _ _ => exact congrArg some text.symm
  simp only [hname, htext]
  cases hat : atName ts with
  | true =>
    rw [hat] at hvalues
    exact (carries_markedValue finish (hts.tail_to_end.atMark_eq fun _ => rfl) hts.tail_to_end
      hvalues).andThen fun _ _ _ hts => carries_ok _ hts
  | false =>
    rw [hat] at hvalues
    exact (carries_markedValue finish (hts.atMark_eq fun _ => rfl) hts hvalues).andThen
      fun _ _ _ hts => carries_ok _ hts

/-- Lists of items, where an item may have values. -/
theorem carries_list
    {α : Type} {item item' : Reader α} {values : List Token → List (List Token)} {close : String}
    {rounds : Nat} {ts us : List Token}
    (hitem : ∀ {ts us : List Token}, Echoes (Alike inside) [] ts us → Covers inside (values ts) →
      Carries (Alike inside) [] (fun _ => True) (item ts) (item' us))
    (hts : Echoes (Alike inside) [] ts us)
    (hvalues : Covers inside (src.listValues item values close rounds ts)) :
    Carries (Alike inside) [] left (src.readList item close rounds ts)
      ((src.endingAt finish).readList item' close rounds us) := by
  induction rounds generalizing ts us left with
  | zero => exact carries_error _
  | succ rounds ih =>
    obtain ⟨hfirst, hothers⟩ := Covers.of_append hvalues
    refine .andThenWith hothers (hitem hts hfirst) fun x ts us hts hvalues => ?_
    refine .ite (hts.atMark_eq fun _ => rfl) (fun _ => carries_ok _ hts.tail_to_end)
      fun hclose => ?_
    refine carries_expectMark hts fun hcomma hts => ?_
    rw [hclose, hcomma] at hvalues
    exact (ih hts hvalues).bind_pure (fun _ _ => rfl) fun _ _ => rfl

theorem carries_parameters
    {ts us : List Token} (hts : Echoes (Alike inside) [] ts us)
    (hvalues : Covers inside (src.parametersValues ts)) :
    Carries (Alike inside) [] left (src.readParameters ts)
      ((src.endingAt finish).readParameters us) := by
  rw [parametersValues] at hvalues
  refine carries_expectMark hts fun _ hts => ?_
  refine .ite (hts.atMark_eq fun _ => rfl) (fun _ => carries_ok _ hts.tail_to_end) fun hclose => ?_
  rw [hclose] at hvalues
  rw [← hts.length_eq]
  exact carries_list finish (fun hts => carries_parameter finish hts) hts hvalues

theorem carries_constructor
    {ts us : List Token} (hts : Echoes (Alike inside) [] ts us)
    (hvalues : Covers inside (src.constructorValues ts)) (c : ClassDecl) :
    Carries (Alike inside) [] left (src.readConstructor c ts)
      ((src.endingAt finish).readConstructor c us) := by
  refine .andThenWith hvalues (repeats_preamble finish hts) fun p ts us hts hvalues => ?_
  simp only [variablesAhead_of_echoes hts]
  refine .andThenWith hvalues (repeats_typeParameters finish hts) fun _ ts us hts hvalues => ?_
  refine .andThenWith hvalues (repeats_expectName _ hts) fun _ ts us hts hvalues => ?_
  refine (carries_parameters finish hts hvalues).andThen fun _ ts us hts => ?_
  refine (repeats_throws finish hts).andThen fun _ ts us hts => ?_
  exact carries_expectMark hts fun _ hts => carries_ok _ hts

theorem carries_method
    {ts us : List Token} (hts : Echoes (Alike inside) [] ts us)
    (hvalues : Covers inside (src.methodValues ts)) (c : ClassDecl) :
    Carries (Alike inside) [] left (src.readMethod c ts)
      ((src.endingAt finish).readMethod c us) := by
  refine .andThenWith hvalues (repeats_preamble finish hts) fun p ts us hts hvalues => ?_
  simp only [variablesAhead_of_echoes hts]
  refine .andThenWith hvalues (repeats_typeParameters finish hts) fun _ ts us hts hvalues => ?_
  refine .andThenWith hvalues (repeats_memberType finish p hts) fun _ ts us hts hvalues => ?_
  refine .andThenWith hvalues (repeats_expectName _ hts) fun _ ts us hts hvalues => ?_
  obtain ⟨hparameters, hvalues⟩ := Covers.of_append hvalues
  refine .andThenWith hvalues (carries_parameters finish hts hparameters)
    fun _ ts us hts hvalues => ?_
  refine .andThenWith hvalues (repeats_throws finish hts) fun _ ts us hts hvalues => ?_
  refine (carries_markedValue finish (hts.atWord_eq fun _ => rfl) hts hvalues).andThen
    fun _ ts us hts => ?_
  exact carries_expectMark hts fun _ hts => carries_ok _ hts

theorem carries_field
    {ts us : List Token} (hts : Echoes (Alike inside) [] ts us)
    (hvalues : Covers inside (src.fieldValues ts)) (c : ClassDecl) (isEnumConstant : Bool) :
    Carries (Alike inside) [] left (src.readField c isEnumConstant ts)
      ((src.endingAt finish).readField c isEnumConstant us) := by
  refine .andThenWith hvalues (repeats_preamble finish hts) fun p ts us hts hvalues => ?_
  refine .andThenWith hvalues (repeats_memberType finish p hts) fun _ ts us hts hvalues => ?_
  refine .andThenWith hvalues (repeats_expectName _ hts) fun _ ts us hts hvalues => ?_
  refine (carries_markedValue finish (hts.atMark_eq fun _ => rfl) hts hvalues).andThen
    fun _ ts us hts => ?_
  exact carries_expectMark hts fun _ hts => carries_ok _ hts

/-- A member that is added to the class as it is read. -/
theorem carries_added
    {α : Type} {outcome outcome' : Except Fault (α × List Token)} {add : α → Except Fault ClassDecl}
    (h : Carries (Alike inside) [] (fun _ => True) outcome outcome') :
    Carries (Alike inside) [] left
      (outcome >>= fun p => add p.1 >>= fun c => .ok (c, p.2))
      (outcome' >>= fun p => add p.1 >>= fun c => .ok (c, p.2)) := by
  refine h.andThen fun x ts us hts => ?_
  cases hadd : add x with
  | error fault => exact carries_error fault
  | ok c => exact carries_ok c hts

theorem carries_member
    {ts us : List Token} (hts : Echoes (Alike inside) [] ts us)
    (hvalues : Covers inside (src.memberValues ts)) (c : ClassDecl) :
    Carries (Alike inside) [] left (src.readMember c ts)
      ((src.endingAt finish).readMember c us) := by
  rw [memberValues] at hvalues
  refine .ite (hts.atWord_eq fun _ => rfl) (fun hat => ?_) fun hat => ?_
  · rw [hat] at hvalues
    exact carries_added (carries_constructor finish hts.tail_to_end hvalues c)
  rw [hat] at hvalues
  refine .ite (hts.atWord_eq fun _ => rfl) (fun hat => ?_) fun hat => ?_
  · rw [hat] at hvalues
    exact carries_added (carries_method finish hts.tail_to_end hvalues c)
  rw [hat] at hvalues
  refine .ite (hts.atWord_eq fun _ => rfl) (fun hat => ?_) fun hat => ?_
  · rw [hat] at hvalues
    exact carries_added (carries_field finish hts.tail_to_end hvalues c false)
  rw [hat] at hvalues
  refine .ite (hts.atWord_eq fun _ => rfl) (fun hat => ?_) fun _ => carries_error _
  rw [hat] at hvalues
  exact carries_added (carries_field finish hts.tail_to_end hvalues c true)

theorem carries_members
    {rounds : Nat} {c : ClassDecl} {ts us : List Token} (hts : Echoes (Alike inside) [] ts us)
    (hvalues : Covers inside (src.membersValues rounds c ts)) :
    Carries (Alike inside) [] left (src.readMembers rounds c ts)
      ((src.endingAt finish).readMembers rounds c us) := by
  induction rounds generalizing c ts us with
  | zero => exact carries_error _
  | succ rounds ih =>
    rw [membersValues] at hvalues
    refine .ite (hts.atMark_eq fun _ => rfl) (fun _ => carries_ok _ hts.tail_to_end)
      fun hclose => ?_
    rw [hclose] at hvalues
    obtain ⟨hmember, hvalues⟩ := Covers.of_append hvalues
    exact .andThenWith hvalues (carries_member finish hts hmember c)
      fun c ts us hts hvalues => ih hts hvalues

theorem carries_class
    {ts us : List Token} {cb : Codebase} {package : String} (hts : Echoes (Alike inside) [] ts us)
    (hvalues : Covers inside (src.classValues cb package ts)) :
    Carries (Alike inside) [] left (src.readClass cb package ts)
      ((src.endingAt finish).readClass cb package us) := by
  refine .andThenWith hvalues (repeats_preamble finish hts) fun p ts us hts hvalues => ?_
  refine .andThenWith hvalues (repeats_kind finish hts) fun kind ts us hts hvalues => ?_
  refine .andThenWith hvalues (repeats_expectName _ hts) fun name ts us hts hvalues => ?_
  simp only [variablesAhead_of_echoes hts]
  refine .andThenWith hvalues (repeats_typeParameters finish hts) fun _ ts us hts hvalues => ?_
  refine .andThenWith hvalues (repeats_supertypesAfter finish _ hts) fun _ ts us hts hvalues => ?_
  refine .andThenWith hvalues (repeats_supertypesAfter finish _ hts) fun _ ts us hts hvalues => ?_
  refine carries_expectMark hts fun _ hts => ?_
  rw [← hts.length_eq]
  exact carries_members finish hts hvalues

theorem carries_classes
    {package : String} {rounds : Nat} {cb : Codebase} {ts us : List Token}
    (hts : Echoes (Alike inside) [] ts us)
    (hvalues : Covers inside (src.classesValues package rounds cb ts)) :
    Carries (Alike inside) [] left (src.readClasses package rounds cb ts)
      ((src.endingAt finish).readClasses package rounds cb us) := by
  induction rounds generalizing cb ts us with
  | zero => exact carries_error _
  | succ rounds ih =>
    rw [classesValues] at hvalues
    refine .ite (hts.atMark_eq fun _ => rfl) (fun _ => carries_ok _ hts.tail_to_end)
      fun hclose => ?_
    rw [hclose] at hvalues
    obtain ⟨hclass, hvalues⟩ := Covers.of_append hvalues
    refine .andThenWith hvalues (carries_class finish hts hclass) fun c ts us hts hvalues => ?_
    simp only at hvalues ⊢
    cases hadd : cb.addClass c with
    | error fault => exact carries_error fault
    | ok cb =>
      rw [hadd] at hvalues
      exact ih hts hvalues

/-- Packages up to the end of the text.  The blank in front of the first token is not inside a
value. -/
theorem readPackages_of_echoes
    {rounds : Nat} {cb result : Codebase} {t u : Token} {ts us : List Token}
    (kind : t.kind = u.kind) (text : t.text = u.text) (hts : Echoes (Alike inside) [] ts us)
    (hvalues : Covers inside (src.packagesValues rounds cb (t :: ts)))
    (h : src.readPackages rounds cb (t :: ts) = .ok result) :
    (src.endingAt finish).readPackages rounds cb (u :: us) = .ok result := by
  induction rounds generalizing cb t u ts us with
  | zero => cases h
  | succ rounds ih =>
    have hword : u.isWord "package" = t.isWord "package" := by simp only [Token.isWord, kind, text]
    rw [readPackages] at h ⊢
    rw [hword]
    split at h
    case isFalse => cases h
    rename_i hpackage
    rw [if_pos hpackage]
    -- The name and the brace are followed by the classes; then comes the end or the next package.
    obtain ⟨⟨package, ts₁⟩, hname, h⟩ := bind_eq_ok.mp h
    obtain ⟨ts₂, hopen, h⟩ := bind_eq_ok.mp h
    obtain ⟨⟨cb', ts₃⟩, hclasses, h⟩ := bind_eq_ok.mp h
    have hat := atMark_of_expectMark hopen
    rw [expectMark, if_pos hat] at hopen
    cases hopen
    rw [packagesValues, List.tail_cons, hname] at hvalues
    obtain ⟨hinner, hothers⟩ := Covers.of_append hvalues
    rw [hclasses] at hothers
    have hcarries : Carries (Alike inside) [] (fun _ => True) (src.expectName "package name" ts)
        ((src.endingAt finish).expectName "package name" us) := repeats_expectName _ hts
    obtain ⟨us₁, hname', hts₁⟩ := hcarries package ts₁ hname trivial
    have hat' : atMark Token.openBrace us₁ = true := (hts₁.atMark_eq fun _ => rfl).trans hat
    have hcarries' : Carries (Alike inside) [] (fun _ => True) _ _ :=
      carries_classes finish hts₁.tail_to_end hinner
    obtain ⟨us₃, hclasses', hts₃⟩ := hcarries' cb' ts₃ hclasses trivial
    rw [hname', ok_bind]
    simp only
    rw [expectMark, if_pos hat', ok_bind, ← hts₁.tail_to_end.length_eq, hclasses', ok_bind]
    cases hts₃ with
    | nil => cases rounds <;> exact h
    | cons kind text _ others => exact ih kind text others hothers h

end Source

end Signature
end ApiSurface
