import ApiSurface.Declaration.Member
import ApiSurface.Proofs.RoundTrip.TypeRef

/-!
# Types told by how they are written

Types and parameter lists are compared by their written form.  Where no name holds a mark of the
written form, nothing is lost by that: a type can be read off the start of a text, since the text
behind it starts with a comma or a closing bracket or is empty.  So types that are written alike
have the same shape, and methods that are written alike have the same name and parameters of the
same shapes.
-/

namespace ApiSurface
namespace TypeRef

/-! ## The shape of a type -/

mutual

/-- The type without nullability, annotations, what a wildcard has besides its bound, and the bound
of anything else, at every depth. -/
def shape : TypeRef → TypeRef
  | ⟨name, arguments, dimensions, bound, _, _⟩ =>
    if name = "?" then { name, bound := shapeBound bound }
    else { name, arguments := shapeList arguments, dimensions }

def shapeList : List TypeRef → List TypeRef
  | [] => []
  | t :: ts => shape t :: shapeList ts

def shapeBound : Option (WildcardBound TypeRef) → Option (WildcardBound TypeRef)
  | none => none
  | some (.upper t) => some (.upper (shape t))
  | some (.lower t) => some (.lower (shape t))

end

theorem shapeList_eq_map (ts : List TypeRef) : shapeList ts = ts.map shape := by
  induction ts with
  | nil => rfl
  | cons t ts ih => simp [shapeList, ih]

mutual

/-- The written form tells nothing but the shape. -/
theorem canonical_shape : (t : TypeRef) → t.shape.canonical = t.canonical
  | ⟨name, arguments, dimensions, bound, _, _⟩ => by
    by_cases hname : name = "?"
    · simp [shape, canonical, hname, canonicalBound_shapeBound bound]
    · simp [shape, canonical, hname, canonicalList_shapeList arguments]

theorem canonicalList_shapeList :
    (ts : List TypeRef) → canonicalList (shapeList ts) = canonicalList ts
  | [] => rfl
  | t :: ts => by
    rw [shapeList, canonicalList, canonicalList, canonical_shape t, canonicalList_shapeList ts]

theorem canonicalBound_shapeBound :
    (bound : Option (WildcardBound TypeRef)) →
      canonicalBound (shapeBound bound) = canonicalBound bound
  | none => rfl
  | some (.upper t) => by rw [shapeBound, canonicalBound, canonicalBound, canonical_shape t]
  | some (.lower t) => by rw [shapeBound, canonicalBound, canonicalBound, canonical_shape t]

end

/-! ## Names without marks -/

/-- Characters that the written form of a type uses besides those of names. -/
def marks : List Char :=
  ['<', '>', ',', '[', ']', '?', ' ']

/-- A name that is not empty and holds no mark of the written form. -/
structure IsPlainName (name : String) : Prop where
  ne_empty : name ≠ ""
  plain : ∀ c ∈ name.toList, c ∉ marks

instance (name : String) : Decidable (IsPlainName name) :=
  decidable_of_iff (name ≠ "" ∧ name.toList.all (fun c => c ∉ marks) = true)
    ⟨fun h => ⟨h.1, by simpa using h.2⟩, fun h => ⟨h.ne_empty, by simpa using h.plain⟩⟩

/-- All names in the type are plain, but for those of wildcards. -/
def IsPlain (t : TypeRef) : Prop :=
  ∀ name ∈ t.names, name = "?" ∨ IsPlainName name

instance (t : TypeRef) : Decidable t.IsPlain :=
  inferInstanceAs (Decidable (∀ name ∈ t.names, name = "?" ∨ IsPlainName name))

theorem IsPlain.isPlainName {t : TypeRef} (h : t.IsPlain) (hname : t.name ≠ "?") :
    IsPlainName t.name := by
  refine (h t.name ?_).resolve_left hname
  cases t
  simp [names]

theorem IsPlain.of_mem_arguments {t u : TypeRef} (h : t.IsPlain) (hu : u ∈ t.arguments) :
    u.IsPlain := by
  intro n hn
  refine h n ?_
  cases t
  simp [names, Signature.mem_namesList_iff.mpr ⟨u, hu, hn⟩]

theorem IsPlain.of_mem_namesBound {t : TypeRef} (h : t.IsPlain) :
    ∀ n ∈ namesBound t.bound, n = "?" ∨ IsPlainName n := by
  intro n hn
  refine h n ?_
  cases t
  simp [names, hn]

/-! ## Parts of a written type, read off a text -/

/-- The text is empty or starts with a mark that a type in front of it cannot take in. -/
def Ends (rest : List Char) : Prop :=
  ∀ c ∈ rest.head?, c = ',' ∨ c = '>'

/-- The text is empty or starts with the mark that closes a list. -/
def Closes (rest : List Char) : Prop :=
  ∀ c ∈ rest.head?, c = '>'

theorem Closes.ends {rest : List Char} (h : Closes rest) : Ends rest :=
  fun c hc => .inr (h c hc)

/-- A name is read up to the first mark. -/
theorem name_cancel
    {xs ys rest rest' : List Char} (hxs : ∀ c ∈ xs, c ∉ marks) (hys : ∀ c ∈ ys, c ∉ marks)
    (hrest : ∀ c ∈ rest.head?, c ∈ marks) (hrest' : ∀ c ∈ rest'.head?, c ∈ marks)
    (h : xs ++ rest = ys ++ rest') : xs = ys ∧ rest = rest' := by
  induction xs generalizing ys with
  | nil =>
    cases ys with
    | nil => exact ⟨rfl, h⟩
    | cons d ys =>
      rw [List.nil_append] at h
      exact absurd (hrest d (by simp [h])) (hys d List.mem_cons_self)
  | cons c xs ih =>
    cases ys with
    | nil =>
      rw [List.nil_append] at h
      exact absurd (hrest' c (by simp [← h])) (hxs c List.mem_cons_self)
    | cons d ys =>
      obtain ⟨rfl, htails⟩ := List.cons.inj h
      obtain ⟨rfl, hrest⟩ := ih (fun e he => hxs e (List.mem_cons_of_mem _ he))
        (fun e he => hys e (List.mem_cons_of_mem _ he)) htails
      exact ⟨rfl, hrest⟩

theorem toList_repeated_succ (n : Nat) :
    (Text.repeated "[]" (n + 1)).toList = '[' :: ']' :: (Text.repeated "[]" n).toList := by
  simp [Text.repeated]

/-- All dimensions are read off. -/
theorem brackets_cancel
    {m n : Nat} {rest rest' : List Char} (hrest : Ends rest) (hrest' : Ends rest')
    (h : (Text.repeated "[]" m).toList ++ rest = (Text.repeated "[]" n).toList ++ rest') :
    m = n ∧ rest = rest' := by
  induction m generalizing n with
  | zero =>
    cases n with
    | zero => exact ⟨rfl, by simpa [Text.repeated] using h⟩
    | succ n =>
      rw [toList_repeated_succ] at h
      have hhead := hrest '[' (by simpa [Text.repeated] using congrArg List.head? h)
      simp at hhead
  | succ m ih =>
    cases n with
    | zero =>
      rw [toList_repeated_succ] at h
      have hhead := hrest' '[' (by simpa [Text.repeated] using (congrArg List.head? h).symm)
      simp at hhead
    | succ n =>
      rw [toList_repeated_succ, toList_repeated_succ] at h
      obtain ⟨rfl, hrest⟩ := ih (by simpa using h)
      exact ⟨rfl, hrest⟩

/-- In front of any text that ends it, the type is known by its written form. -/
def IsTold (a : TypeRef) : Prop :=
  ∀ b : TypeRef, b.IsPlain → ∀ rest rest' : List Char, Ends rest → Ends rest' →
    a.canonical.toList ++ rest = b.canonical.toList ++ rest' → a.shape = b.shape ∧ rest = rest'

/-- Types with a separator between them that starts with a comma are read off one by one, up to
what closes the list. -/
theorem join_cancel
    (separator : String) {others : List Char} (hseparator : separator.toList = ',' :: others)
    {as bs : List TypeRef} (has : ∀ a ∈ as, IsTold a) (hbs : ∀ b ∈ bs, b.IsPlain)
    (hne : as ≠ []) (hne' : bs ≠ []) {rest rest' : List Char} (hrest : Closes rest)
    (hrest' : Closes rest')
    (h : (Text.join separator (as.map canonical)).toList ++ rest =
      (Text.join separator (bs.map canonical)).toList ++ rest') :
    as.map shape = bs.map shape ∧ rest = rest' := by
  have hcomma : ∀ cs, Ends (separator.toList ++ cs) := by
    intro cs
    simp [Ends, hseparator]
  have hnotcomma : ∀ {cs ds}, Closes cs → cs ≠ separator.toList ++ ds := by
    rintro cs ds hcs rfl
    simp [Closes, hseparator] at hcs
  induction as generalizing bs with
  | nil => exact absurd rfl hne
  | cons a as ih =>
    obtain ⟨b, bs, rfl⟩ := List.exists_cons_of_ne_nil hne'
    have ha := has a List.mem_cons_self b (hbs b List.mem_cons_self)
    cases as with
    | nil =>
      cases bs with
      | nil =>
        obtain ⟨hshape, hrests⟩ := ha rest rest' hrest.ends hrest'.ends h
        exact ⟨by simp [hshape], hrests⟩
      | cons b' bs =>
        simp only [List.map_cons, List.map_nil, Text.join, String.toList_append,
          List.append_assoc] at h
        exact absurd (ha _ _ hrest.ends (hcomma _) h).2 (hnotcomma hrest)
    | cons a' as =>
      cases bs with
      | nil =>
        simp only [List.map_cons, List.map_nil, Text.join, String.toList_append,
          List.append_assoc] at h
        exact absurd (ha _ _ (hcomma _) hrest'.ends h).2.symm (hnotcomma hrest')
      | cons b' bs =>
        simp only [List.map_cons, Text.join, String.toList_append, List.append_assoc] at h
        obtain ⟨hshape, htails⟩ := ha _ _ (hcomma _) (hcomma _) h
        have hothers : ∀ t ∈ b' :: bs, t.IsPlain := fun t ht => hbs t (List.mem_cons_of_mem _ ht)
        obtain ⟨hshapes, hrests⟩ := ih (fun t ht => has t (List.mem_cons_of_mem _ ht)) hothers
          (List.cons_ne_nil _ _) (List.cons_ne_nil _ _) (List.append_cancel_left htails)
        exact ⟨congrArg₂ List.cons hshape hshapes, hrests⟩

/-- Arguments in angle brackets, if there are any. -/
def angle (ts : List TypeRef) : List Char :=
  if ts = [] then [] else '<' :: ((Text.join ", " (ts.map canonical)).toList ++ ['>'])

theorem angle_cancel
    {as bs : List TypeRef} (has : ∀ a ∈ as, IsTold a) (hbs : ∀ b ∈ bs, b.IsPlain)
    {rest rest' : List Char} (hrest : '<' ∉ rest.head?) (hrest' : '<' ∉ rest'.head?)
    (h : angle as ++ rest = angle bs ++ rest') : as.map shape = bs.map shape ∧ rest = rest' := by
  by_cases hne : as = []
  · by_cases hne' : bs = []
    · simpa [angle, hne, hne'] using h
    · refine absurd ?_ hrest
      simpa [angle, hne, hne'] using congrArg List.head? h
  · by_cases hne' : bs = []
    · refine absurd ?_ hrest'
      simpa [angle, hne, hne'] using (congrArg List.head? h).symm
    · simp only [angle, hne, hne', if_false, List.cons_append, List.append_assoc,
        List.cons.injEq, true_and, List.nil_append] at h
      have hclosed : ∀ cs, Closes ('>' :: cs) := by simp [Closes]
      obtain ⟨hshapes, hrests⟩ := join_cancel ", " rfl has hbs hne hne'
        (hclosed _) (hclosed _) h
      exact ⟨hshapes, (List.cons.inj hrests).2⟩

section Written

variable {name : String} {arguments : List TypeRef} {dimensions : Nat}
  {bound : Option (WildcardBound TypeRef)} {nullability : Nullability}
  {annotations : List Annotation}

theorem toList_canonical_wildcard :
    (canonical ⟨"?", arguments, dimensions, bound, nullability, annotations⟩).toList =
      '?' :: (canonicalBound bound).toList := by
  simp [canonical]

theorem toList_canonical_named (hname : name ≠ "?") :
    (canonical ⟨name, arguments, dimensions, bound, nullability, annotations⟩).toList =
      name.toList ++ (angle arguments ++ (Text.repeated "[]" dimensions).toList) := by
  rw [canonical, if_neg hname, canonicalList_eq_map]
  cases arguments with
  | nil => simp [angle]
  | cons t ts => simp [angle]

/-- Behind the name of a type there is a mark or nothing. -/
theorem head_behind_name {rest : List Char} (hrest : Ends rest) :
    ∀ c ∈ (angle arguments ++ ((Text.repeated "[]" dimensions).toList ++ rest)).head?,
      c ∈ marks := by
  intro c hc
  by_cases hne : arguments = []
  · cases dimensions with
    | zero =>
      have hc : c ∈ rest.head? := by simpa [angle, hne, Text.repeated] using hc
      rcases hrest c hc with rfl | rfl <;> simp [marks]
    | succ n =>
      obtain rfl : c = '[' := by
        rw [toList_repeated_succ] at hc
        simpa [angle, hne, eq_comm] using hc
      simp [marks]
  · obtain rfl : c = '<' := by simpa [angle, hne, eq_comm] using hc
    simp [marks]

theorem head_behind_arguments {rest : List Char} (hrest : Ends rest) :
    '<' ∉ ((Text.repeated "[]" dimensions).toList ++ rest).head? := by
  cases dimensions with
  | zero =>
    intro hc
    have hc := hrest '<' (by simpa [Text.repeated] using hc)
    simp at hc
  | succ n =>
    rw [toList_repeated_succ]
    simp

end Written

/-! ## Types read off a text -/

/-- A bound is read off behind the mark of a wildcard. -/
theorem bound_cancel
    {u v : Option (WildcardBound TypeRef)} {rest rest' : List Char}
    (hu : ∀ t, u = some (.upper t) ∨ u = some (.lower t) → IsTold t)
    (hv : ∀ n ∈ namesBound v, n = "?" ∨ IsPlainName n) (hrest : Ends rest) (hrest' : Ends rest')
    (h : (canonicalBound u).toList ++ rest = (canonicalBound v).toList ++ rest') :
    shapeBound u = shapeBound v ∧ rest = rest' := by
  have hspace : ∀ {cs : List Char}, Ends cs → ' ' ∉ cs.head? := by
    intro cs hcs hc
    have hc := hcs ' ' hc
    simp at hc
  match u, v with
  | none, none => exact ⟨rfl, by simpa [canonicalBound] using h⟩
  | none, some (.upper t) | none, some (.lower t) =>
    refine absurd ?_ (hspace hrest)
    simpa [canonicalBound] using congrArg List.head? h
  | some (.upper t), none | some (.lower t), none =>
    refine absurd ?_ (hspace hrest')
    simpa [canonicalBound] using (congrArg List.head? h).symm
  | some (.upper t), some (.lower t') | some (.lower t), some (.upper t') =>
    -- the two words differ in their first letter
    simp [canonicalBound] at h
  | some (.upper t), some (.upper t') =>
    obtain ⟨hshape, hrests⟩ := hu t (.inl rfl) t' hv rest rest' hrest hrest'
      (by simpa [canonicalBound] using h)
    exact ⟨by rw [shapeBound, shapeBound, hshape], hrests⟩
  | some (.lower t), some (.lower t') =>
    obtain ⟨hshape, hrests⟩ := hu t (.inr rfl) t' hv rest rest' hrest hrest'
      (by simpa [canonicalBound] using h)
    exact ⟨by rw [shapeBound, shapeBound, hshape], hrests⟩

/-- A type is known by its written form if the types in it are. -/
theorem isTold_of_parts
    {name : String} {arguments : List TypeRef} {dimensions : Nat}
    {bound : Option (WildcardBound TypeRef)} {nullability : Nullability}
    {annotations : List Annotation} (hname : name ≠ "?" → IsPlainName name)
    (harguments : ∀ t ∈ arguments, IsTold t)
    (hbound : ∀ t, bound = some (.upper t) ∨ bound = some (.lower t) → IsTold t) :
    IsTold ⟨name, arguments, dimensions, bound, nullability, annotations⟩ := by
  rintro ⟨name', arguments', dimensions', bound', nullability', annotations'⟩ hplain rest rest'
    hrest hrest' h
  -- the written form of a wildcard starts with a mark, all others with a character of a name
  have hstart : ∀ {n cs ds}, IsPlainName n → n.toList ++ cs ≠ '?' :: ds := by
    intro n cs ds hn
    obtain ⟨c, others, hchars⟩ := List.exists_cons_of_ne_nil
      (fun hnil => hn.ne_empty (String.toList_inj.mp hnil) : n.toList ≠ [])
    have hc := hn.plain c (by rw [hchars]; exact List.mem_cons_self)
    have hne : c ≠ '?' := by
      rintro rfl
      exact hc (by simp [marks])
    rw [hchars]
    simp [hne]
  by_cases hwild : name = "?"
  · by_cases hwild' : name' = "?"
    · subst hwild hwild'
      rw [toList_canonical_wildcard, toList_canonical_wildcard, List.cons_append,
        List.cons_append] at h
      obtain ⟨hshape, hrests⟩ :=
        bound_cancel hbound hplain.of_mem_namesBound hrest hrest' (List.cons.inj h).2
      exact ⟨by simp [shape, hshape], hrests⟩
    · subst hwild
      rw [toList_canonical_wildcard, toList_canonical_named hwild', List.append_assoc] at h
      exact absurd h.symm (hstart (hplain.isPlainName hwild'))
  · by_cases hwild' : name' = "?"
    · subst hwild'
      rw [toList_canonical_wildcard, toList_canonical_named hwild, List.append_assoc] at h
      exact absurd h (hstart (hname hwild))
    · rw [toList_canonical_named hwild, toList_canonical_named hwild'] at h
      simp only [List.append_assoc] at h
      obtain ⟨hnames, h⟩ := name_cancel (hname hwild).plain (hplain.isPlainName hwild').plain
        (head_behind_name hrest) (head_behind_name hrest') h
      obtain ⟨hshapes, h⟩ := angle_cancel harguments (fun _ => hplain.of_mem_arguments)
        (head_behind_arguments hrest) (head_behind_arguments hrest') h
      obtain ⟨rfl, hrests⟩ := brackets_cancel hrest hrest' h
      obtain rfl := String.toList_inj.mp hnames
      refine ⟨?_, hrests⟩
      rw [shape, shape, if_neg hwild, if_neg hwild, shapeList_eq_map, shapeList_eq_map, hshapes]

mutual

theorem isTold : (t : TypeRef) → t.IsPlain → IsTold t
  | ⟨_, arguments, _, bound, _, _⟩, h =>
    isTold_of_parts h.isPlainName (isTold_of_mem arguments fun _ => h.of_mem_arguments)
      (isTold_of_bound bound h.of_mem_namesBound)

theorem isTold_of_mem : (ts : List TypeRef) → (∀ t ∈ ts, t.IsPlain) → ∀ t ∈ ts, IsTold t
  | [], _ => by simp
  | t :: ts, h => by
    rw [List.forall_mem_cons] at h ⊢
    exact ⟨isTold t h.1, isTold_of_mem ts h.2⟩

theorem isTold_of_bound :
    (bound : Option (WildcardBound TypeRef)) →
      (∀ n ∈ namesBound bound, n = "?" ∨ IsPlainName n) →
      ∀ t, bound = some (.upper t) ∨ bound = some (.lower t) → IsTold t
  | none, _ => by simp
  | some (.upper t), h => by
    rintro t' (heq | heq)
    · cases heq
      exact isTold t h
    · cases heq
  | some (.lower t), h => by
    rintro t' (heq | heq)
    · cases heq
    · cases heq
      exact isTold t h

end

/-- Types without marks in their names are the same type if and only if they have one shape. -/
theorem sameType_iff_shape_eq {a b : TypeRef} (ha : a.IsPlain) (hb : b.IsPlain) :
    a.sameType b = true ↔ a.shape = b.shape := by
  rw [sameType, beq_iff_eq]
  constructor
  · intro h
    have hnil : Ends [] := by simp [Ends]
    exact (isTold a ha b hb [] [] hnil hnil (by rw [h])).1
  · intro h
    rw [← canonical_shape a, ← canonical_shape b, h]

end TypeRef

/-! ## Parameter lists -/

namespace Method

open TypeRef (IsPlain)

theorem canonical_ne_empty {t : TypeRef} (h : t.IsPlain) : t.canonical.toList ≠ [] := by
  obtain ⟨name, arguments, dimensions, bound, nullability, annotations⟩ := t
  by_cases hname : name = "?"
  · subst hname
    simp [TypeRef.toList_canonical_wildcard]
  · have hne := (h.isPlainName hname).ne_empty
    simp [TypeRef.toList_canonical_named hname, hne]

/-- Texts that are not empty have a text that is not empty when they are joined. -/
theorem join_ne_empty {ts : List TypeRef} (hne : ts ≠ []) (h : ∀ t ∈ ts, t.IsPlain) :
    (Text.join "," (ts.map TypeRef.canonical)).toList ≠ [] := by
  obtain ⟨t, ts, rfl⟩ := List.exists_cons_of_ne_nil hne
  have ht := canonical_ne_empty (h t List.mem_cons_self)
  cases ts with
  | nil => exact ht
  | cons u us => simp [Text.join]

/-- Lists of types with commas between them are written alike if and only if the types are, one
by one. -/
theorem join_eq_iff
    {as bs : List TypeRef} (has : ∀ a ∈ as, a.IsPlain) (hbs : ∀ b ∈ bs, b.IsPlain) :
    Text.join "," (as.map TypeRef.canonical) = Text.join "," (bs.map TypeRef.canonical) ↔
      as.map TypeRef.canonical = bs.map TypeRef.canonical := by
  refine ⟨fun h => ?_, fun h => by rw [h]⟩
  by_cases hne : as = []
  · by_cases hne' : bs = []
    · rw [hne, hne']
    · refine absurd ?_ (join_ne_empty hne' hbs)
      rw [← h, hne]
      rfl
  · by_cases hne' : bs = []
    · refine absurd ?_ (join_ne_empty hne has)
      rw [h, hne']
      rfl
    · have hnil : TypeRef.Closes [] := by simp [TypeRef.Closes]
      obtain ⟨hshapes, -⟩ := TypeRef.join_cancel "," rfl
        (fun a ha => TypeRef.isTold a (has a ha)) hbs hne hne' hnil hnil (by rw [h])
      have hcanonical : ∀ ts : List TypeRef,
          ts.map TypeRef.canonical = (ts.map TypeRef.shape).map TypeRef.canonical := by
        intro ts
        simp [TypeRef.canonical_shape]
      rw [hcanonical as, hcanonical bs, hshapes]

/-- Without parentheses in the names, a name and what is in parentheses behind it are told by the
text that they make up. -/
theorem parenthesised_eq_iff
    {name name' inside inside' : String} (hname : '(' ∉ name.toList) (hname' : '(' ∉ name'.toList) :
    name ++ "(" ++ inside ++ ")" = name' ++ "(" ++ inside' ++ ")" ↔
      name = name' ∧ inside = inside' := by
  refine ⟨fun h => ?_, fun ⟨hn, hi⟩ => by rw [hn, hi]⟩
  have hlists : name.toList ++ '(' :: (inside.toList ++ [')']) =
      name'.toList ++ '(' :: (inside'.toList ++ [')']) := by
    simpa using congrArg String.toList h
  have htake : ∀ {xs rest : List Char}, '(' ∉ xs →
      (xs ++ '(' :: rest).takeWhile (· != '(') = xs := by
    intro xs rest hxs
    have hall : ∀ c ∈ xs, (c != '(') = true := by
      intro c hc
      exact bne_iff_ne.mpr fun heq => hxs (heq ▸ hc)
    rw [List.takeWhile_append_of_pos hall]
    simp
  have hnames : name.toList = name'.toList := by
    rw [← htake hname, hlists, htake hname']
  rw [hnames] at hlists
  have hinside := (List.cons.inj (List.append_cancel_left hlists)).2
  exact ⟨String.toList_inj.mp hnames, String.toList_inj.mp (List.append_cancel_right hinside)⟩

end Method

/-- Comparing written forms compares types and parameter lists: types whose names hold no marks are
the same type if and only if they have one shape, and methods with such parameter types and no
parentheses in their names have one exact signature if and only if they have one name and as many
parameters, of the same types one by one. -/
theorem sameType_and_exactSignature :
    (∀ a b : TypeRef, a.IsPlain → b.IsPlain → (a.sameType b = true ↔ a.shape = b.shape)) ∧
      ∀ m n : Method, (∀ c ∈ m.name.toList, c ≠ '(' ∧ c ≠ ')') →
        (∀ c ∈ n.name.toList, c ≠ '(' ∧ c ≠ ')') →
        (∀ p ∈ m.parameters, p.type.IsPlain) → (∀ p ∈ n.parameters, p.type.IsPlain) →
        (m.exactSignature = n.exactSignature ↔
          m.name = n.name ∧
            List.Forall₂ (fun p q => p.type.sameType q.type = true) m.parameters n.parameters) := by
  refine ⟨fun a b ha hb => TypeRef.sameType_iff_shape_eq ha hb, fun m n hm hn hmp hnp => ?_⟩
  have htypes : ∀ k : Method, k.parameterText =
      Text.join "," ((k.parameters.map Parameter.type).map TypeRef.canonical) := by
    intro k
    rw [List.map_map]
    rfl
  have hplain : ∀ {k : Method}, (∀ p ∈ k.parameters, p.type.IsPlain) →
      ∀ t ∈ k.parameters.map Parameter.type, t.IsPlain := by
    intro k hk t ht
    obtain ⟨p, hp, rfl⟩ := List.mem_map.mp ht
    exact hk p hp
  rw [Method.exactSignature, Method.exactSignature,
    Method.parenthesised_eq_iff (fun hc => (hm _ hc).1 rfl) (fun hc => (hn _ hc).1 rfl),
    htypes m, htypes n, Method.join_eq_iff (hplain hmp) (hplain hnp), List.map_map, List.map_map,
    ← List.forall₂_eq_eq_eq, List.forall₂_map_left_iff, List.forall₂_map_right_iff]
  simp [TypeRef.sameType]

/-- A method whose parameter holds a wildcard with an array as its bound. -/
def gather : Method :=
  { name := "gather", owner := "Store", modifiers := {}, returnType := none
    parameters :=
      [{ type :=
          { name := "Map"
            arguments :=
              [{ name := "K" },
               { name := "?"
                 bound := some (.upper { name := "List", arguments := [{ name := "V" }]
                                         dimensions := 1 }) }] } },
       { type := { name := "int" } }] }

/-- The method with what is written nowhere: nullability, and dimensions of the wildcard. -/
def gatherNoted : Method :=
  { name := "gather", owner := "Shelf", modifiers := {}, returnType := none
    parameters :=
      [{ type :=
          { name := "Map"
            arguments :=
              [{ name := "K", nullability := .nullable },
               { name := "?", dimensions := 2
                 bound := some (.upper { name := "List", arguments := [{ name := "V" }]
                                         dimensions := 1 }) }]
            nullability := .nonNull } },
       { type := { name := "int" } }] }

theorem gather_exactSignature :
    gather.exactSignature = gatherNoted.exactSignature ∧
      ∀ p ∈ gather.parameters, ∀ q ∈ gatherNoted.parameters,
        (p.type.sameType q.type = true ↔ p.type.shape = q.type.shape) := by
  have hplain : ∀ p ∈ gather.parameters, p.type.IsPlain := by decide +kernel
  have hplain' : ∀ p ∈ gatherNoted.parameters, p.type.IsPlain := by decide +kernel
  refine ⟨(sameType_and_exactSignature.2 gather gatherNoted (by simp [gather])
    (by simp [gatherNoted]) hplain hplain').mpr ⟨rfl, ?_⟩, fun p hp q hq =>
      sameType_and_exactSignature.1 p.type q.type (hplain p hp) (hplain' q hq)⟩
  exact .cons (by decide +kernel) (.cons (by decide +kernel) .nil)

end ApiSurface
