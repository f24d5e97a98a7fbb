import ApiSurface.Proofs.AnnotationPlaces

/-!
# The type variables that are looked up ahead

The look ahead takes a name for a declared one if it stands first in the list or right behind a
comma, outside of inner angle brackets.  It does not tell the comma between two variables from one
among the arguments of an annotation.  So the declared names are all found, in order, and nothing
else is found exactly if no argument of an annotation on a bound starts with a name behind a comma.
-/

namespace ApiSurface
namespace Signature

theorem kind_of_isMark {t : Token} {mark : String} (h : t.isMark mark = true) :
    t.kind = .punctuation := by
  simp only [Token.isMark, Bool.and_eq_true, decide_eq_true_eq] at h
  exact h.1

/-! ## Names behind commas -/

/-- Behind some comma comes a name, and what is in front of the comma is as given. -/
def NamesBehindComma (within : List Token → Prop) (ts : List Token) : Prop :=
  ∃ front comma name behind, ts = front ++ comma :: name :: behind ∧ comma.isMark "," = true ∧
    name.kind = .identifier ∧ within front

/-- Some argument of an annotation starts with a name, behind the comma that ends the argument
before it and outside of angle brackets. -/
def NamesArgument (ts : List Token) : Prop :=
  NamesBehindComma
    (fun front => Brackets.angle.depth front = 0 ∧ 0 < Brackets.arguments.depth front) ts

section NamesBehindComma

variable {within : List Token → Prop} {t : Token} {ts us : List Token}

theorem not_namesBehindComma_nil : ¬ NamesBehindComma within [] := by
  rintro ⟨front, comma, name, behind, h, -⟩
  simp at h

theorem namesBehindComma_cons :
    NamesBehindComma within (t :: ts) ↔
      (t.isMark "," = true ∧ (∃ name ∈ ts.head?, name.kind = .identifier) ∧ within []) ∨
        NamesBehindComma (fun front => within (t :: front)) ts := by
  constructor
  · rintro ⟨front, comma, name, behind, h, hcomma, hname, hwithin⟩
    cases front with
    | nil =>
      obtain ⟨rfl, rfl⟩ := List.cons.inj h
      exact .inl ⟨hcomma, ⟨name, rfl, hname⟩, hwithin⟩
    | cons v front =>
      obtain ⟨rfl, rfl⟩ := List.cons.inj h
      exact .inr ⟨front, comma, name, behind, rfl, hcomma, hname, hwithin⟩
  · rintro (⟨hcomma, ⟨name, hhead, hname⟩, hwithin⟩ |
      ⟨front, comma, name, behind, rfl, hcomma, hname, hwithin⟩)
    · obtain ⟨behind, rfl⟩ := List.head?_eq_some_iff.mp hhead
      exact ⟨[], t, name, behind, rfl, hcomma, hname, hwithin⟩
    · exact ⟨t :: front, comma, name, behind, rfl, hcomma, hname, hwithin⟩

/-- A mark keeps apart what is in front of it from what is behind. -/
theorem namesBehindComma_append (ht : t.kind = .punctuation) :
    NamesBehindComma within (ts ++ t :: us) ↔
      NamesBehindComma within ts ∨
        NamesBehindComma (fun front => within (ts ++ front)) (t :: us) := by
  induction ts generalizing within with
  | nil => simp [not_namesBehindComma_nil]
  | cons v ts ih =>
    have hhead : (∃ name ∈ (ts ++ t :: us).head?, name.kind = .identifier) ↔
        ∃ name ∈ ts.head?, name.kind = .identifier := by
      cases ts with
      | nil => simp [ht]
      | cons w ts => simp
    rw [List.cons_append, namesBehindComma_cons, namesBehindComma_cons, ih, hhead, or_assoc]
    rfl

end NamesBehindComma

/-! ## What is gathered -/

/-- Nothing is gathered if and only if the first token is no name that is due and no name stands
behind a comma outside of inner angle brackets. -/
theorem declaredVariables_eq_nil_iff
    (depth : Nat) (due : Bool) {ts : List Token} (hdue : due = true → depth = 0)
    (hopen : ∀ front behind, ts = front ++ behind → 0 ≤ depth + Brackets.angle.depth front) :
    declaredVariables (depth + 1) due ts = [] ↔
      (due = true → ∀ t ∈ ts.head?, t.kind ≠ .identifier) ∧
        ¬ NamesBehindComma (fun front => depth + Brackets.angle.depth front = 0) ts := by
  -- Along the tokens, a name is due only outside of inner brackets, and the list stays open.
  induction ts generalizing depth due with
  | nil => simp [declaredVariables, not_namesBehindComma_nil]
  | cons t ts ih =>
    have hopen' : ∀ front behind, ts = front ++ behind →
        0 ≤ depth + (Brackets.angle.change t + Brackets.angle.depth front) := by
      rintro front behind rfl
      simpa using hopen (t :: front) behind rfl
    simp only [namesBehindComma_cons, declaredVariables, Brackets.depth_nil, Brackets.depth_cons]
    by_cases hless : t.isMark "<" = true
    · have hchange : Brackets.angle.change t = 1 := by simp [Brackets.change_angle, hless]
      have hcomma := isMark_of_isMark hless (show "<" ≠ "," by decide)
      have hnext := ih (depth + 1) false (by simp) fun front behind h => by
        have hfront := hopen' front behind h
        omega
      rw [if_pos hless, show (depth + 1 == 0) = false from rfl, hnext]
      simp [hcomma, hchange, kind_of_isMark hless, add_assoc]
    by_cases hgreater : t.isMark ">" = true
    · have hchange : Brackets.angle.change t = -1 := by
        simp [Brackets.change_angle, hless, hgreater]
      have hcomma := isMark_of_isMark hgreater (show ">" ≠ "," by decide)
      -- The list goes on behind the bracket, so an inner one ends here.
      have hinner : 0 ≤ (depth : Int) + -1 := by simpa [hchange] using hopen' [] ts rfl
      obtain ⟨depth, rfl⟩ : ∃ d, depth = d + 1 := ⟨depth - 1, by omega⟩
      obtain rfl : due = false := by simpa using hdue
      have hnext := ih depth false (by simp) fun front behind h => by
        have hfront := hopen' front behind h
        omega
      rw [if_neg hless, if_pos hgreater, if_neg (by omega), Nat.add_sub_cancel, hnext]
      simp [hcomma, hchange]
    have hchange : Brackets.angle.change t = 0 := by simp [Brackets.change_angle, hless, hgreater]
    rw [if_neg hless, if_neg hgreater]
    simp only [hchange, zero_add] at hopen' ⊢
    by_cases hcomma : (t.isMark "," && depth + 1 == 1) = true
    · obtain ⟨hcomma', hdepth⟩ := Bool.and_eq_true_iff.mp hcomma
      obtain rfl : depth = 0 := by simpa using hdepth
      rw [if_pos hcomma, ih _ _ (by simp) hopen']
      simp [hcomma', kind_of_isMark hcomma']
    rw [if_neg hcomma]
    by_cases hname : (t.kind == .identifier && due) = true
    · obtain ⟨hkind, rfl⟩ := Bool.and_eq_true_iff.mp hname
      simp [(beq_iff_eq ..).mp hkind]
    · have hfirst : due = true → t.kind ≠ .identifier := by
        rintro rfl hkind
        simp [hkind] at hname
      have hinner : t.isMark "," = true → depth ≠ 0 := by
        rintro hmark rfl
        simp [hmark] at hcomma
      rw [if_neg hname, ih _ _ (by simp) hopen']
      simp +contextual [hfirst, hinner]

/-! ## What is gathered between balanced brackets -/

namespace Balanced

variable {commas : Bool} {t v : Token} {ts us : List Token}

/-- The brackets around arguments are no angle brackets. -/
theorem change_angle_arguments
    {mark : String} (hmark : mark ∈ Brackets.arguments.opening ++ Brackets.arguments.closing)
    (h : t.isMark mark = true) : Brackets.angle.change t = 0 := by
  have hother : ∀ mark ∈ Brackets.arguments.opening ++ Brackets.arguments.closing,
      mark ∉ Brackets.angle.opening ∧ mark ∉ Brackets.angle.closing := by decide
  obtain ⟨hopening, hclosing⟩ := hother mark hmark
  rw [Brackets.change_of_isMark h, if_neg hopening, if_neg hclosing]

theorem closes_angle (h : Balanced commas ts) : Brackets.angle.Closes ts := by
  induction h with
  | nil => exact Brackets.closes_nil
  | single hangle _ _ => exact Brackets.closes_singleton hangle
  | append _ _ ih ih' => exact ih.append ih'
  | angle hopen hclose _ ih =>
    exact ih.wrap (Brackets.change_of_isMark hopen _) (Brackets.change_of_isMark hclose _)
  | arguments hmark hopen hmark' hclose _ ih =>
    have ht := change_angle_arguments (List.mem_append_left _ hmark) hopen
    have hu := change_angle_arguments (List.mem_append_right _ hmark') hclose
    exact ((Brackets.closes_singleton ht).append ih).append (Brackets.closes_singleton hu)

theorem closes_arguments (h : Balanced commas ts) : Brackets.arguments.Closes ts := by
  induction h with
  | nil => exact Brackets.closes_nil
  | single _ harguments _ => exact Brackets.closes_singleton harguments
  | append _ _ ih ih' => exact ih.append ih'
  | angle hopen hclose _ ih =>
    have ht := Brackets.closes_singleton (Brackets.change_of_isMark hopen Brackets.arguments)
    have hu := Brackets.closes_singleton (Brackets.change_of_isMark hclose Brackets.arguments)
    exact (ht.append ih).append hu
  | arguments hmark hopen hmark' hclose _ ih =>
    have hother : ∀ mark ∈ Brackets.arguments.closing, mark ∉ Brackets.arguments.opening := by
      decide
    refine ih.wrap ?_ ?_
    · rw [Brackets.change_of_isMark hopen, if_pos hmark]
    · rw [Brackets.change_of_isMark hclose, if_neg (hother _ hmark'), if_pos hmark']

/-- What is in front of a token between brackets starts with the opening one. -/
theorem exists_inner
    {u : Token} {front behind : List Token} (h : t :: ts ++ [u] = front ++ v :: behind)
    (hne : t ≠ v) : ∃ inner more, front = t :: inner ∧ ts = inner ++ more := by
  cases front with
  | nil => exact absurd (List.cons.inj h).1 hne
  | cons w inner =>
    obtain ⟨rfl, hinner⟩ := List.cons.inj h
    rcases List.append_eq_append_iff.mp hinner with ⟨more, rfl, hmore⟩ | ⟨more, rfl, -⟩
    · rcases List.singleton_eq_append_iff.mp hmore with ⟨rfl, -⟩ | ⟨-, hnil⟩
      · exact ⟨ts, [], by simp, by simp⟩
      · simp at hnil
    · exact ⟨inner, more, rfl, rfl⟩

/-- Commas that are in no angle brackets are among arguments. -/
theorem depth_arguments_pos
    {front behind : List Token} (h : Balanced false ts) (hts : ts = front ++ v :: behind)
    (hcomma : v.isMark "," = true) (hangle : Brackets.angle.depth front = 0) :
    0 < Brackets.arguments.depth front := by
  generalize hfalse : false = strict at h
  induction h generalizing front behind with
  | nil => simp at hts
  | single _ _ hplain =>
    rcases List.singleton_eq_append_iff.mp hts with ⟨-, hv⟩ | ⟨-, hnil⟩
    · obtain ⟨rfl, -⟩ := List.cons.inj hv
      simp [hplain hfalse.symm] at hcomma
    · simp at hnil
  | @append _ ts us hfront hbehind ih ih' =>
    rcases List.append_eq_append_iff.mp hts with ⟨more, rfl, hmore⟩ | ⟨more, rfl, hmore⟩
    · have hdepth := hfront.closes_arguments.depth_eq
      have hdepth' := hfront.closes_angle.depth_eq
      rw [Brackets.depth_append, hdepth', zero_add] at hangle
      rw [Brackets.depth_append, hdepth, zero_add]
      exact ih' hmore hangle hfalse
    · cases more with
      | nil =>
        have hpos : 0 < Brackets.arguments.depth [] := ih' hmore.symm rfl hfalse
        simp at hpos
      | cons w more =>
        obtain ⟨rfl, -⟩ := List.cons.inj hmore
        exact ih rfl hangle hfalse
  | @angle _ t u ts hopen hclose hinner _ =>
    obtain ⟨inner, more, rfl, rfl⟩ := exists_inner hts (by
      rintro rfl
      simp [isMark_of_isMark hopen (show "<" ≠ "," by decide)] at hcomma)
    have hnonneg := hinner.closes_angle.nonneg inner more rfl
    have hchange : Brackets.angle.change t = 1 := Brackets.change_of_isMark hopen _
    rw [Brackets.depth_cons] at hangle
    omega
  | @arguments _ t u ts mark close hmark hopen _ _ hinner _ =>
    obtain ⟨inner, more, rfl, rfl⟩ := exists_inner hts (by
      rintro rfl
      have hother : mark ≠ "," := by rintro rfl; revert hmark; decide
      simp [isMark_of_isMark hopen hother] at hcomma)
    have hnonneg := hinner.closes_arguments.nonneg inner more rfl
    have hchange : Brackets.arguments.change t = 1 := by
      rw [Brackets.change_of_isMark hopen, if_pos hmark]
    rw [Brackets.depth_cons]
    omega

/-- In bounds, only arguments of annotations are gathered. -/
theorem declaredVariables_eq_nil_iff (h : Balanced false ts) :
    declaredVariables 1 false ts = [] ↔ ¬ NamesArgument ts := by
  have hopen : ∀ front behind, ts = front ++ behind →
      0 ≤ ((0 : Nat) : Int) + Brackets.angle.depth front := fun front behind hts => by
    simpa using h.closes_angle.nonneg front behind hts
  rw [Signature.declaredVariables_eq_nil_iff 0 false (by simp) hopen]
  simp only [Bool.false_eq_true, false_implies, true_and, Nat.cast_zero, zero_add, not_iff_not]
  constructor
  · rintro ⟨front, comma, name, behind, hts, hcomma, hname, hangle⟩
    exact ⟨front, comma, name, behind, hts, hcomma, hname, hangle,
      h.depth_arguments_pos hts hcomma hangle⟩
  · rintro ⟨front, comma, name, behind, hts, hcomma, hname, hangle, -⟩
    exact ⟨front, comma, name, behind, hts, hcomma, hname, hangle⟩

/-- The comma behind the bounds is no comma among arguments. -/
theorem namesArgument_append (h : Balanced false ts) (hcomma : v.isMark "," = true) :
    NamesArgument (ts ++ v :: us) ↔ NamesArgument ts ∨ NamesArgument us := by
  have hchange : ∀ b : Brackets, b = .angle ∨ b = .arguments → b.change v = 0 := by
    rintro b (rfl | rfl) <;> exact Brackets.change_of_isMark hcomma _
  rw [NamesArgument, namesBehindComma_append (kind_of_isMark hcomma), namesBehindComma_cons]
  simp [NamesArgument, h.closes_angle.depth_eq, h.closes_arguments.depth_eq, hchange]

theorem declaredVariables_append (h : Balanced false ts) (hcomma : v.isMark "," = true) :
    declaredVariables 1 false (ts ++ v :: us) =
      declaredVariables 1 false ts ++ declaredVariables 1 true us := by
  obtain ⟨due, hnames⟩ := h.isPassed.declaredVariables_append 0 false
  have hnext : declaredVariables 1 due (v :: us) = declaredVariables 1 true us := by
    simp [declaredVariables, hcomma, isMark_of_isMark hcomma]
  exact (hnames (v :: us)).trans (by rw [hnext])

end Balanced

/-! ## Lists of type variables -/

section NamesArgument

variable {t : Token} {ts : List Token}

theorem namesArgument_name (ht : t.kind = .identifier) :
    NamesArgument (t :: ts) ↔ NamesArgument ts := by
  have hmark : t.isMark "," = false := by simp [Token.isMark, ht]
  have hchange : ∀ b : Brackets, b.change t = 0 := fun b => b.change_of_kind (by simp [ht])
  rw [NamesArgument, namesBehindComma_cons]
  simp [NamesArgument, hmark, hchange]

theorem declaredVariables_name (ht : t.kind = .identifier) :
    declaredVariables 1 true (t :: ts) = t.text :: declaredVariables 1 false ts := by
  simp [declaredVariables, Token.isMark, ht]

end NamesArgument

/-- The look into a list finds all the names in order, and others only where arguments name them. -/
structure Finds (ts : List Token) (names : List String) : Prop where
  balanced : Balanced true ts
  sublist : names.Sublist (declaredVariables 1 true ts)
  eq_iff : declaredVariables 1 true ts = names ↔ ¬ NamesArgument ts

section Finds

variable {t v : Token} {bounds ts : List Token} {names : List String}

theorem finds_variable (ht : t.kind = .identifier) (hbounds : Balanced false bounds) :
    Finds (t :: bounds) [t.text] where
  balanced := (Balanced.name (by simp [ht])).append hbounds.weaken
  sublist := by simp [declaredVariables_name ht]
  eq_iff := by
    rw [declaredVariables_name ht, namesArgument_name ht, ← hbounds.declaredVariables_eq_nil_iff]
    simp

theorem Finds.cons
    (h : Finds ts names) (ht : t.kind = .identifier) (hbounds : Balanced false bounds)
    (hcomma : v.isMark "," = true) : Finds (t :: bounds ++ v :: ts) (t.text :: names) where
  balanced :=
    (finds_variable ht hbounds).balanced.append ((Balanced.comma hcomma).append h.balanced)
  sublist := by
    rw [List.cons_append, declaredVariables_name ht, hbounds.declaredVariables_append hcomma]
    exact (h.sublist.trans (List.sublist_append_right ..)).cons_cons _
  eq_iff := by
    rw [List.cons_append, declaredVariables_name ht, hbounds.declaredVariables_append hcomma,
      namesArgument_name ht, hbounds.namesArgument_append hcomma, not_or, ← h.eq_iff,
      ← hbounds.declaredVariables_eq_nil_iff, List.cons.injEq]
    constructor
    · rintro ⟨-, hnames⟩
      -- The names are already in what is gathered behind the comma, which leaves no room in front.
      have hlength := congrArg List.length hnames
      have hle := h.sublist.length_le
      rw [List.length_append] at hlength
      have hnil := List.length_eq_zero_iff.mp
        (show (declaredVariables 1 false bounds).length = 0 by omega)
      rw [hnil, List.nil_append] at hnames
      exact ⟨hnil, hnames⟩
    · rintro ⟨hnil, hnames⟩
      exact ⟨rfl, by rw [hnil, hnames, List.nil_append]⟩

end Finds

namespace Source

variable {src : Source} {ts rest : List Token}

theorem exists_of_readTypeParameter
    {p : TypeParameter} (h : src.readTypeParameter ts = .ok (p, rest)) :
    ∃ t bounds, ts = t :: bounds ++ rest ∧ t.kind = .identifier ∧ t.text = p.name ∧
      Balanced false bounds := by
  obtain ⟨⟨name, ts₁⟩, hname, h⟩ := bind_eq_ok.mp h
  obtain ⟨⟨refs, ts₂⟩, hrefs, h⟩ := bind_eq_ok.mp h
  cases h
  cases ts with
  | nil => cases hname
  | cons t ts =>
    rw [expectName] at hname
    split at hname
    · rename_i hkind
      cases hname
      obtain ⟨bounds, rfl, hbounds, -⟩ := yields_bounds _ _ _ hrefs
      exact ⟨t, bounds, rfl, hkind, rfl, hbounds⟩
    · cases hname

/-- Items with marks between them: one item, and others behind a mark. -/
theorem exists_of_readSeparated
    {α : Type} {item : Reader α} {mark : String} {rounds : Nat} {xs : List α}
    (h : src.readSeparated item mark (rounds + 1) ts = .ok (xs, rest)) :
    ∃ x ts₁, item ts = .ok (x, ts₁) ∧ (xs = [x] ∧ ts₁ = rest ∨
      ∃ v ts₂ others, ts₁ = v :: ts₂ ∧ v.isMark mark = true ∧
        src.readSeparated item mark rounds ts₂ = .ok (others, rest) ∧ xs = x :: others) := by
  obtain ⟨⟨x, ts₁⟩, hx, hxs⟩ := bind_eq_ok.mp h
  refine ⟨x, ts₁, hx, ?_⟩
  simp only at hxs
  split at hxs
  · cases hxs
    exact .inl ⟨rfl, rfl⟩
  · rename_i hat
    obtain ⟨⟨others, ts₂⟩, hothers, hxs⟩ := bind_eq_ok.mp hxs
    cases hxs
    cases ts₁ with
    | nil => simp [atMark] at hat
    | cons v ts₁ => exact .inr ⟨v, ts₁, others, rfl, by simpa [atMark] using hat, hothers, rfl⟩

theorem finds_of_readSeparated
    {rounds : Nat} {ps : List TypeParameter}
    (h : src.readSeparated src.readTypeParameter "," rounds ts = .ok (ps, rest)) :
    ∃ used, ts = used ++ rest ∧ Finds used (ps.map TypeParameter.name) := by
  induction rounds generalizing ts ps with
  | zero => cases h
  | succ rounds ih =>
    obtain ⟨p, ts₁, hp, hps⟩ := exists_of_readSeparated h
    obtain ⟨t, bounds, rfl, hkind, hname, hbounds⟩ := exists_of_readTypeParameter hp
    rcases hps with ⟨rfl, rfl⟩ | ⟨v, ts₂, others, rfl, hcomma, hothers, rfl⟩
    · refine ⟨t :: bounds, rfl, ?_⟩
      rw [List.map_singleton, ← hname]
      exact finds_variable hkind hbounds
    · obtain ⟨used, rfl, hfinds⟩ := ih hothers
      refine ⟨t :: bounds ++ v :: used, by simp, ?_⟩
      rw [List.map_cons, ← hname]
      exact hfinds.cons hkind hbounds hcomma

/-- If a list of type variables is read, the look ahead finds the names of all the variables, in
order.  It finds nothing else if and only if no argument of an annotation in the list starts with a
name behind a comma, outside of inner angle brackets. -/
theorem variablesAhead_eq_names_iff
    {ps : List TypeParameter} (hat : atMark "<" ts = true)
    (h : src.readTypeParameters ts = .ok (ps, rest)) :
    ∃ t inner u, ts = t :: inner ++ u :: rest ∧ t.isMark "<" = true ∧ u.isMark ">" = true ∧
      (ps.map TypeParameter.name).Sublist (variablesAhead ts) ∧
      (variablesAhead ts = ps.map TypeParameter.name ↔ ¬ NamesArgument inner) := by
  rw [readTypeParameters, hat] at h
  obtain ⟨⟨xs, ts₁⟩, hitems, h⟩ := bind_eq_ok.mp h
  obtain ⟨ts₂, hclose, h⟩ := bind_eq_ok.mp h
  cases h
  obtain ⟨inner, hinner, hfinds⟩ := finds_of_readSeparated hitems
  obtain ⟨u, rfl, hu⟩ := exists_of_expectMark hclose
  cases ts with
  | nil => cases hat
  | cons t ts =>
    obtain rfl : ts = inner ++ u :: rest := hinner
    have hlook := variablesAhead_angle hat hu hfinds.balanced.isPassed rest
    refine ⟨t, inner, u, rfl, hat, hu, ?_, ?_⟩
    · rw [hlook]
      exact hfinds.sublist
    · rw [hlook]
      exact hfinds.eq_iff

end Source

/-- Two type variables, the first with a bound that uses the second and has annotations, among them
one with named arguments inside of inner angle brackets. -/
def pulleyTokens : List Token :=
  tokensOf ("<S extends @a.Grade(\x7bfrom, 2, 3\x7d) b.Pair<T, @a.Grade(from=1, to=2) T>, " ++
    "T extends c.Box & d.Kept> S")

theorem variablesAhead_pulleyTokens :
    ∃ ps rest t inner u, leverSource.readTypeParameters pulleyTokens = .ok (ps, rest) ∧
      pulleyTokens = t :: inner ++ u :: rest ∧ ¬ NamesArgument inner ∧
      Source.variablesAhead pulleyTokens = ["S", "T"] ∧ ps.map TypeParameter.name = ["S", "T"] := by
  have hread : (leverSource.readTypeParameters pulleyTokens).toOption.map
      (fun read => read.1.map TypeParameter.name) = some ["S", "T"] := by decide +kernel
  have hahead : Source.variablesAhead pulleyTokens = ["S", "T"] := by decide +kernel
  cases hps : leverSource.readTypeParameters pulleyTokens with
  | error fault => simp [hps, Except.toOption] at hread
  | ok read =>
    have hnames : read.1.map TypeParameter.name = ["S", "T"] := by
      simpa [hps, Except.toOption] using hread
    obtain ⟨t, inner, u, hts, -, -, -, hiff⟩ :=
      Source.variablesAhead_eq_names_iff (by decide +kernel) hps
    have hplain := hiff.mp (hahead.trans hnames.symm)
    exact ⟨read.1, read.2, t, inner, u, rfl, hts, hplain, hahead, hnames⟩

/-- A type variable with a bound that has an annotation with two named arguments. -/
def winchTokens : List Token :=
  tokensOf "<T extends @b.Range(from=1, String=2) java.lang.Number>"

/-- The name of the second argument is taken for that of a type variable. -/
theorem variablesAhead_winchTokens :
    ∃ ps, leverSource.readTypeParameters winchTokens = .ok (ps, []) ∧
      ps.map TypeParameter.name = ["T"] ∧ Source.variablesAhead winchTokens = ["T", "String"] := by
  refine ⟨[{ name := "T", bounds := [
    { name := "java.lang.Number", nullability := .nonNull, annotations := [
      { name := "b.Range"
        attributes :=
          [("from", .literal (.number "1")), ("String", .literal (.number "2"))] }] }] }],
    ?_, rfl, ?_⟩ <;> decide +kernel

end Signature
end ApiSurface
