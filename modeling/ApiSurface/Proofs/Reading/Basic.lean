import ApiSurface.Proofs.Bracketing
import ApiSurface.Proofs.Rendering

/-!
# What readers take and give

What is known of a reader is said once: the tokens that it takes have a shape, and what it gives for
tokens of a scan has a property.  The brackets are balanced in what readers of annotations and types
take.  Declarations have values in them that are kept as written, so what their readers take may
have any shape.

A reader is followed line by line.  What a line gives is known from the reader that the line calls,
and is a hypothesis about the lines behind it.
-/

namespace ApiSurface
namespace Signature

/-- Tokens of any shape. -/
def AnyShape (_ : List Token) : Prop :=
  True

/-- Balanced tokens have the shape, and so have tokens that have it one behind another. -/
class IsShape (shape : List Token → Prop) : Prop where
  of_balanced {ts : List Token} (h : Balanced false ts) : shape ts
  append {ts us : List Token} (hts : shape ts) (hus : shape us) : shape (ts ++ us)

instance : IsShape AnyShape where
  of_balanced _ := trivial
  append _ _ := trivial

instance (commas : Bool) : IsShape (Balanced commas) where
  of_balanced := Balanced.weaken
  append := Balanced.append

/-- Balanced tokens, one at least. -/
def Solid (ts : List Token) : Prop :=
  Balanced false ts ∧ ts ≠ []

/-- Tokens of a shape, with a closing mark behind them. -/
def ClosedBy (close : String) (shape : List Token → Prop) (ts : List Token) : Prop :=
  ∃ inner u, ts = inner ++ [u] ∧ shape inner ∧ u.isMark close = true

/-- If there is a result, the tokens taken for it have the shape; if they are tokens of a scan, the
result and the tokens that are left have the property `P`. -/
def Gives {α : Type} (shape : List Token → Prop) (ts : List Token)
    (outcome : Except Fault (α × List Token)) (P : α → List Token → Prop) : Prop :=
  ∀ x rest, outcome = .ok (x, rest) →
    ∃ used, ts = used ++ rest ∧ shape used ∧ (Scanned ts → P x rest)

/-- Whatever the reader gives has the property `P`. -/
def Yields {α : Type} (shape : List Token → Prop) (r : Reader α) (P : α → Prop) : Prop :=
  ∀ ts, Gives shape ts (r ts) fun x _ => P x

section

variable {α β : Type} {shape first second : List Token → Prop} {ts : List Token}
  {outcome : Except Fault (α × List Token)} {P P' : α → List Token → Prop}
  {Q : β → List Token → Prop}

theorem gives_error (fault : Fault) : Gives shape ts (.error fault) P := by
  intro x rest h
  cases h

theorem gives_ok [IsShape shape] {x : α} (hx : Scanned ts → P x ts) :
    Gives shape ts (.ok (x, ts)) P := by
  intro y rest h
  cases h
  exact ⟨[], rfl, IsShape.of_balanced .nil, hx⟩

/-- One token is taken. -/
theorem gives_token
    {t : Token} {x : α} (ht : shape [t]) (hx : Scanned (t :: ts) → P x ts) :
    Gives shape (t :: ts) (.ok (x, ts)) P := by
  intro y rest h
  cases h
  exact ⟨[t], rfl, ht, hx⟩

namespace Gives

theorem imp (h : Gives shape ts outcome P) (himp : ∀ x rest, P x rest → P' x rest) :
    Gives shape ts outcome P' := by
  intro x rest hx
  obtain ⟨used, hused, hshape, hP⟩ := h x rest hx
  exact ⟨used, hused, hshape, fun hts => himp x rest (hP hts)⟩

theorem mono (h : Gives first ts outcome P) (hshape : ∀ used, first used → shape used) :
    Gives shape ts outcome P := by
  intro x rest hx
  obtain ⟨used, hused, hfirst, hP⟩ := h x rest hx
  exact ⟨used, hused, hshape used hfirst, hP⟩

theorem loosen [IsShape shape] (h : Gives (Balanced false) ts outcome P) :
    Gives shape ts outcome P :=
  h.mono fun _ => IsShape.of_balanced

theorem balanced (h : Gives Solid ts outcome P) : Gives (Balanced false) ts outcome P :=
  h.mono fun _ => And.left

theorem anyShape (h : Gives shape ts outcome P) : Gives AnyShape ts outcome P :=
  h.mono fun _ _ => trivial

/-- What is left are tokens of a scan again. -/
theorem apply
    (h : Gives shape ts outcome P) (hts : Scanned ts) {x : α} {rest : List Token}
    (hx : outcome = .ok (x, rest)) : P x rest ∧ Scanned rest := by
  obtain ⟨used, rfl, -, hP⟩ := h x rest hx
  exact ⟨hP hts, hts.append⟩

theorem length_le
    (h : Gives shape ts outcome P) {x : α} {rest : List Token} (hx : outcome = .ok (x, rest)) :
    rest.length ≤ ts.length := by
  obtain ⟨used, rfl, -, -⟩ := h x rest hx
  simp

theorem length_lt
    (h : Gives Solid ts outcome P) {x : α} {rest : List Token} (hx : outcome = .ok (x, rest)) :
    rest.length < ts.length := by
  obtain ⟨used, rfl, ⟨-, hne⟩, -⟩ := h x rest hx
  simpa using List.length_pos_iff.mpr hne

theorem seq
    {next : α × List Token → Except Fault (β × List Token)} (h : Gives first ts outcome P)
    (hnext : ∀ x rest, outcome = .ok (x, rest) →
      Gives second rest (next (x, rest)) fun y others => P x rest → Q y others)
    (hshape : ∀ used more, first used → second more → shape (used ++ more)) :
    Gives shape ts (outcome >>= next) Q := by
  intro y others hy
  obtain ⟨⟨x, rest⟩, hx, hy⟩ := bind_eq_ok.mp hy
  obtain ⟨used, rfl, hfirst, hP⟩ := h x rest hx
  obtain ⟨more, rfl, hsecond, hQ⟩ := hnext x rest hx y others hy
  exact ⟨used ++ more, (List.append_assoc ..).symm, hshape used more hfirst hsecond,
    fun hts => hQ hts.append (hP hts)⟩

theorem bind_of_eq
    [IsShape shape] {next : α × List Token → Except Fault (β × List Token)}
    (h : Gives shape ts outcome P)
    (hnext : ∀ x rest, outcome = .ok (x, rest) →
      Gives shape rest (next (x, rest)) fun y others => P x rest → Q y others) :
    Gives shape ts (outcome >>= next) Q :=
  h.seq hnext fun _ _ => IsShape.append

/-- A line that calls a reader. -/
theorem bind
    [IsShape shape] {next : α × List Token → Except Fault (β × List Token)}
    (h : Gives shape ts outcome P)
    (hnext : ∀ x rest, Gives shape rest (next (x, rest)) fun y others => P x rest → Q y others) :
    Gives shape ts (outcome >>= next) Q :=
  h.bind_of_eq fun x rest _ => hnext x rest

/-- A line that calls a reader, in front of lines that read up to a closing mark. -/
theorem bindTo
    {close : String} [IsShape shape] {next : α × List Token → Except Fault (β × List Token)}
    (h : Gives shape ts outcome P)
    (hnext : ∀ x rest, Gives (ClosedBy close shape) rest (next (x, rest)) fun y others =>
      P x rest → Q y others) :
    Gives (ClosedBy close shape) ts (outcome >>= next) Q := by
  refine h.seq (fun x rest _ => hnext x rest) ?_
  rintro used _ hused ⟨inner, u, rfl, hinner, hu⟩
  exact ⟨used ++ inner, u, (List.append_assoc ..).symm, IsShape.append hused hinner, hu⟩

/-- Something that is read without a fault. -/
theorem readOver
    [IsShape shape] {x : α} {rest : List Token} {next : Except Fault (β × List Token)}
    (h : Gives shape ts (.ok (x, rest)) P)
    (hnext : Gives shape rest next fun y others => P x rest → Q y others) :
    Gives shape ts next Q := by
  have hbind : Gives shape ts (.ok (x, rest) >>= fun _ => next) Q := by
    refine h.bind_of_eq fun y others heq => ?_
    cases heq
    exact hnext
  exact hbind

/-- A line that makes something else of what was given. -/
theorem map
    {next : α × List Token → Except Fault (β × List Token)} {g : α → β}
    (h : Gives shape ts outcome P) (hnext : ∀ x rest, next (x, rest) = .ok (g x, rest))
    (hQ : ∀ x rest, P x rest → Q (g x) rest) : Gives shape ts (outcome >>= next) Q := by
  intro y others hy
  obtain ⟨⟨x, rest⟩, hx, hy⟩ := bind_eq_ok.mp hy
  rw [hnext] at hy
  cases hy
  obtain ⟨used, hused, hshape, hP⟩ := h x _ hx
  exact ⟨used, hused, hshape, fun hts => hQ x _ (hP hts)⟩

/-- A token that is read over. -/
theorem cons
    [IsShape shape] {t : Token} (h : Gives shape ts outcome P) (ht : shape [t]) :
    Gives shape (t :: ts) outcome P := by
  intro x rest hx
  obtain ⟨used, rfl, hused, hP⟩ := h x rest hx
  exact ⟨[t] ++ used, rfl, IsShape.append ht hused, fun hts => hP hts.tail⟩

theorem closedBy_cons
    [IsShape shape] {close : String} {t : Token} (h : Gives (ClosedBy close shape) ts outcome P)
    (ht : shape [t]) : Gives (ClosedBy close shape) (t :: ts) outcome P := by
  intro x rest hx
  obtain ⟨used, rfl, ⟨inner, u, rfl, hinner, hu⟩, hP⟩ := h x rest hx
  exact ⟨[t] ++ (inner ++ [u]), rfl, ⟨[t] ++ inner, u, rfl, IsShape.append ht hinner, hu⟩,
    fun hts => hP hts.tail⟩

theorem mark
    [IsShape shape] {mark : String} (h : Gives shape ts.tail outcome P)
    (hat : atMark mark ts = true) (hmark : ∀ t : Token, t.isMark mark = true → shape [t]) :
    Gives shape ts outcome P := by
  cases ts with
  | nil => cases hat
  | cons t ts => exact h.cons (hmark t hat)

theorem word
    [IsShape shape] {word : String} (h : Gives shape ts.tail outcome P)
    (hat : atWord word ts = true) : Gives shape ts outcome P := by
  cases ts with
  | nil => cases hat
  | cons t ts =>
    have hkind := (Token.isWord_iff.mp hat).1
    exact h.cons (IsShape.of_balanced (.name (by simp [hkind])))

theorem tail (h : Gives AnyShape ts.tail outcome P) : Gives AnyShape ts outcome P := by
  cases ts with
  | nil => exact h
  | cons t ts => exact h.cons trivial

/-- An opening bracket in front of what is read up to the closing one. -/
theorem arguments
    {mark : String} (close : String)
    (h : Gives (ClosedBy close (Balanced true)) ts.tail outcome P)
    (hat : atMark mark ts = true) (hmark : mark ∈ Brackets.arguments.opening)
    (hclose : close ∈ Brackets.arguments.closing) : Gives Solid ts outcome P := by
  cases ts with
  | nil => cases hat
  | cons t ts =>
    intro x rest hx
    obtain ⟨_, hts, ⟨inner, u, rfl, hinner, hu⟩, hP⟩ := h x rest hx
    obtain rfl : ts = _ := hts
    exact ⟨t :: inner ++ [u], rfl, ⟨.arguments hmark hat hclose hu hinner, List.cons_ne_nil _ _⟩,
      fun hts => hP hts.tail⟩

theorem angle
    (h : Gives (ClosedBy ">" (Balanced true)) ts.tail outcome P) (hat : atMark "<" ts = true) :
    Gives (Balanced false) ts outcome P := by
  cases ts with
  | nil => cases hat
  | cons t ts =>
    intro x rest hx
    obtain ⟨_, hts, ⟨inner, u, rfl, hinner, hu⟩, hP⟩ := h x rest hx
    obtain rfl : ts = _ := hts
    exact ⟨t :: inner ++ [u], rfl, .angle hat hu hinner, fun hts => hP hts.tail⟩

end Gives

/-- A line that reads nothing. -/
theorem gives_bind
    {result : Except Fault α} {next : α → Except Fault (β × List Token)}
    (hnext : ∀ x, result = .ok x → Gives shape ts (next x) Q) :
    Gives shape ts (result >>= next) Q := by
  intro y rest hy
  obtain ⟨x, hx, hy⟩ := bind_eq_ok.mp hy
  exact hnext x hx y rest hy

theorem gives_closing
    [IsShape shape] {close : String} {x : α} (hat : atMark close ts = true)
    (hx : Scanned ts.tail → P x ts.tail) :
    Gives (ClosedBy close shape) ts (.ok (x, ts.tail)) P := by
  cases ts with
  | nil => cases hat
  | cons u ts =>
    exact gives_token ⟨[], u, rfl, IsShape.of_balanced .nil, hat⟩ fun hts => hx hts.tail

namespace Source

variable {src : Source}

theorem exists_of_expectMark
    {mark : String} {rest : List Token} (h : src.expectMark mark ts = .ok rest) :
    ∃ t, ts = t :: rest ∧ t.isMark mark = true := by
  rw [expectMark] at h
  split at h
  · rename_i hat
    cases h
    cases ts with
    | nil => cases hat
    | cons t ts => exact ⟨t, rfl, hat⟩
  · cases h

theorem gives_expectMark
    [IsShape shape] {mark : String} (hmark : ∀ t : Token, t.isMark mark = true → shape [t])
    {next : List Token → Except Fault (β × List Token)}
    (hnext : ∀ rest, Gives shape rest (next rest) Q) :
    Gives shape ts (src.expectMark mark ts >>= next) Q := by
  refine gives_bind fun rest hrest => ?_
  obtain ⟨t, rfl, ht⟩ := exists_of_expectMark hrest
  exact (hnext rest).cons (hmark t ht)

/-- A line that reads a mark in front of everything else. -/
theorem gives_expectFirst
    {mark : String} (hplain : mark ∉ listMarks)
    {next : List Token → Except Fault (β × List Token)}
    (hnext : Gives (Balanced false) ts.tail (next ts.tail) Q) :
    Gives Solid ts (src.expectMark mark ts >>= next) Q := by
  refine gives_bind fun rest hrest => ?_
  obtain ⟨t, rfl, ht⟩ := exists_of_expectMark hrest
  intro x others hx
  obtain ⟨used, hused, hbalanced, hQ⟩ := hnext x others hx
  obtain rfl : rest = used ++ others := hused
  exact ⟨t :: used, rfl, ⟨(Balanced.mark ht hplain).append hbalanced, List.cons_ne_nil _ _⟩,
    fun hts => hQ hts.tail⟩

theorem gives_expectClose
    [IsShape shape] {close : String} {next : List Token → Except Fault (β × List Token)} {y : β}
    (hnext : ∀ rest, next rest = .ok (y, rest)) (hy : ∀ rest, Q y rest) :
    Gives (ClosedBy close shape) ts (src.expectMark close ts >>= next) Q := by
  refine gives_bind fun rest hrest => ?_
  obtain ⟨u, rfl, hu⟩ := exists_of_expectMark hrest
  rw [hnext]
  exact gives_closing hu fun _ => hy rest

theorem exists_of_expectName
    {what name : String} {rest : List Token} (h : src.expectName what ts = .ok (name, rest)) :
    ∃ t, ts = t :: rest ∧ t.isWord name = true := by
  cases ts with
  | nil => cases h
  | cons t ts =>
    rw [expectName] at h
    split at h
    · rename_i hkind
      cases h
      exact ⟨t, rfl, Token.isWord_iff.mpr ⟨hkind, rfl⟩⟩
    · cases h

/-- A name is the next word. -/
theorem gives_expectName [IsShape shape] (what : String) (ts : List Token) :
    Gives shape ts (src.expectName what ts) fun name _ =>
      Scan.IsName name ∧ atWord name ts = true := by
  cases ts with
  | nil => exact gives_error _
  | cons t ts =>
    rw [expectName]
    split
    · rename_i hkind
      refine gives_token (IsShape.of_balanced (.name (by simp [hkind]))) fun hts => ?_
      exact ⟨hts.isName hkind, Token.isWord_iff.mpr ⟨hkind, rfl⟩⟩
    · exact gives_error _

variable {item : Reader α} {R : α → Prop}

theorem yields_list
    [IsShape shape] (hcomma : ∀ t : Token, t.isMark "," = true → shape [t])
    (hitem : Yields shape item R) (close : String) (rounds : Nat) :
    Yields (ClosedBy close shape) (src.readList item close rounds) fun xs => ∀ x ∈ xs, R x := by
  induction rounds with
  | zero => exact fun ts => gives_error _
  | succ rounds ih =>
    intro ts
    refine (hitem ts).bindTo fun x ts => ?_
    simp only
    split
    · rename_i hat
      exact gives_closing hat fun _ hx => List.forall_mem_singleton.mpr hx
    · refine gives_bind fun ts₁ hcomma₁ => ?_
      obtain ⟨t, rfl, ht⟩ := exists_of_expectMark hcomma₁
      refine Gives.closedBy_cons ?_ (hcomma t ht)
      refine (ih ts₁).map (fun _ _ => rfl) fun xs _ hxs hx => ?_
      exact List.forall_mem_cons.mpr ⟨hx, hxs⟩

/-- Items with marks between them are one item at least. -/
theorem yields_separated
    [IsShape shape] {mark : String} (hmark : ∀ t : Token, t.isMark mark = true → shape [t])
    (hitem : Yields shape item R) (rounds : Nat) :
    Yields shape (src.readSeparated item mark rounds) fun xs => xs ≠ [] ∧ ∀ x ∈ xs, R x := by
  induction rounds with
  | zero => exact fun ts => gives_error _
  | succ rounds ih =>
    intro ts
    refine (hitem ts).bind fun x ts => ?_
    simp only
    split
    · exact gives_ok fun _ hx => ⟨List.cons_ne_nil _ _, List.forall_mem_singleton.mpr hx⟩
    · rename_i hat
      refine Gives.mark ?_ (by simpa using hat) hmark
      refine (ih ts.tail).map (fun _ _ => rfl) fun xs _ hxs hx => ?_
      exact ⟨List.cons_ne_nil _ _, List.forall_mem_cons.mpr ⟨hx, hxs.2⟩⟩

end Source

end

end Signature
end ApiSurface
