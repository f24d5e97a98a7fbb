import ApiSurface.Proofs.Spelling
import ApiSurface.Signature.Reader.Basic

/-!
# Readers on tokens that show signs

Readers look at the kind and the text of tokens only, apart from values kept as written.  So what a
reader gives is determined by the signs that the tokens show, and a reader is described by the signs
that it takes and by what it makes of them.
-/

namespace ApiSurface

/-! ## Computations that may fail -/

theorem bind_eq_ok
    {ε α β : Type} {x : Except ε α} {f : α → Except ε β} {b : β} :
    (x >>= f) = .ok b ↔ ∃ a, x = .ok a ∧ f a = .ok b := by
  cases x with
  | error e =>
    constructor
    · intro h
      cases h
    · rintro ⟨a, h, -⟩
      cases h
  | ok a =>
    constructor
    · intro h
      exact ⟨a, rfl, h⟩
    · rintro ⟨a', h, hb⟩
      cases h
      exact hb

theorem ok_bind {ε α β : Type} (a : α) (f : α → Except ε β) : (Except.ok a >>= f) = f a :=
  rfl

theorem pure_eq_ok {ε α : Type} (a : α) : (pure a : Except ε α) = .ok a :=
  rfl

/-! ## Signs in front -/

namespace Sign

def isMark (s : Sign) (mark : String) : Bool :=
  s.kind == .punctuation && s.text == mark

def isWord (s : Sign) (word : String) : Bool :=
  s.kind == .identifier && s.text == word

def isName (s : Sign) : Bool :=
  s.kind == .identifier

@[simp]
theorem isMark_mark (a b : String) : (mark a).isMark b = (a == b) := by
  simp [isMark, mark]

@[simp]
theorem isMark_word (a b : String) : (word a).isMark b = false := by
  simp [isMark, word]

@[simp]
theorem isWord_word (a b : String) : (word a).isWord b = (a == b) := by
  simp [isWord, word]

@[simp]
theorem isWord_mark (a b : String) : (mark a).isWord b = false := by
  simp [isWord, mark]

@[simp]
theorem isName_word (a : String) : (word a).isName = true :=
  rfl

@[simp]
theorem isName_mark (a : String) : (mark a).isName = false :=
  rfl

end Sign

theorem Token.isWord_iff {t : Token} {word : String} :
    t.isWord word = true ↔ t.kind = .identifier ∧ t.text = word := by
  simp [Token.isWord]

theorem Token.Shows.isMark_eq
    {t : Token} {s : Sign} (h : t.Shows s) (mark : String) : t.isMark mark = s.isMark mark := by
  simp only [Token.isMark, Sign.isMark, h.kind, h.text]
  rfl

theorem Token.Shows.isWord_eq
    {t : Token} {s : Sign} (h : t.Shows s) (word : String) : t.isWord word = s.isWord word := by
  simp only [Token.isWord, Sign.isWord, h.kind, h.text]
  rfl

namespace Renders

variable {ts : List Token} {signs others : List Sign}

theorem length_eq (h : Renders ts signs) : ts.length = signs.length :=
  List.Forall₂.length_eq h

/-- Tokens that show signs one list behind another fall into two parts likewise. -/
theorem of_append (h : Renders ts (signs ++ others)) :
    ∃ us vs, ts = us ++ vs ∧ Renders us signs ∧ Renders vs others := by
  induction signs generalizing ts with
  | nil => exact ⟨[], ts, rfl, .nil, h⟩
  | cons s signs ih =>
    cases h with
    | cons hs hrest =>
      obtain ⟨us, vs, rfl, hus, hvs⟩ := ih hrest
      exact ⟨_ :: us, vs, rfl, .cons hs hus, hvs⟩

theorem tail (h : Renders ts signs) : Renders ts.tail signs.tail := by
  cases h with
  | nil => exact .nil
  | cons _ hrest => exact hrest

end Renders

/-! ## Tokens of a scan -/

/-- Tokens that a scan gives, or what is left of them. -/
def Scanned (ts : List Token) : Prop :=
  ∃ file p cs s, Scan.scanFrom file p cs = .ok s ∧ s.tokens = ts

theorem Scanned.tail {ts : List Token} (h : Scanned ts) : Scanned ts.tail := by
  obtain ⟨file, p, cs, s, hs, htokens⟩ := h
  rcases Scan.scanFrom_cases hs with
    ⟨_, _, hnil⟩ | ⟨_, _, _, _, rest, u, us, p', _, _, hcons, _, _, _, _, h'⟩
  · rw [← htokens, hnil]
    exact ⟨file, p, cs, s, hs, hnil⟩
  · rw [← htokens, hcons]
    exact ⟨file, p', rest, _, h', rfl⟩

theorem Scanned.append
    {ts us : List Token} (h : Scanned (ts ++ us)) : Scanned us := by
  induction ts with
  | nil => exact h
  | cons t ts ih => exact ih h.tail

theorem Scanned.isLexeme
    {t : Token} {ts : List Token} (h : Scanned (t :: ts)) :
    Scan.IsLexeme ⟨t.kind, t.text.toList, t.lexeme.toList⟩ := by
  obtain ⟨file, p, cs, s, hs, htokens⟩ := h
  rcases Scan.scanFrom_cases hs with
    ⟨_, _, hnil⟩ | ⟨_, _, _, l, _, u, us, _, hblank, hlexeme, hcons, hkind, htext, _, hsource, _⟩
  · rw [hnil] at htokens
    cases htokens
  · rw [hcons] at htokens
    cases htokens
    rw [hkind, htext, hsource, String.toList_ofList, String.toList_ofList]
    exact Scan.isLexeme_of_cut hblank hlexeme

theorem Scanned.isName
    {t : Token} {ts : List Token} (h : Scanned (t :: ts)) (hkind : t.kind = .identifier) :
    Scan.IsName t.text := by
  have hlexeme := h.isLexeme
  have htext : t.text.toList = t.lexeme.toList := hlexeme.identifier hkind
  rwa [hkind, ← htext] at hlexeme

namespace Signature

theorem atMark_of_renders
    {ts : List Token} {signs : List Sign} (h : Renders ts signs) (mark : String) :
    atMark mark ts = signs.head?.any fun s => s.isMark mark := by
  cases h with
  | nil => rfl
  | cons hs _ => exact hs.isMark_eq mark

theorem atWord_of_renders
    {ts : List Token} {signs : List Sign} (h : Renders ts signs) (word : String) :
    atWord word ts = signs.head?.any fun s => s.isWord word := by
  cases h with
  | nil => rfl
  | cons hs _ => exact hs.isWord_eq word

theorem atName_of_renders
    {ts : List Token} {signs : List Sign} (h : Renders ts signs) :
    atName ts = signs.head?.any Sign.isName := by
  cases h with
  | nil => rfl
  | cons hs _ => simp [atName, Sign.isName, hs.kind]

/-- The signs do not start with the mark. -/
def NotAt (mark : String) (signs : List Sign) : Prop :=
  (signs.head?.any fun s => s.isMark mark) = false

@[simp]
theorem notAt_nil (mark : String) : NotAt mark [] :=
  rfl

@[simp]
theorem notAt_mark {a b : String} {signs : List Sign} : NotAt b (.mark a :: signs) ↔ a ≠ b := by
  simp [NotAt]

@[simp]
theorem notAt_word {mark a : String} {signs : List Sign} : NotAt mark (.word a :: signs) := by
  simp [NotAt]

theorem atMark_eq_false
    {ts : List Token} {signs : List Sign} (h : Renders ts signs) {mark : String}
    (hmark : NotAt mark signs) : atMark mark ts = false :=
  (atMark_of_renders h mark).trans hmark

/-- The first of the signs is one of the given ones. -/
def At (options signs : List Sign) : Prop :=
  ∃ s ∈ options, ∃ others, signs = s :: others

theorem At.cons {options : List Sign} {s : Sign} (h : s ∈ options) (signs : List Sign) :
    At options (s :: signs) :=
  ⟨s, h, signs, rfl⟩

theorem At.mono
    {options others signs : List Sign} (h : At options signs)
    (hsubset : ∀ s ∈ options, s ∈ others) :
    At others signs := by
  obtain ⟨s, hs, js, rfl⟩ := h
  exact .cons (hsubset s hs) js

theorem At.notAt
    {options signs : List Sign} (h : At options signs) {mark : String}
    (hnot : ∀ s ∈ options, s.isMark mark = false) : NotAt mark signs := by
  obtain ⟨s, hs, js, rfl⟩ := h
  exact hnot s hs

theorem At.atMark_eq_false
    {options signs : List Sign} (h : At options signs) {ts : List Token} (hts : Renders ts signs)
    {mark : String} (hnot : ∀ s ∈ options, s.isMark mark = false) : atMark mark ts = false :=
  Signature.atMark_eq_false hts (h.notAt hnot)

theorem At.atWord_eq_false
    {options signs : List Sign} (h : At options signs) {ts : List Token} (hts : Renders ts signs)
    {word : String} (hnot : ∀ s ∈ options, s.isWord word = false) : atWord word ts = false := by
  obtain ⟨s, hs, js, rfl⟩ := h
  exact (atWord_of_renders hts word).trans (hnot s hs)

theorem At.atName_eq_false
    {options signs : List Sign} (h : At options signs) {ts : List Token} (hts : Renders ts signs)
    (hnot : ∀ s ∈ options, s.isName = false) : atName ts = false := by
  obtain ⟨s, hs, js, rfl⟩ := h
  exact (atName_of_renders hts).trans (hnot s hs)

/-! ## Readers described by signs -/

/-- In front of signs with the property `F`, the reader takes the given signs and gives `x`. -/
def ReadsAs {α : Type} (r : Reader α) (F : List Sign → Prop) (signs : List Sign) (x : α) : Prop :=
  ∀ ts others, F others → Renders ts (signs ++ others) →
    ∃ ts', r ts = .ok (x, ts') ∧ Renders ts' others

/-- In front of signs with the property `F`, the reader takes the given signs and comes to the
outcome, which may be a fault that tells nothing of where it was found. -/
def ReadsTo {α : Type} (r : Reader α) (F : List Sign → Prop) (signs : List Sign)
    (outcome : Except Fault α) : Prop :=
  ∀ ts others, F others → Renders ts (signs ++ others) →
    ∃ ts', Renders ts' others ∧ r ts = outcome.map fun x => (x, ts')

namespace Source

theorem expectMark_of_renders
    (src : Source) {mark : String} {ts : List Token} {others : List Sign}
    (h : Renders ts (.mark mark :: others)) :
    ∃ ts', src.expectMark mark ts = .ok ts' ∧ Renders ts' others := by
  refine ⟨ts.tail, ?_, h.tail⟩
  rw [expectMark, atMark_of_renders h]
  simp

theorem expectName_of_renders
    (src : Source) (what : String) {name : String} {ts : List Token} {others : List Sign}
    (h : Renders ts (.word name :: others)) :
    ∃ ts', src.expectName what ts = .ok (name, ts') ∧ Renders ts' others := by
  cases h with
  | cons hs hrest =>
    refine ⟨_, ?_, hrest⟩
    have hkind := hs.kind
    have htext := hs.text
    simp only [Sign.word] at hkind htext
    rw [expectName, if_pos hkind, htext]

/-! ## Lists -/

section Lists

variable {α β : Type} (src : Source) {item : Reader α} {F G : List Sign → Prop}
  {signs : β → List Sign} {value : β → α} {xs : List β} {rounds : Nat}

/-- Items with commas between them are read up to the closing mark. -/
theorem readsAs_list
    {close : String} (hclose : close ≠ ",") (hcomma : ∀ js, F (.mark "," :: js))
    (hend : ∀ js, F (.mark close :: js)) (hne : xs ≠ []) (hrounds : xs.length ≤ rounds)
    (hitems : ∀ x ∈ xs, ReadsAs item F (signs x) (value x)) :
    ReadsAs (src.readList item close rounds) (fun _ => True)
      (Scan.separated (.mark ",") (xs.map signs) ++ [.mark close]) (xs.map value) := by
  induction xs generalizing rounds with
  | nil => exact absurd rfl hne
  | cons x xs ih =>
    obtain ⟨rounds, rfl⟩ : ∃ n, rounds = n + 1 := ⟨rounds - 1, by simp at hrounds; omega⟩
    have hx := hitems x List.mem_cons_self
    intro ts others _ hts
    cases xs with
    | nil =>
      obtain ⟨ts', hread, hts'⟩ := hx ts (.mark close :: others) (hend others) (by simpa using hts)
      refine ⟨ts'.tail, ?_, hts'.tail⟩
      rw [readList, hread, ok_bind]
      simp only [atMark_of_renders hts']
      simp [pure_eq_ok]
    | cons y ys =>
      have hother := ih (List.cons_ne_nil y ys) (by simpa using hrounds)
        fun z hz => hitems z (List.mem_cons_of_mem _ hz)
      obtain ⟨ts₁, hread, hts₁⟩ := hx ts _ (hcomma _) (by
        simpa [Scan.separated_cons_cons] using hts)
      obtain ⟨ts₂, hexpect, hts₂⟩ := src.expectMark_of_renders hts₁
      obtain ⟨ts₃, hlist, hts₃⟩ := hother ts₂ others trivial (by simpa using hts₂)
      refine ⟨ts₃, ?_, hts₃⟩
      have hopen : atMark close ts₁ = false := by
        rw [atMark_of_renders hts₁]
        simpa using hclose.symm
      rw [readList, hread, ok_bind]
      simp only [hopen, hexpect, hlist, ok_bind]
      simp [pure_eq_ok]

/-- Items with marks between them are read up to where no mark follows. -/
theorem readsAs_separated
    {mark : String} (hmark : ∀ js, F (.mark mark :: js))
    (hend : ∀ js, G js → F js ∧ NotAt mark js) (hne : xs ≠ [])
    (hrounds : xs.length ≤ rounds) (hitems : ∀ x ∈ xs, ReadsAs item F (signs x) (value x)) :
    ReadsAs (src.readSeparated item mark rounds) G
      (Scan.separated (.mark mark) (xs.map signs)) (xs.map value) := by
  induction xs generalizing rounds with
  | nil => exact absurd rfl hne
  | cons x xs ih =>
    obtain ⟨rounds, rfl⟩ : ∃ n, rounds = n + 1 := ⟨rounds - 1, by simp at hrounds; omega⟩
    have hx := hitems x List.mem_cons_self
    intro ts others hG hts
    cases xs with
    | nil =>
      obtain ⟨ts', hread, hts'⟩ := hx ts others (hend others hG).1 hts
      refine ⟨ts', ?_, hts'⟩
      rw [readSeparated, hread, ok_bind]
      simp only [atMark_eq_false hts' (hend others hG).2]
      simp [pure_eq_ok]
    | cons y ys =>
      have hother := ih (List.cons_ne_nil y ys) (by simpa using hrounds)
        fun z hz => hitems z (List.mem_cons_of_mem _ hz)
      obtain ⟨ts₁, hread, hts₁⟩ := hx ts _ (hmark _) (by
        simpa [Scan.separated_cons_cons] using hts)
      obtain ⟨ts₂, hlist, hts₂⟩ := hother ts₁.tail others hG hts₁.tail
      refine ⟨ts₂, ?_, hts₂⟩
      rw [readSeparated, hread, ok_bind]
      simp only [atMark_of_renders hts₁, hlist, ok_bind]
      simp [pure_eq_ok]

end Lists

end Source

end Signature

end ApiSurface
