import ApiSurface.Proofs.Lexeme
import ApiSurface.Text.Basic
import Mathlib.Data.List.Forall2

/-!
# The tokens that a text spells

A sign is what matters of a token: its kind and its text, and in a stretch that is kept as written
also its characters and the blank in front of it.  A text spells signs if putting it in front of any
other text that starts apart from it puts those signs in front of the signs of that text.  The
signs of a written text are found piece by piece in this way.
-/

namespace ApiSurface

namespace Scan

open Text (isBlank isLetter)

/-- The characters of a token, taken alone, are cut off as that token. -/
def IsLexeme (l : Lexeme) : Prop :=
  ∃ c cs, l.source = c :: cs ∧ splitBlank false (c :: cs) = ([], c :: cs) ∧
    lexeme c cs = .ok (l, [])

/-- Behind leading blanks there are no more leading blanks. -/
theorem splitBlank_idem
    {inComment : Bool} {cs blank : List Char} {c : Char} {body : List Char}
    (h : splitBlank inComment cs = (blank, c :: body)) :
    splitBlank false (c :: body) = ([], c :: body) := by
  induction cs generalizing inComment blank with
  | nil => simp [splitBlank] at h
  | cons d ds ih =>
    cases inComment with
    | true =>
      simp only [splitBlank] at h
      exact ih (Prod.ext rfl (Prod.mk.inj h).2)
    | false =>
      have hcs := h
      simp only [splitBlank] at h
      split at h
      · exact ih (Prod.ext rfl (Prod.mk.inj h).2)
      · split at h
        · exact ih (Prod.ext rfl (Prod.mk.inj h).2)
        · obtain ⟨rfl, hcons⟩ := Prod.mk.inj h
          rwa [hcons] at hcs

/-- Every token that is cut off from a text is known by its own characters. -/
theorem isLexeme_of_cut
    {cs blank body rest : List Char} {c : Char} {l : Lexeme}
    (hblank : splitBlank false cs = (blank, c :: body)) (hlexeme : lexeme c body = .ok (l, rest)) :
    IsLexeme l := by
  have happend := lexeme_append hlexeme
  obtain ⟨d, ds, hsource⟩ := List.exists_cons_of_ne_nil (lexeme_source_ne_nil hlexeme)
  rw [hsource, List.cons_append] at happend
  obtain ⟨rfl, rfl⟩ := List.cons.inj happend
  have hidem : splitBlank false (d :: ds ++ rest) = ([], (d :: ds) ++ rest) :=
    splitBlank_idem hblank
  have hstart := splitBlank_transplant (List.cons_ne_nil d ds) hidem Apart.nil
  have halone := lexeme_transplant (t := []) hlexeme Apart.nil
  simp only [List.append_nil] at hstart halone
  exact ⟨d, ds, hsource, hstart, halone⟩

/-- A token is cut off in front of any text that starts apart from it. -/
theorem IsLexeme.cut
    {l : Lexeme} (h : IsLexeme l) {rest : List Char} (hapart : Apart rest) :
    ∃ c cs, l.source ++ rest = c :: cs ∧ splitBlank false (c :: cs) = ([], c :: cs) ∧
      lexeme c cs = .ok (l, rest) := by
  obtain ⟨c, cs, hsource, hstart, halone⟩ := h
  refine ⟨c, cs ++ rest, by rw [hsource, List.cons_append], ?_, ?_⟩
  · have hempty : splitBlank false (c :: cs ++ []) = ([], (c :: cs) ++ []) := by simpa using hstart
    exact splitBlank_transplant (List.cons_ne_nil c cs) hempty hapart
  · have hempty : lexeme c (cs ++ []) = .ok (l, [] ++ []) := by simpa using halone
    exact lexeme_transplant hempty hapart

theorem lexeme_of_startsName
    {c : Char} (h : startsName c = true) (cs : List Char) :
    lexeme c cs =
      .ok (⟨.identifier, (splitName (c :: cs)).1, (splitName (c :: cs)).1⟩,
        (splitName (c :: cs)).2) := by
  unfold lexeme
  rw [if_pos h]

/-- What a token says is how it is written, but for the quotes and escapes of literals. -/
theorem lexeme_cases
    {c : Char} {cs rest : List Char} {l : Lexeme} (h : lexeme c cs = .ok (l, rest)) :
    (l.kind = .identifier ∧ l.text = l.source ∧ startsName c = true) ∨
      (l.kind = .number ∧ l.text = l.source) ∨ l.kind = .string ∨
      (l.kind = .character ∧ l.source = '\'' :: l.text ++ ['\'']) ∨
      (l.kind = .punctuation ∧ l.text = l.source) := by
  unfold lexeme at h
  split at h
  · rename_i hname
    simp only [Except.ok.injEq, Prod.mk.injEq] at h
    rw [← h.1]
    exact .inl ⟨rfl, rfl, hname⟩
  split at h
  · simp only [Except.ok.injEq, Prod.mk.injEq] at h
    rw [← h.1]
    exact .inr (.inl ⟨rfl, rfl⟩)
  split at h
  · split at h
    · cases h
    · cases h
    · simp only [Except.ok.injEq, Prod.mk.injEq] at h
      rw [← h.1]
      exact .inr (.inr (.inl rfl))
  split at h
  · rename_i hquote
    obtain rfl : c = '\'' := by simpa using hquote
    split at h
    · cases h
    · simp only [Except.ok.injEq, Prod.mk.injEq] at h
      rw [← h.1]
      exact .inr (.inr (.inr (.inl ⟨rfl, rfl⟩)))
  · split at h
    · simp only [Except.ok.injEq, Prod.mk.injEq] at h
      rw [← h.1]
      exact .inr (.inr (.inr (.inr ⟨rfl, rfl⟩)))
    · simp only [Except.ok.injEq, Prod.mk.injEq] at h
      rw [← h.1]
      exact .inr (.inr (.inr (.inr ⟨rfl, rfl⟩)))

theorem IsLexeme.identifier {l : Lexeme} (h : IsLexeme l) (hkind : l.kind = .identifier) :
    l.text = l.source := by
  obtain ⟨c, cs, -, -, halone⟩ := h
  rcases lexeme_cases halone with hl | hl | hl | hl | hl <;> simp_all

theorem IsLexeme.number {l : Lexeme} (h : IsLexeme l) (hkind : l.kind = .number) :
    l.text = l.source := by
  obtain ⟨c, cs, -, -, halone⟩ := h
  rcases lexeme_cases halone with hl | hl | hl | hl | hl <;> simp_all

theorem IsLexeme.character {l : Lexeme} (h : IsLexeme l) (hkind : l.kind = .character) :
    l.source = '\'' :: l.text ++ ['\''] := by
  obtain ⟨c, cs, -, -, halone⟩ := h
  rcases lexeme_cases halone with hl | hl | hl | hl | hl <;> simp_all

theorem startsName_of_identifier
    {c : Char} {cs rest : List Char} {l : Lexeme} (h : lexeme c cs = .ok (l, rest))
    (hkind : l.kind = .identifier) : startsName c = true := by
  rcases lexeme_cases h with hl | hl | hl | hl | hl <;> simp_all

/-- No letter is white space: the tables do not overlap. -/
theorem isBlank_eq_false_of_isLetter {c : Char} (h : isLetter c = true) : isBlank c = false := by
  have htables : (Text.letterRanges.all fun r =>
      Text.blankRanges.all fun b => r.2 < b.1 || b.2 < r.1) = true := by
    decide +kernel
  unfold isLetter at h
  unfold isBlank
  split at h
  · rename_i hascii
    rw [if_pos hascii]
    have hrange := toNat_of_isAlpha h
    have hspace : c ≠ ' ' := by
      rintro rfl
      revert h
      decide
    simp only [Bool.or_eq_false_iff, beq_eq_false_iff_ne, Bool.and_eq_false_iff,
      decide_eq_false_iff_not]
    exact ⟨hspace, .inr (by omega)⟩
  · rename_i hascii
    rw [if_neg hascii]
    obtain ⟨r, hr, hmem⟩ := List.any_eq_true.mp h
    refine List.any_eq_false.mpr fun b hb hin => ?_
    have hapart := List.all_eq_true.mp (List.all_eq_true.mp htables r hr) b hb
    simp only [Bool.and_eq_true, Bool.or_eq_true, decide_eq_true_eq] at hmem hin hapart
    omega

theorem splitBlank_of_startsName
    {c : Char} (h : startsName c = true) (cs : List Char) :
    splitBlank false (c :: cs) = ([], c :: cs) := by
  have hblank : isBlank c = false := by
    simp only [startsName, Bool.or_eq_true, beq_iff_eq] at h
    rcases h with (h | rfl) | rfl
    · exact isBlank_eq_false_of_isLetter h
    · decide
    · decide
  have hcomment : ¬ (c == '#' || c == '/' && cs.head? == some '/') = true := by
    intro hmark
    simp only [Bool.or_eq_true, Bool.and_eq_true, beq_iff_eq] at hmark
    rcases hmark with rfl | ⟨rfl, -⟩ <;> exact absurd h (by decide)
  rw [splitBlank, hblank, if_neg Bool.false_ne_true, if_neg hcomment]

def IsName (name : String) : Prop :=
  IsLexeme ⟨.identifier, name.toList, name.toList⟩

theorem isName_iff
    {name : String} :
    IsName name ↔ ∃ c cs, name.toList = c :: cs ∧ startsName c = true ∧
      splitName (c :: cs) = (c :: cs, []) := by
  constructor
  · rintro ⟨c, cs, hsource, -, halone⟩
    have hname := startsName_of_identifier halone rfl
    simp only at hsource
    rw [hsource, lexeme_of_startsName hname] at halone
    simp only [Except.ok.injEq, Prod.mk.injEq, Lexeme.mk.injEq, true_and] at halone
    exact ⟨c, cs, hsource, hname, Prod.ext halone.1.1 halone.2⟩
  · rintro ⟨c, cs, hsource, hname, hsplit⟩
    refine ⟨c, cs, hsource, splitBlank_of_startsName hname cs, ?_⟩
    rw [lexeme_of_startsName hname, hsplit, hsource]

instance (name : String) : Decidable (IsName name) :=
  decidable_of_iff
    ((name.toList.head?.any startsName && splitName name.toList == (name.toList, [])) = true) (by
      rw [isName_iff]
      cases name.toList with
      | nil => simp
      | cons c cs => simp)

/-- A name is cut off wherever names end. -/
theorem IsName.cut
    {name : String} (h : IsName name) {rest : List Char} (hends : NameEnds rest) :
    ∃ c cs, name.toList ++ rest = c :: cs ∧ splitBlank false (c :: cs) = ([], c :: cs) ∧
      lexeme c cs = .ok (⟨.identifier, name.toList, name.toList⟩, rest) := by
  obtain ⟨c, cs, hsource, hname, hsplit⟩ := isName_iff.mp h
  refine ⟨c, cs ++ rest, by rw [hsource, List.cons_append], splitBlank_of_startsName hname _, ?_⟩
  have hempty : splitName (c :: cs ++ []) = (c :: cs, [] ++ []) := by simpa using hsplit
  have hmoved := splitName_transplant hempty hends
  rw [List.cons_append] at hmoved
  rw [lexeme_of_startsName hname, hmoved, hsource]
  rfl

/-! ## Scanning one token -/

theorem scanFrom_of_cut
    {cs blank body rest : List Char} {c : Char} {l : Lexeme}
    (hblank : splitBlank false cs = (blank, c :: body)) (hlexeme : lexeme c body = .ok (l, rest))
    (file : String) (p : Position) :
    scanFrom file p cs =
      (scanFrom file ((p.skip blank).skip l.source) rest).map fun s =>
        { s with tokens :=
          { kind := l.kind, text := String.ofList l.text, blank := String.ofList blank,
            lexeme := String.ofList l.source, start := p.skip blank } :: s.tokens } := by
  rw [scanFrom]
  split
  · rename_i b hb
    rw [hblank] at hb
    cases hb
  · rename_i b d ds hb
    rw [hblank] at hb
    cases hb
    split
    · rename_i flaw hl
      rw [hlexeme] at hl
      cases hl
    · rename_i m r hl
      rw [hlexeme] at hl
      cases hl
      rfl

theorem scanFrom_of_blank
    {cs blank : List Char} (hblank : splitBlank false cs = (blank, [])) (file : String)
    (p : Position) : ∃ s, scanFrom file p cs = .ok s ∧ s.tokens = [] := by
  rw [scanFrom]
  split
  · exact ⟨_, rfl, rfl⟩
  · rename_i b d ds hb
    rw [hblank] at hb
    cases hb

/-- A scan that succeeds has met the end of the text or cut off a token. -/
theorem scanFrom_cases
    {file : String} {p : Position} {cs : List Char} {s : Scan} (h : scanFrom file p cs = .ok s) :
    (∃ blank, splitBlank false cs = (blank, []) ∧ s.tokens = []) ∨
      ∃ blank c body l rest t ts p', splitBlank false cs = (blank, c :: body) ∧
        lexeme c body = .ok (l, rest) ∧ s.tokens = t :: ts ∧ t.kind = l.kind ∧
        t.text = String.ofList l.text ∧ t.blank = String.ofList blank ∧
        t.lexeme = String.ofList l.source ∧
        scanFrom file p' rest = .ok { s with tokens := ts } := by
  match hblank : splitBlank false cs with
  | (blank, []) =>
    obtain ⟨s', hs', htokens⟩ := scanFrom_of_blank hblank file p
    rw [h] at hs'
    cases hs'
    exact .inl ⟨blank, rfl, htokens⟩
  | (blank, c :: body) =>
    cases hlexeme : lexeme c body with
    | error flaw =>
      rw [scanFrom] at h
      split at h
      · rename_i b hb
        rw [hblank] at hb
        cases hb
      · rename_i b d ds hb
        rw [hblank] at hb
        cases hb
        split at h
        · cases h
        · rename_i m r hl
          rw [hlexeme] at hl
          cases hl
    | ok x =>
      obtain ⟨l, rest⟩ := x
      rw [scanFrom_of_cut hblank hlexeme] at h
      cases hrest : scanFrom file ((p.skip blank).skip l.source) rest with
      | error fault =>
        rw [hrest] at h
        cases h
      | ok s' =>
        rw [hrest] at h
        cases h
        exact .inr ⟨blank, c, body, l, rest, _, s'.tokens, _, rfl, hlexeme, rfl, rfl, rfl, rfl, rfl,
          hrest⟩

end Scan

/-! ## Signs -/

/-- What matters of a token. -/
structure Sign where
  kind : Token.Kind
  text : String
  /-- The characters of the token, where they are kept. -/
  lexeme : Option String := none
  /-- The blank in front of the token, where it is kept. -/
  blank : Option String := none
  deriving DecidableEq

namespace Sign

def word (text : String) : Sign :=
  { kind := .identifier, text }

def mark (text : String) : Sign :=
  { kind := .punctuation, text }

end Sign

/-- The token has all that the sign tells. -/
structure Token.Shows (t : Token) (s : Sign) : Prop where
  kind : t.kind = s.kind
  text : t.text = s.text
  lexeme : ∀ l ∈ s.lexeme, t.lexeme = l
  blank : ∀ b ∈ s.blank, t.blank = b

/-- The tokens are those that the signs tell, one by one. -/
def Renders (ts : List Token) (signs : List Sign) : Prop :=
  List.Forall₂ Token.Shows ts signs

namespace Scan

open Text (isBlank)

/-- The start of the text is cut into tokens that the signs tell; the rest is left. -/
inductive Cuts : List Char → List Sign → List Char → Prop where
  | nil (cs : List Char) : Cuts cs [] cs
  | cons {cs blank body middle rest : List Char} {c : Char} {l : Lexeme} {s : Sign}
      {signs : List Sign} (hblank : splitBlank false cs = (blank, c :: body))
      (hlexeme : lexeme c body = .ok (l, middle)) (hkind : s.kind = l.kind)
      (htext : s.text = String.ofList l.text)
      (hsource : ∀ x ∈ s.lexeme, String.ofList l.source = x)
      (hfront : ∀ x ∈ s.blank, String.ofList blank = x) (hcuts : Cuts middle signs rest) :
      Cuts cs (s :: signs) rest

/-- The text is cut into tokens that the signs tell. -/
def Scans (cs : List Char) (signs : List Sign) : Prop :=
  ∃ rest, Cuts cs signs rest ∧ (splitBlank false rest).2 = []

theorem Cuts.append
    {cs middle rest : List Char} {signs others : List Sign} (h : Cuts cs signs middle)
    (hmore : Cuts middle others rest) : Cuts cs (signs ++ others) rest := by
  induction h with
  | nil cs => exact hmore
  | cons hblank hlexeme hkind htext hsource hfront _ ih =>
    exact .cons hblank hlexeme hkind htext hsource hfront (ih hmore)

/-- A text that is cut into tokens is scanned without fault. -/
theorem Scans.scanFrom_eq_ok
    {cs : List Char} {signs : List Sign} (h : Scans cs signs) (file : String) (p : Position) :
    ∃ s, scanFrom file p cs = .ok s ∧ Renders s.tokens signs := by
  obtain ⟨rest, hcuts, hend⟩ := h
  induction hcuts generalizing p with
  | nil cs =>
    obtain ⟨s, hs, htokens⟩ := scanFrom_of_blank (Prod.ext rfl hend) file p
    exact ⟨s, hs, by rw [htokens]; exact .nil⟩
  | @cons cs blank body middle rest c l s signs hblank hlexeme hkind htext hsource hfront _ ih =>
    obtain ⟨s', hs', hsigns⟩ := ih ((p.skip blank).skip l.source) hend
    rw [scanFrom_of_cut hblank hlexeme, hs']
    exact ⟨_, rfl, .cons ⟨hkind.symm, htext.symm, hsource, hfront⟩ hsigns⟩

/-- The first sign tells nothing about the blank in front of it. -/
def FreeStart (signs : List Sign) : Prop :=
  ∀ s ∈ signs.head?, s.blank = none

/-- The text is cut into tokens that the signs tell, and may be moved by blanks. -/
structure Reads (cs : List Char) (signs : List Sign) : Prop where
  free : FreeStart signs
  scans : Scans cs signs

/-- Leading blanks make no difference. -/
theorem Reads.of_remainder
    {cs cs' : List Char} {signs : List Sign} (h : Reads cs signs)
    (hremainder : (splitBlank false cs').2 = (splitBlank false cs).2) : Reads cs' signs := by
  obtain ⟨hfree, rest, hcuts, hend⟩ := h
  refine ⟨hfree, ?_⟩
  cases hcuts with
  | nil => exact ⟨cs', .nil cs', by rw [hremainder, hend]⟩
  | @cons _ blank body _ _ c _ _ _ hblank hlexeme hkind htext hsource hfront hcuts =>
    have hblank' : splitBlank false cs' = ((splitBlank false cs').1, c :: body) := by
      rw [hblank] at hremainder
      exact Prod.ext rfl hremainder
    have hnone := hfree _ rfl
    refine ⟨rest, .cons hblank' hlexeme hkind htext hsource ?_ hcuts, hend⟩
    intro x hx
    rw [hnone] at hx
    cases hx

/-! ## Texts that spell signs -/

/-- Putting the text in front of any text with the property `F` puts the signs in front. -/
def Spells (F : List Char → Prop) (text : String) (signs : List Sign) : Prop :=
  ∀ rest others, F rest → Reads rest others → Reads (text.toList ++ rest) (signs ++ others)

/-- Any text may follow. -/
def Anything : List Char → Prop :=
  fun _ => True

/-- A text that spells signs by itself is scanned to tokens that show them. -/
theorem Spells.scan_eq_ok
    {text : String} {signs : List Sign} (h : Spells Anything text signs) (file : String) :
    ∃ s, scan file text = .ok s ∧ Renders s.tokens signs := by
  have hnil : Reads [] [] := ⟨nofun, [], .nil [], rfl⟩
  have hreads := h [] [] trivial hnil
  rw [List.append_nil, List.append_nil] at hreads
  exact hreads.scans.scanFrom_eq_ok file {}

theorem Spells.append
    {F G : List Char → Prop} {a b : String} {signs others : List Sign} (ha : Spells F a signs)
    (hb : Spells G b others) (hfollow : ∀ rest, G rest → F (b.toList ++ rest)) :
    Spells G (a ++ b) (signs ++ others) := by
  intro rest more hrest hreads
  have hmore := ha _ _ (hfollow rest hrest) (hb rest more hrest hreads)
  rwa [← List.append_assoc, ← String.toList_append, ← List.append_assoc] at hmore

theorem Spells.mono
    {F G : List Char → Prop} {a : String} {signs : List Sign} (ha : Spells F a signs)
    (h : ∀ rest, G rest → F rest) : Spells G a signs :=
  fun rest others hrest hreads => ha rest others (h rest hrest) hreads

/-- Texts one behind the other, the first of which anything may follow. -/
theorem Spells.seq
    {G : List Char → Prop} {a b : String} {signs others : List Sign} (ha : Spells Anything a signs)
    (hb : Spells G b others) : Spells G (a ++ b) (signs ++ others) :=
  ha.append hb fun _ _ => trivial

theorem spells_empty (F : List Char → Prop) : Spells F "" [] :=
  fun _ _ _ hreads => hreads

theorem splitBlank_blank
    {blank : List Char} (h : ∀ c ∈ blank, isBlank c = true) (rest : List Char) :
    (splitBlank false (blank ++ rest)).2 = (splitBlank false rest).2 := by
  induction blank with
  | nil => rfl
  | cons c cs ih =>
    rw [List.cons_append, splitBlank, if_pos (h c List.mem_cons_self)]
    exact ih fun d hd => h d (List.mem_cons_of_mem _ hd)

/-- White space spells nothing. -/
theorem spells_blank
    {text : String} (h : (text.toList.all isBlank) = true) : Spells Anything text [] := by
  intro rest others _ hreads
  exact hreads.of_remainder (splitBlank_blank (List.all_eq_true.mp h) rest)

theorem splitBlank_comment
    {comment : List Char} (h : '\n' ∉ comment) (rest : List Char) :
    (splitBlank true (comment ++ '\n' :: rest)).2 = (splitBlank false rest).2 := by
  induction comment with
  | nil => rfl
  | cons c cs ih =>
    have hstays : (c != '\n') = true := bne_iff_ne.mpr (List.ne_of_not_mem_cons h).symm
    rw [List.cons_append, splitBlank, hstays]
    exact ih (List.not_mem_of_not_mem_cons h)

/-- A comment up to the end of its line spells nothing. -/
theorem spells_comment
    {comment : String} (h : '\n' ∉ comment.toList) :
    Spells Anything (" // " ++ (comment ++ "\n")) [] := by
  intro rest others _ hreads
  refine hreads.of_remainder ?_
  rw [String.toList_append, String.toList_append, List.append_assoc, List.append_assoc]
  have hbody : '\n' ∉ '/' :: ' ' :: comment.toList := by simpa using h
  exact splitBlank_comment hbody rest

theorem spells_of_cut
    {F : List Char → Prop} {text : String} {l : Lexeme} {s : Sign}
    (hcut : ∀ rest, F rest → ∃ c cs, text.toList ++ rest = c :: cs ∧
      splitBlank false (c :: cs) = ([], c :: cs) ∧ lexeme c cs = .ok (l, rest))
    (hs : s = { kind := l.kind, text := String.ofList l.text }) : Spells F text [s] := by
  rintro rest others hF ⟨-, last, hcuts, hend⟩
  obtain ⟨c, cs, heq, hblank, hlexeme⟩ := hcut rest hF
  subst hs
  refine ⟨by simp [FreeStart], last, ?_, hend⟩
  rw [heq]
  exact .cons hblank hlexeme rfl rfl (by simp) (by simp) hcuts

theorem spells_lexeme
    {l : Lexeme} (h : IsLexeme l) :
    Spells Apart (String.ofList l.source) [{ kind := l.kind, text := String.ofList l.text }] := by
  refine spells_of_cut (fun rest hrest => ?_) rfl
  rw [String.toList_ofList]
  exact h.cut hrest

theorem spells_name {name : String} (h : IsName name) : Spells NameEnds name [Sign.word name] :=
  spells_of_cut (fun _ hrest => h.cut hrest) (by simp [Sign.word])

/-- The marks of declarations that are one character. -/
def markTexts : List String :=
  ["@", "(", ")", Token.openBrace, Token.closeBrace, "<", ">", "[", "]", ",", ";", "=", "&", "?",
    "!"]

theorem spells_mark {text : String} (h : text ∈ markTexts) : Spells Anything text [.mark text] := by
  have hchar : ∃ c, text.toList = [c] ∧ (∀ cs, splitBlank false (c :: cs) = ([], c :: cs)) ∧
      ∀ cs, lexeme c cs = .ok (⟨.punctuation, [c], [c]⟩, cs) := by
    simp only [markTexts, List.mem_cons, List.not_mem_nil, or_false] at h
    rcases h with rfl | rfl | rfl | rfl | rfl | rfl | rfl | rfl | rfl | rfl | rfl | rfl | rfl |
        rfl | rfl <;>
      exact ⟨_, rfl, fun _ => rfl, fun _ => rfl⟩
  obtain ⟨c, htext, hblank, hlexeme⟩ := hchar
  refine spells_of_cut (l := ⟨.punctuation, [c], [c]⟩) ?_ ?_
  · intro rest _
    exact ⟨c, rest, by rw [htext]; rfl, hblank rest, hlexeme rest⟩
  · rw [Sign.mark, ← htext, String.ofList_toList]

theorem spells_dots : Spells Anything "..." [.mark "..."] :=
  spells_of_cut (l := ⟨.punctuation, ['.', '.', '.'], ['.', '.', '.']⟩)
    (fun rest _ => ⟨'.', '.' :: '.' :: rest, rfl, rfl, rfl⟩) rfl

/-- A blank behind a text keeps everything apart from it. -/
theorem Spells.blank
    {text : String} {signs : List Sign} (h : Spells Apart text signs) :
    Spells Anything (text ++ " ") signs := by
  have hblank : Spells Anything " " [] := spells_blank (by decide)
  have hspells := h.append hblank fun rest _ => Apart.cons (by decide)
  rwa [List.append_nil] at hspells

/-- A word with a blank behind it. -/
theorem spells_word
    {word : String} (h : IsName word) : Spells Anything (word ++ " ") [.word word] :=
  (spells_name h).append (spells_blank (by decide)) fun _ _ => rfl

/-- A mark with a blank behind it. -/
theorem spells_mark_blank
    {text : String} (h : text ∈ markTexts) : Spells Anything (text ++ " ") [.mark text] :=
  (spells_mark h).seq (spells_blank (by decide))

/-! ## Texts in a row -/

/-- Signs of several texts with a sign between neighbours. -/
def separated (separator : Sign) : List (List Sign) → List Sign
  | [] => []
  | [signs] => signs
  | signs :: others => signs ++ separator :: separated separator others

@[simp]
theorem separated_nil (separator : Sign) : separated separator [] = [] :=
  rfl

@[simp]
theorem separated_singleton (separator : Sign) (signs : List Sign) :
    separated separator [signs] = signs :=
  rfl

theorem separated_cons_cons (separator : Sign) (signs next : List Sign)
    (others : List (List Sign)) :
    separated separator (signs :: next :: others) =
      signs ++ separator :: separated separator (next :: others) :=
  rfl

theorem separated_cons (separator : Sign) (signs : List Sign) (others : List (List Sign)) :
    ∃ more, separated separator (signs :: others) = signs ++ more := by
  cases others with
  | nil => exact ⟨[], by simp⟩
  | cons next others => exact ⟨_, separated_cons_cons separator signs next others⟩

theorem length_le_length_separated (separator : Sign) (xs : List (List Sign)) :
    xs.length ≤ (separated separator xs).length + 1 := by
  induction xs with
  | nil => simp
  | cons x xs ih =>
    cases xs with
    | nil => simp
    | cons y ys =>
      rw [separated_cons_cons]
      simp only [List.length_cons, List.length_append] at ih ⊢
      omega

theorem length_le_of_mem_separated
    (separator : Sign) {xs : List (List Sign)} {x : List Sign} (h : x ∈ xs) :
    x.length ≤ (separated separator xs).length := by
  induction xs with
  | nil => cases h
  | cons y ys ih =>
    cases ys with
    | nil =>
      obtain rfl : x = y := by simpa using h
      simp
    | cons z zs =>
      rw [separated_cons_cons]
      rcases List.mem_cons.mp h with rfl | h
      · simp
      · have hle := ih h
        simp only [List.length_append, List.length_cons]
        omega

theorem spells_join
    {α : Type} {text : α → String} {signs : α → List Sign} {separator : String} {s : Sign}
    (hseparator : Spells Anything separator [s])
    (hapart : ∀ rest, Apart (separator.toList ++ rest)) {xs : List α}
    (h : ∀ x ∈ xs, Spells Apart (text x) (signs x)) :
    Spells Apart (Text.join separator (xs.map text)) (separated s (xs.map signs)) := by
  induction xs with
  | nil => exact spells_empty _
  | cons x xs ih =>
    cases xs with
    | nil => exact h x List.mem_cons_self
    | cons y ys =>
      have hothers := ih fun z hz => h z (List.mem_cons_of_mem _ hz)
      have hfirst := (h x List.mem_cons_self).append (hseparator.seq hothers) fun rest _ => by
        rw [String.toList_append, List.append_assoc]
        exact hapart _
      simpa [Text.join, separated, String.append_assoc] using hfirst

/-- Texts with blanks between them spell their signs one behind the other. -/
theorem spells_spaced
    {α : Type} {text : α → String} {signs : α → List Sign} {xs : List α}
    (h : ∀ x ∈ xs, Spells Apart (text x) (signs x)) :
    Spells Apart (Text.join " " (xs.map text)) (xs.flatMap signs) := by
  induction xs with
  | nil => exact spells_empty _
  | cons x xs ih =>
    cases xs with
    | nil => simpa [Text.join] using h x List.mem_cons_self
    | cons y ys =>
      have hothers := ih fun z hz => h z (List.mem_cons_of_mem _ hz)
      have hspells := (h x List.mem_cons_self).blank.seq hothers
      simpa [Text.join, String.append_assoc] using hspells

theorem spells_concat
    {α : Type} {text : α → String} {signs : α → List Sign} {xs : List α}
    (h : ∀ x ∈ xs, Spells Anything (text x) (signs x)) :
    Spells Anything (String.join (xs.map text)) (xs.flatMap signs) := by
  induction xs with
  | nil => exact spells_empty _
  | cons x xs ih =>
    have hothers := ih fun z hz => h z (List.mem_cons_of_mem _ hz)
    have hboth := (h x List.mem_cons_self).seq hothers
    simpa [List.flatMap_cons] using hboth

end Scan
end ApiSurface
