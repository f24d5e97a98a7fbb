import ApiSurface.Proofs.Rendering

/-!
# Values kept as written

A default or a constant is kept as the characters from its first token to its last.  The kept
characters, scanned alone, are cut into the same tokens again, with the same blanks between them;
hence the value is taken up to the same mark again when it is written in front of one.
-/

namespace ApiSurface

namespace Token

/-- All that a token tells besides its place. -/
def exactSign (t : Token) : Sign :=
  { kind := t.kind, text := t.text, lexeme := some t.lexeme, blank := some t.blank }

/-- All that tokens tell from the first character of the first token on. -/
def exactSigns : List Token → List Sign
  | [] => []
  | t :: ts => { t.exactSign with blank := none } :: ts.map exactSign

theorem exactSign_eq_of_shows
    {t u : Token} (h : u.Shows t.exactSign) : u.exactSign = t.exactSign := by
  obtain ⟨hkind, htext, hlexeme, hblank⟩ := h
  simp only [exactSign, hkind, htext, hlexeme _ rfl, hblank _ rfl]

theorem map_exactSign_eq_of_renders
    {ts us : List Token} (h : Renders us (ts.map exactSign)) :
    us.map exactSign = ts.map exactSign := by
  induction ts generalizing us with
  | nil =>
    cases h
    rfl
  | cons t ts ih =>
    cases h with
    | cons ht hts => rw [List.map_cons, List.map_cons, exactSign_eq_of_shows ht, ih hts]

theorem exactSigns_eq_of_renders
    {ts us : List Token} (h : Renders us (exactSigns ts)) : exactSigns us = exactSigns ts := by
  cases ts with
  | nil =>
    cases h
    rfl
  | cons t ts =>
    cases h with
    | cons hfirst hothers =>
      obtain ⟨hkind, htext, hlexeme, -⟩ := hfirst
      simp only [exactSign] at hkind htext hlexeme
      simp only [exactSigns, map_exactSign_eq_of_renders hothers]
      simp only [exactSign, hkind, htext, hlexeme _ rfl]

/-- The characters of tokens, with the blanks in front of all of them. -/
def characters (ts : List Token) : List Char :=
  ts.flatMap fun t => t.blank.toList ++ t.lexeme.toList

theorem toList_sourceText (t : Token) (ts : List Token) :
    (sourceText (t :: ts)).toList = t.lexeme.toList ++ characters ts := by
  have hfold : ∀ text : String,
      (ts.foldl (fun text u => text ++ u.blank ++ u.lexeme) text).toList =
        text.toList ++ characters ts := by
    induction ts with
    | nil => simp [characters]
    | cons u us ih =>
      intro text
      rw [List.foldl_cons, ih]
      simp [characters, String.toList_append]
  exact hfold t.lexeme

/-- The characters of a stretch of tokens are told by their signs. -/
theorem sourceText_eq_of_exactSigns
    {ts us : List Token} (h : exactSigns us = exactSigns ts) : sourceText us = sourceText ts := by
  cases ts with
  | nil =>
    cases us with
    | nil => rfl
    | cons u us => simp [exactSigns] at h
  | cons t ts =>
    cases us with
    | nil => simp [exactSigns] at h
    | cons u us =>
      simp only [exactSigns, List.cons.injEq, exactSign, Sign.mk.injEq, Option.some.injEq] at h
      obtain ⟨⟨-, -, hlexeme, -⟩, hothers⟩ := h
      have hcharacters : ∀ {us ts : List Token}, us.map exactSign = ts.map exactSign →
          characters us = characters ts := by
        intro us ts heq
        have hmap : ∀ vs : List Token, characters vs = (vs.map exactSign).flatMap fun s =>
            (s.blank.getD "").toList ++ (s.lexeme.getD "").toList := by
          intro vs
          simp [characters, List.flatMap_map, exactSign]
        rw [hmap, hmap, heq]
      apply String.toList_inj.mp
      rw [toList_sourceText, toList_sourceText, hlexeme, hcharacters hothers]

end Token

namespace Scan

theorem Cuts.suffix
    {cs rest : List Char} {signs : List Sign} (h : Cuts cs signs rest) : ∃ t, cs = t ++ rest := by
  induction h with
  | nil cs => exact ⟨[], rfl⟩
  | @cons cs blank body middle rest c l s signs hblank hlexeme _ _ _ _ _ ih =>
    obtain ⟨t, rfl⟩ := ih
    have hbody := lexeme_append hlexeme
    have hcs := splitBlank_append false cs
    rw [hblank, ← hbody] at hcs
    exact ⟨blank ++ l.source ++ t, by rw [← hcs]; simp⟩

/-- Tokens are cut off alike in front of any text that starts apart from them. -/
theorem Cuts.transplant
    {xs rest rest' : List Char} {signs : List Sign} (h : Cuts (xs ++ rest) signs rest)
    (hapart : Apart rest') : Cuts (xs ++ rest') signs rest' := by
  generalize hcs : xs ++ rest = cs at h
  induction h generalizing xs with
  | nil cs =>
    obtain rfl : xs = [] := by simpa using hcs
    exact .nil _
  | @cons cs blank body middle rest c l s signs hblank hlexeme hkind htext hsource hfront
      hcuts ih =>
    obtain ⟨t, rfl⟩ := hcuts.suffix
    subst hcs
    have hbody := lexeme_append hlexeme
    obtain ⟨d, ds, hchars⟩ := List.exists_cons_of_ne_nil (lexeme_source_ne_nil hlexeme)
    rw [hchars, List.cons_append, ← List.append_assoc] at hbody
    obtain ⟨rfl, rfl⟩ := List.cons.inj hbody
    have hblank' := splitBlank_transplant (List.cons_ne_nil d (ds ++ t)) hblank hapart
    exact .cons hblank' (lexeme_transplant hlexeme hapart) hkind htext hsource hfront
      (ih rfl)

/-- Tokens of a scan are cut off one behind the other. -/
theorem cuts_of_scanFrom
    {file : String} {p : Position} {cs : List Char} {s : Scan} {ts us : List Token}
    (h : scanFrom file p cs = .ok s) (htokens : s.tokens = ts ++ us) :
    ∃ rest, Cuts cs (ts.map Token.exactSign) rest := by
  induction ts generalizing p cs s with
  | nil => exact ⟨cs, .nil cs⟩
  | cons t ts ih =>
    rcases scanFrom_cases h with
      ⟨_, _, hnil⟩ |
      ⟨blank, c, body, l, rest, u, vs, p', hblank, hlexeme, hcons, hkind, htext, hfront,
        hsource, h'⟩
    · rw [hnil] at htokens
      cases htokens
    · rw [hcons] at htokens
      obtain ⟨rfl, rfl⟩ := List.cons.inj htokens
      obtain ⟨last, hcuts⟩ := ih h' rfl
      refine ⟨last, .cons hblank hlexeme hkind htext ?_ ?_ hcuts⟩
      · simpa [Token.exactSign] using hsource.symm
      · simpa [Token.exactSign] using hfront.symm

theorem Cuts.characters
    {cs rest : List Char} {ts : List Token} (h : Cuts cs (ts.map Token.exactSign) rest) :
    cs = Token.characters ts ++ rest := by
  induction ts generalizing cs with
  | nil =>
    cases h
    rfl
  | cons t ts ih =>
    cases h with
    | @cons _ blank body middle _ c l _ _ hblank hlexeme _ _ hsource hfront hcuts =>
      have hcs := splitBlank_append false cs
      rw [hblank, ← lexeme_append hlexeme, ih hcuts] at hcs
      have hlexemes : l.source = t.lexeme.toList := by
        rw [← hsource _ rfl, String.toList_ofList]
      have hblanks : blank = t.blank.toList := by
        rw [← hfront _ rfl, String.toList_ofList]
      rw [← hcs, hlexemes, hblanks]
      simp [Token.characters]

/-- The characters of a stretch of tokens, from the first token to the last, are cut into these
tokens. -/
theorem cuts_sourceText
    {file : String} {p : Position} {cs : List Char} {s : Scan} {t : Token} {ts us : List Token}
    (h : scanFrom file p cs = .ok s) (htokens : s.tokens = t :: ts ++ us) :
    ∃ rest,
      Cuts ((Token.sourceText (t :: ts)).toList ++ rest) (Token.exactSigns (t :: ts)) rest := by
  obtain ⟨rest, hcuts⟩ := cuts_of_scanFrom h htokens
  cases hcuts with
  | @cons _ blank body middle _ c l _ _ hblank hlexeme hkind htext hsource hfront hcuts =>
    refine ⟨rest, ?_⟩
    have hstart : (Token.sourceText (t :: ts)).toList ++ rest = c :: body := by
      rw [Token.toList_sourceText, List.append_assoc, ← hcuts.characters, ← hsource _ rfl,
        String.toList_ofList, lexeme_append hlexeme]
    rw [hstart]
    exact .cons (splitBlank_idem hblank) hlexeme hkind htext hsource (by simp) hcuts

end Scan

/-! ## Values -/

def rawSigns (source : String) : List Sign :=
  match scan "" source with
  | .ok s => Token.exactSigns s.tokens
  | .error _ => []

/-- Brackets are closed within the signs, from a number of open brackets on, and none of the stops
stands outside of brackets. -/
def encloses (stops : List String) : (depth : Nat) → List Sign → Bool
  | depth, [] => depth == 0
  | depth, s :: signs =>
    if s.kind ≠ .punctuation then encloses stops depth signs
    else if depth = 0 ∧ s.text ∈ stops then false
    else if s.text ∈ ["(", Token.openBrace, "["] then encloses stops (depth + 1) signs
    else if s.text ∈ [")", Token.closeBrace, "]"] then
      decide (0 < depth) && encloses stops (depth - 1) signs
    else encloses stops depth signs

theorem encloses_exactSign (stops : List String) (depth : Nat) (t : Token) (signs : List Sign) :
    encloses stops depth (t.exactSign :: signs) =
      if t.kind ≠ .punctuation then encloses stops depth signs
      else if depth = 0 ∧ t.text ∈ stops then false
      else if t.text ∈ ["(", Token.openBrace, "["] then encloses stops (depth + 1) signs
      else if t.text ∈ [")", Token.closeBrace, "]"] then
        decide (0 < depth) && encloses stops (depth - 1) signs
      else encloses stops depth signs :=
  rfl

/-- A value kept as written can be taken up to one of the stops again. -/
structure IsRawValue (stops : List String) (source : String) : Prop where
  scanned : ∃ s, scan "" source = .ok s ∧ s.tokens ≠ [] ∧ Token.sourceText s.tokens = source
  enclosed : encloses stops 0 (rawSigns source) = true

namespace Scan

theorem spells_raw
    {stops : List String} {source : String} (h : IsRawValue stops source) :
    Spells Apart source (rawSigns source) := by
  obtain ⟨⟨s, hscan, hne, hsource⟩, -⟩ := h
  obtain ⟨t, ts, htokens⟩ := List.exists_cons_of_ne_nil hne
  have hsigns : rawSigns source = Token.exactSigns (t :: ts) := by
    rw [rawSigns, hscan, ← htokens]
  have hall : s.tokens = t :: ts ++ [] := by rw [htokens, List.append_nil]
  obtain ⟨rest, hcuts⟩ := cuts_sourceText hscan hall
  rw [← htokens, hsource, htokens] at hcuts
  rintro rest' others hapart ⟨-, last, hothers, hend⟩
  rw [hsigns]
  have hall := (hcuts.transplant hapart).append hothers
  exact ⟨by simp [FreeStart, Token.exactSigns], last, hall, hend⟩

end Scan

namespace Signature
namespace Source

/-- What is taken for a value closes its brackets, and a stop follows. -/
theorem encloses_of_takeValue
    {src : Source} {stops : List String} {depth : Nat} {ts value rest : List Token}
    (h : src.takeValue stops depth ts = .ok (value, rest)) :
    ts = value ++ rest ∧ encloses stops depth (value.map Token.exactSign) = true ∧
      ∃ mark ∈ stops, atMark mark rest = true := by
  induction ts generalizing depth value with
  | nil => simp [takeValue] at h
  | cons t ts ih =>
    have hkeep : ∀ {depth'}, (∀ signs, encloses stops depth (t.exactSign :: signs) =
          encloses stops depth' signs) →
        (src.takeValue stops depth' ts >>= fun p => .ok (t :: p.1, p.2)) = .ok (value, rest) →
        t :: ts = value ++ rest ∧ encloses stops depth (value.map Token.exactSign) = true ∧
          ∃ mark ∈ stops, atMark mark rest = true := by
      intro depth' hencloses hvalue
      obtain ⟨⟨v, r⟩, hv, heq⟩ := bind_eq_ok.mp hvalue
      cases heq
      obtain ⟨rfl, henclosed, hstop⟩ := ih hv
      exact ⟨rfl, by rw [List.map_cons, hencloses, henclosed], hstop⟩
    rw [takeValue.eq_def] at h
    simp only at h
    split at h
    · rename_i hkind
      exact hkeep (fun signs => by rw [encloses_exactSign, if_pos hkind]) h
    rename_i hkind
    split at h
    · rename_i hstop
      cases h
      have hmark : t.kind = .punctuation := not_not.mp hkind
      exact ⟨rfl, by simp [encloses, hstop.1], t.text, hstop.2,
        by simp [atMark, Token.isMark, hmark]⟩
    rename_i hstop
    split at h
    · rename_i hopen
      exact hkeep
        (fun signs => by rw [encloses_exactSign, if_neg hkind, if_neg hstop, if_pos hopen]) h
    rename_i hopen
    split at h
    · rename_i hclose
      cases depth with
      | zero => cases h
      | succ depth =>
        exact hkeep (fun signs => by
          rw [encloses_exactSign, if_neg hkind, if_neg hstop, if_neg hopen, if_pos hclose]
          simp) h
    · rename_i hclose
      exact hkeep (fun signs => by
        rw [encloses_exactSign, if_neg hkind, if_neg hstop, if_neg hopen, if_neg hclose]) h

/-- A value is taken up to the stop behind it. -/
theorem takeValue_of_encloses
    (src : Source) {stops : List String} {depth : Nat} {value rest : List Token}
    {signs : List Sign} (hrenders : Renders value signs)
    (henclosed : encloses stops depth signs = true)
    (hstop : ∃ mark ∈ stops, atMark mark rest = true) :
    src.takeValue stops depth (value ++ rest) = .ok (value, rest) := by
  induction hrenders generalizing depth with
  | nil =>
    obtain ⟨mark, hmark, hat⟩ := hstop
    obtain rfl : depth = 0 := by simpa [encloses] using henclosed
    cases rest with
    | nil => cases hat
    | cons t ts =>
      simp only [atMark, List.head?_cons, Option.any_some, Token.isMark, Bool.and_eq_true,
        decide_eq_true_eq] at hat
      obtain ⟨hkind, rfl⟩ := hat
      rw [List.nil_append, takeValue, if_neg (by simp [hkind]), if_pos ⟨rfl, hmark⟩]
  | @cons t s ts signs hs _ ih =>
    have hkind := hs.kind
    have htext := hs.text
    have hkeep : ∀ {depth'}, encloses stops depth' signs = true →
        (src.takeValue stops depth' (ts ++ rest) >>= fun p => .ok (t :: p.1, p.2)) =
          .ok (t :: ts, rest) := by
      intro depth' h
      rw [ih h]
      rfl
    rw [encloses] at henclosed
    simp only [← hkind, ← htext] at henclosed
    rw [List.cons_append, takeValue.eq_def]
    simp only
    split at henclosed
    · rename_i hother
      rw [if_pos hother]
      exact hkeep henclosed
    rename_i hother
    rw [if_neg hother]
    split at henclosed
    · cases henclosed
    rename_i hnostop
    rw [if_neg hnostop]
    split at henclosed
    · rename_i hopen
      rw [if_pos hopen]
      exact hkeep henclosed
    rename_i hopen
    rw [if_neg hopen]
    split at henclosed
    · rename_i hclose
      rw [if_pos hclose]
      cases depth with
      | zero => simp at henclosed
      | succ depth => exact hkeep (by simpa using henclosed)
    · rename_i hclose
      rw [if_neg hclose]
      exact hkeep henclosed

/-- A value that was read is a value, and a stop follows it. -/
theorem isRawValue_of_readValueText
    {src : Source} {stops : List String} {ts rest : List Token} {source : String}
    (hscanned : Scanned ts) (h : src.readValueText stops ts = .ok (source, rest)) :
    IsRawValue stops source ∧ Scanned rest ∧ ∃ mark ∈ stops, atMark mark rest = true := by
  obtain ⟨⟨value, rest'⟩, htake, hvalue⟩ := bind_eq_ok.mp h
  obtain ⟨rfl, henclosed, hstop⟩ := encloses_of_takeValue htake
  have hrest := hscanned.append
  cases value with
  | nil => simp at hvalue
  | cons t value =>
    simp only [List.isEmpty_cons, Bool.false_eq_true, if_false, pure_eq_ok, Except.ok.injEq,
      Prod.mk.injEq] at hvalue
    obtain ⟨rfl, rfl⟩ := hvalue
    obtain ⟨file, p, cs, s, hscan, htokens⟩ := hscanned
    obtain ⟨last, hcuts⟩ := Scan.cuts_sourceText hscan htokens
    have hscans : Scan.Scans (Token.sourceText (t :: value)).toList
        (Token.exactSigns (t :: value)) := by
      refine ⟨[], ?_, rfl⟩
      simpa using hcuts.transplant Scan.Apart.nil
    obtain ⟨s', hs', htold⟩ := hscans.scanFrom_eq_ok "" {}
    have hsigns := Token.exactSigns_eq_of_renders htold
    have hraw : rawSigns (Token.sourceText (t :: value)) = Token.exactSigns (t :: value) := by
      rw [rawSigns, scan, hs', ← hsigns]
    refine ⟨⟨⟨s', hs', ?_, Token.sourceText_eq_of_exactSigns hsigns⟩, ?_⟩, hrest, hstop⟩
    · intro hnil
      rw [hnil] at hsigns
      cases hsigns
    · rw [hraw]
      exact henclosed

/-- A value in front of a stop is read as it is written. -/
theorem readsAs_raw
    (src : Source) {stops : List String} {source : String} (h : IsRawValue stops source) :
    ReadsAs (src.readValueText stops)
      (fun js => ∃ mark ∈ stops, (js.head?.any fun s => s.isMark mark) = true)
      (rawSigns source) source := by
  rintro ts others ⟨mark, hmark, hhead⟩ hts
  obtain ⟨value, rest, rfl, hvalue, hrest⟩ := hts.of_append
  obtain ⟨⟨s, hscan, hne, hsource⟩, henclosed⟩ := h
  have hraw : rawSigns source = Token.exactSigns s.tokens := by
    rw [rawSigns, hscan]
  have hstop : ∃ mark ∈ stops, atMark mark rest = true :=
    ⟨mark, hmark, by rw [atMark_of_renders hrest, hhead]⟩
  refine ⟨rest, ?_, hrest⟩
  rw [readValueText, src.takeValue_of_encloses hvalue henclosed hstop, ok_bind]
  rw [hraw] at hvalue
  have hsigns := Token.exactSigns_eq_of_renders hvalue
  cases value with
  | nil =>
    obtain ⟨t, ts, htokens⟩ := List.exists_cons_of_ne_nil hne
    rw [htokens] at hsigns
    cases hsigns
  | cons t value =>
    simp [Token.sourceText_eq_of_exactSigns hsigns, hsource, pure_eq_ok]

end Source
end Signature

end ApiSurface
