import ApiSurface.Proofs.Cursor.Slices
import Mathlib.Data.List.Induction

/-!
# Tokens tile the text

The tokens of a scan stand one behind the other in the text, with nothing but white space and
comments in front of, between and behind them.  The place of a token counts the bytes, the lines and
the columns of the text in front of it.  What a token is and says depends on its own characters
alone: scanned by themselves they give the token again.
-/

namespace ApiSurface

/-! ## Places -/

namespace Position

theorem skip_append (p : Position) (xs ys : List Char) :
    p.skip (xs ++ ys) = (p.skip xs).skip ys :=
  List.foldl_append

theorem next_line (p : Position) (c : Char) :
    (p.next c).line = p.line + [c].count '\n' := by
  by_cases hc : c = '\n' <;> simp [next, hc]

/-- The line counts the ends of lines passed. -/
theorem line_skip (p : Position) (cs : List Char) :
    (p.skip cs).line = p.line + cs.count '\n' := by
  induction cs generalizing p with
  | nil => rfl
  | cons c cs ih =>
    have hskip : p.skip (c :: cs) = (p.next c).skip cs := rfl
    rw [hskip, ih, next_line, Nat.add_assoc, ← List.count_append]
    rfl

/-- The column counts the characters behind the last end of a line. -/
theorem column_skip (cs : List Char) :
    (({} : Position).skip cs).column = 1 + (cs.reverse.takeWhile (· != '\n')).length := by
  induction cs using List.reverseRecOn with
  | nil => rfl
  | append_singleton cs c ih =>
    have hskip : ({} : Position).skip (cs ++ [c]) = (({} : Position).skip cs).next c :=
      skip_append _ cs [c]
    rw [hskip, List.reverse_append, List.reverse_singleton, List.singleton_append,
      List.takeWhile_cons]
    by_cases hc : c = '\n'
    · simp [next, hc]
    · simp [next, hc, ih, Nat.add_assoc]

end Position

/-! ## Gaps -/

namespace Scan

open Text (isBlank)

/-- White space and comments in front of the given text; a comment runs from its mark up to the end
of a line or of the text. -/
inductive IsGap (behind : List Char) : List Char → Prop where
  | nil : IsGap behind []
  | blank {c : Char} {cs : List Char} (hc : isBlank c = true) (hcs : IsGap behind cs) :
      IsGap behind (c :: cs)
  | comment {mark body cs : List Char} (hmark : mark = ['#'] ∨ mark = ['/', '/'])
      (hbody : '\n' ∉ body) (hend : ∀ c ∈ (cs ++ behind).head?, c = '\n')
      (hcs : IsGap behind cs) : IsGap behind (mark ++ body ++ cs)

/-- What is left of a comment, with a gap behind it. -/
def IsCommentGap (behind taken : List Char) : Prop :=
  ∃ body gap, taken = body ++ gap ∧ '\n' ∉ body ∧ (∀ c ∈ (gap ++ behind).head?, c = '\n') ∧
    IsGap behind gap

theorem isCommentGap_cons
    (c : Char) {cs : List Char} (hgap : IsGap (splitBlank false cs).2 (splitBlank false cs).1)
    (hcomment : IsCommentGap (splitBlank true cs).2 (splitBlank true cs).1) :
    IsCommentGap (splitBlank true (c :: cs)).2 (splitBlank true (c :: cs)).1 := by
  by_cases hc : c = '\n'
  · subst hc
    exact ⟨[], '\n' :: (splitBlank false cs).1, rfl, by simp, by simp, .blank (by decide) hgap⟩
  · have hstays : (c != '\n') = true := bne_iff_ne.mpr hc
    obtain ⟨body, gap, htaken, hbody, hend, hgap⟩ := hcomment
    rw [splitBlank, hstays]
    exact ⟨c :: body, gap, by rw [List.cons_append, ← htaken], by simp [hbody, Ne.symm hc],
      hend, hgap⟩

/-- A comment starts with its mark; of two slashes, the second is the first character that the
comment takes in. -/
theorem isGap_of_comment
    {c : Char} {cs : List Char} (hmark : c = '#' ∨ c = '/' ∧ cs.head? = some '/')
    (hcomment : IsCommentGap (splitBlank true cs).2 (splitBlank true cs).1) :
    IsGap (splitBlank true cs).2 (c :: (splitBlank true cs).1) := by
  obtain ⟨body, gap, htaken, hbody, hend, hgap⟩ := hcomment
  rcases hmark with rfl | ⟨rfl, hslash⟩
  · rw [htaken]
    exact .comment (.inl rfl) hbody hend hgap
  · obtain ⟨cs, rfl⟩ := List.head?_eq_some_iff.mp hslash
    have hfirst : (splitBlank true ('/' :: cs)).1.head? = some '/' := rfl
    rw [htaken] at hfirst ⊢
    cases body with
    | nil =>
      obtain ⟨gap, rfl⟩ := List.head?_eq_some_iff.mp hfirst
      exact absurd (hend '/' rfl) (by decide)
    | cons d body =>
      obtain rfl : d = '/' := by simpa using hfirst
      exact .comment (.inr rfl) (fun hmem => hbody (List.mem_cons_of_mem _ hmem)) hend hgap

/-- What is cut off in front of a token is a gap. -/
theorem isGap_splitBlank (cs : List Char) :
    IsGap (splitBlank false cs).2 (splitBlank false cs).1 ∧
      IsCommentGap (splitBlank true cs).2 (splitBlank true cs).1 := by
  induction cs with
  | nil => exact ⟨.nil, [], [], rfl, by simp, by simp [splitBlank], .nil⟩
  | cons c cs ih =>
    refine ⟨?_, isCommentGap_cons c ih.1 ih.2⟩
    rw [splitBlank]
    split
    · rename_i hblank
      exact .blank hblank ih.1
    split
    · rename_i hmark
      exact isGap_of_comment (by simpa using hmark) ih.2
    · exact .nil

/-! ## Tokens one behind the other -/

/-- The token stands behind the given text and its own blanks, which are a gap, and in front of the
rest. -/
structure IsPlaced (p : Position) (before : List Char) (t : Token) (behind : List Char) : Prop where
  start : t.start = p.skip (before ++ t.blank.toList)
  gap : IsGap (t.lexeme.toList ++ behind) t.blank.toList

/-- The characters of all tokens make up the text, and every token stands behind the characters of
those before it. -/
theorem placed_of_scanFrom
    {file : String} {p : Position} {cs : List Char} {s : Scan} (h : scanFrom file p cs = .ok s) :
    cs = Token.characters s.all ∧ ∀ ts t us, s.all = ts ++ t :: us →
      IsPlaced p (Token.characters ts) t (Token.characters us) := by
  refine scanFrom_induction (motive := fun p cs s => cs = Token.characters s.all ∧
    ∀ ts t us, s.all = ts ++ t :: us →
      IsPlaced p (Token.characters ts) t (Token.characters us)) ?_ ?_ h
  · intro p cs blank hblank
    have hcs := splitBlank_append false cs
    have hgap := (isGap_splitBlank cs).1
    rw [hblank] at hcs hgap
    refine ⟨by simp [← hcs, Scan.all, Token.characters], fun ts t us hall => ?_⟩
    cases ts with
    | nil =>
      obtain ⟨rfl, rfl⟩ := List.cons.inj hall
      exact ⟨by simp [Token.characters], by simpa [Token.characters] using hgap⟩
    | cons u ts => simp [Scan.all] at hall
  · rintro p cs blank c body l rest s hblank hlexeme ⟨hrest, hplaced⟩
    have hcs := splitBlank_append false cs
    have hgap := (isGap_splitBlank cs).1
    rw [hblank, ← lexeme_append hlexeme, hrest] at hcs hgap
    refine ⟨by simp [← hcs, Scan.all, Token.characters], fun ts t us hall => ?_⟩
    rw [Scan.all, List.cons_append] at hall
    cases ts with
    | nil =>
      obtain ⟨rfl, rfl⟩ := List.cons.inj hall
      exact ⟨by simp [Token.characters], by simpa [Scan.all] using hgap⟩
    | cons u ts =>
      obtain ⟨rfl, hothers⟩ := List.cons.inj hall
      obtain ⟨hstart, hgap⟩ := hplaced ts t us hothers
      refine ⟨?_, hgap⟩
      rw [hstart, ← Position.skip_append, ← Position.skip_append]
      simp [Token.characters]

/-- Every token starts behind the one before it. -/
theorem ordered_of_scanFrom
    {file : String} {p : Position} {cs : List Char} {s : Scan} (h : scanFrom file p cs = .ok s) :
    (∀ t ∈ s.all, p.offset ≤ t.start.offset) ∧
      s.all.Pairwise fun t u => t.stop ≤ u.start.offset := by
  refine scanFrom_induction (motive := fun p _ s => (∀ t ∈ s.all, p.offset ≤ t.start.offset) ∧
    s.all.Pairwise fun t u => t.stop ≤ u.start.offset) ?_ ?_ h
  · intro p cs blank _
    simp [Scan.all, Position.offset_skip]
  · rintro p cs blank c body l rest s _ _ ⟨hbehind, hordered⟩
    rw [Scan.all, List.cons_append]
    have hstop : ∀ t ∈ s.all, (p.skip blank).offset + (String.ofList l.source).utf8ByteSize ≤
        t.start.offset := by
      intro t ht
      have hle := hbehind t ht
      rwa [Position.offset_skip] at hle
    have hstart : p.offset ≤ (p.skip blank).offset := by
      rw [Position.offset_skip]
      exact Nat.le_add_right _ _
    refine ⟨List.forall_mem_cons.mpr ⟨hstart, fun t ht => ?_⟩, .cons hstop hordered⟩
    exact Nat.le_trans hstart (Nat.le_trans (Nat.le_add_right _ _) (hstop t ht))

/-- The characters of a token, scanned alone, are that token and the end of the text. -/
theorem IsLexeme.scan_eq_ok {l : Lexeme} (h : IsLexeme l) (file : String) :
    ∃ t f, scan file (String.ofList l.source) = .ok { tokens := [t], finish := f } ∧
      t.kind = l.kind ∧ t.text = String.ofList l.text ∧ f.kind = .endOfFile := by
  obtain ⟨c, cs, hsource, hblank, hlexeme⟩ := h
  have hend : splitBlank false [] = ([], []) := rfl
  obtain ⟨s, hs, htokens⟩ := scanFrom_of_blank hend file
    ((({} : Position).skip []).skip l.source)
  have hscan := scanFrom_of_cut hblank hlexeme file {}
  rw [hs] at hscan
  obtain ⟨tokens, f⟩ := s
  obtain rfl : tokens = [] := htokens
  rw [← hsource, ← String.toList_ofList (l := l.source)] at hscan
  exact ⟨_, f, hscan, rfl, rfl, (isEnded_of_scanFrom hs).finish⟩

theorem lexeme_finish
    {file : String} {p : Position} {cs : List Char} {s : Scan} (h : scanFrom file p cs = .ok s) :
    s.finish.lexeme = "" :=
  scanFrom_induction (motive := fun _ _ s => s.finish.lexeme = "") (fun _ _ _ _ => rfl)
    (fun _ _ _ _ _ _ _ _ _ _ ih => ih) h

end Scan

/-! ## Texts -/

/-- The tokens of a scan tile the text. -/
structure Scan.Tiles (text : String) (s : Scan) : Prop where
  /-- The end is marked once, behind all tokens. -/
  ended : s.IsEnded
  /-- The mark of the end takes no room at the end of the text. -/
  finish : s.finish.start.offset = text.utf8ByteSize ∧ s.finish.stop = text.utf8ByteSize
  /-- All other tokens take room. -/
  nonempty : ∀ t ∈ s.tokens, t.start.offset < t.stop
  /-- Tokens stand in order and do not overlap. -/
  ordered : s.all.Pairwise fun t u => t.stop ≤ u.start.offset
  /-- A token starts and stops between two characters, its own characters are those of the text
  from its start to its stop, and its line and column are those of its start. -/
  placed : ∀ t ∈ s.all, ∃ before behind : String, text = before ++ t.lexeme ++ behind ∧
    t.start.offset = before.utf8ByteSize ∧ t.stop = (before ++ t.lexeme).utf8ByteSize ∧
    t.start.line = 1 + before.toList.count '\n' ∧
    t.start.column = 1 + (before.toList.reverse.takeWhile (· != '\n')).length
  /-- The text is nothing but tokens with gaps in front of them, and behind the last of them. -/
  gaps : text.toList = Token.characters s.all ∧ ∀ ts t us, s.all = ts ++ t :: us →
    Scan.IsGap (t.lexeme.toList ++ Token.characters us) t.blank.toList
  /-- Names, numbers and marks say what they are written with. -/
  said : ∀ t ∈ s.tokens, t.kind = .identifier ∨ t.kind = .number ∨ t.kind = .punctuation →
    t.text = t.lexeme
  /-- The characters of a token, scanned alone, are that token. -/
  alone : ∀ t ∈ s.tokens, ∀ file, ∃ u f,
    scan file t.lexeme = .ok { tokens := [u], finish := f } ∧ u.kind = t.kind ∧ u.text = t.text ∧
      f.kind = .endOfFile

theorem Scan.isLexeme_of_mem
    {file text : String} {s : Scan} (h : scan file text = .ok s) {t : Token} (ht : t ∈ s.tokens) :
    IsLexeme ⟨t.kind, t.text.toList, t.lexeme.toList⟩ := by
  obtain ⟨ts, us, htokens⟩ := List.append_of_mem ht
  have hscanned : Scanned (ts ++ t :: us) := ⟨file, {}, text.toList, s, h, htokens⟩
  exact hscanned.append.isLexeme

theorem Position.offset_skip_toList (text : String) :
    (({} : Position).skip text.toList).offset = text.utf8ByteSize := by
  rw [Position.offset_skip, String.ofList_toList]
  exact Nat.zero_add _

/-- Every token cuts the text in front of and behind its own characters. -/
theorem Scan.exists_start_eq
    {file text : String} {s : Scan} (h : scan file text = .ok s) {t : Token} (ht : t ∈ s.all) :
    ∃ before behind : String, text = before ++ t.lexeme ++ behind ∧
      t.start = ({} : Position).skip before.toList := by
  obtain ⟨htext, hplaced⟩ := Scan.placed_of_scanFrom h
  obtain ⟨ts, us, hall⟩ := List.append_of_mem ht
  refine ⟨String.ofList (Token.characters ts ++ t.blank.toList),
    String.ofList (Token.characters us), ?_, ?_⟩
  · apply String.toList_inj.mp
    rw [htext, hall]
    simp [Token.characters]
  · rw [String.toList_ofList]
    exact (hplaced ts t us hall).start

theorem Scan.finish_of_scan
    {file text : String} {s : Scan} (h : scan file text = .ok s) :
    s.finish.start.offset = text.utf8ByteSize ∧ s.finish.stop = text.utf8ByteSize := by
  obtain ⟨htext, hplaced⟩ := Scan.placed_of_scanFrom h
  have hempty := Scan.lexeme_finish h
  have hwhole : text.toList = Token.characters s.tokens ++ s.finish.blank.toList := by
    rw [htext, Scan.all]
    simp [Token.characters, hempty]
  have hend : s.finish.start.offset = text.utf8ByteSize := by
    rw [(hplaced s.tokens s.finish [] rfl).start, ← hwhole, Position.offset_skip_toList]
  refine ⟨hend, ?_⟩
  rw [Token.stop, hempty, hend]
  rfl

/-- The tokens of every text that can be scanned tile it. -/
theorem tiles_of_scan {file text : String} {s : Scan} (h : scan file text = .ok s) :
    s.Tiles text := by
  obtain ⟨htext, hplaced⟩ := Scan.placed_of_scanFrom h
  refine
    { ended := Scan.isEnded_of_scanFrom h
      finish := Scan.finish_of_scan h
      nonempty := fun t ht => ?_
      ordered := (Scan.ordered_of_scanFrom h).2
      placed := fun t ht => ?_
      gaps := ⟨htext, fun ts t us hall => (hplaced ts t us hall).gap⟩
      said := fun t ht hkind => ?_
      alone := fun t ht file => ?_ }
  · obtain ⟨c, cs, hsource, -⟩ := Scan.isLexeme_of_mem h ht
    have hlexeme : t.lexeme = String.ofList (c :: cs) := by
      rw [← hsource, String.ofList_toList]
    rw [Token.stop, hlexeme, String.ofList_cons, String.utf8ByteSize_append,
      String.utf8ByteSize_singleton]
    have hpos := c.utf8Size_pos
    omega
  · obtain ⟨before, behind, hcut, hstart⟩ := Scan.exists_start_eq h ht
    have hoffset := Position.offset_skip_toList before
    refine ⟨before, behind, hcut, by rw [hstart, hoffset], ?_, ?_, ?_⟩
    · rw [Token.stop, hstart, hoffset, String.utf8ByteSize_append]
    · rw [hstart, Position.line_skip]
    · rw [hstart, Position.column_skip]
  · obtain ⟨c, cs, -, -, halone⟩ := Scan.isLexeme_of_mem h ht
    apply String.toList_inj.mp
    rcases Scan.lexeme_cases halone with hl | hl | hl | hl | hl <;> simp_all
  · have hlexeme := (Scan.isLexeme_of_mem h ht).scan_eq_ok file
    simpa only [String.ofList_toList] using hlexeme

/-- A text with characters of several bytes, comments of both kinds and a literal with escapes. -/
def leafText : String :=
  "# é\n método -1.5e+3 // ñ\n\t\"\\u00e9\\\n\" ... 'λ'#"

theorem tiles_leafText :
    ∃ s, scan "" leafText = .ok s ∧ s.Tiles leafText ∧ s.tokens.length = 5 := by
  have hscan : (scan "" leafText).toOption.map (fun s => s.tokens.length) = some 5 := by
    decide +kernel
  cases hs : scan "" leafText with
  | error f =>
    rw [hs] at hscan
    cases hscan
  | ok s =>
    rw [hs] at hscan
    exact ⟨s, rfl, tiles_of_scan hs, Option.some.inj hscan⟩

end ApiSurface
