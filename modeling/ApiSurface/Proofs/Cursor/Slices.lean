import ApiSurface.Proofs.RawValue
import ApiSurface.Signature.Cursor

/-!
# Where tokens stand in a text

The tokens of a scan and the blanks in front of them are the text from its start on, so a token
starts and stops where some of the characters of the text end.  The characters of a stretch of
tokens are therefore those between the start of its first token and the stop of its last.
-/

namespace ApiSurface

theorem Position.offset_skip (p : Position) (cs : List Char) :
    (p.skip cs).offset = p.offset + (String.ofList cs).utf8ByteSize := by
  induction cs generalizing p with
  | nil => simp [skip]
  | cons c cs ih =>
    have hnext : (p.next c).offset = p.offset + c.utf8Size := by
      unfold next
      split <;> rfl
    have hskip := ih (p.next c)
    rw [hnext, Nat.add_assoc] at hskip
    rw [String.ofList_cons, String.utf8ByteSize_append, String.utf8ByteSize_singleton, ← hskip]
    rfl

namespace Scan

/-- The end of the text is marked at the end of the scan and nowhere else. -/
structure IsEnded (s : Scan) : Prop where
  finish : s.finish.kind = .endOfFile
  tokens : ∀ t ∈ s.tokens, t.kind ≠ .endOfFile

theorem kind_of_lexeme
    {c : Char} {cs rest : List Char} {l : Lexeme} (h : lexeme c cs = .ok (l, rest)) :
    l.kind ≠ .endOfFile := by
  unfold lexeme at h
  split at h
  · cases h
    simp
  split at h
  · cases h
    simp
  split at h
  · split at h <;> cases h
    simp
  split at h
  · split at h <;> cases h
    simp
  · split at h <;> cases h <;> simp

/-- What holds of the end of a text and is kept by a token in front holds of every scan. -/
theorem scanFrom_induction
    {file : String} {motive : Position → List Char → Scan → Prop}
    (finish : ∀ p cs blank, splitBlank false cs = (blank, []) →
      motive p cs { tokens := [], finish :=
        { kind := .endOfFile, text := "", blank := String.ofList blank, lexeme := "",
          start := p.skip blank } })
    (token : ∀ p cs blank c body l rest s, splitBlank false cs = (blank, c :: body) →
      lexeme c body = .ok (l, rest) → motive ((p.skip blank).skip l.source) rest s →
      motive p cs { s with tokens :=
        { kind := l.kind, text := String.ofList l.text, blank := String.ofList blank,
          lexeme := String.ofList l.source, start := p.skip blank } :: s.tokens })
    {p : Position} {cs : List Char} {s : Scan} (h : scanFrom file p cs = .ok s) :
    motive p cs s := by
  fun_induction scanFrom file p cs generalizing s with
  | case1 p cs blank hblank =>
    cases h
    exact finish p cs blank hblank
  | case2 => cases h
  | case3 p cs blank c body hblank start l rest hlexeme =>
    rename_i ih
    cases hrest : scanFrom file (start.skip l.source) rest with
    | error f => simp [hrest, Except.map] at h
    | ok s' =>
      rw [hrest] at h
      cases h
      exact token p cs blank c body l rest s' hblank hlexeme (ih hrest)

theorem isEnded_of_scanFrom
    {file : String} {p : Position} {cs : List Char} {s : Scan} (h : scanFrom file p cs = .ok s) :
    s.IsEnded := by
  refine scanFrom_induction (motive := fun _ _ s => s.IsEnded) ?_ ?_ h
  · intro p cs blank _
    exact ⟨rfl, by simp⟩
  · intro p cs blank c body l rest s _ hlexeme hended
    exact ⟨hended.finish, List.forall_mem_cons.mpr ⟨kind_of_lexeme hlexeme, hended.tokens⟩⟩

/-- There are no more tokens than characters. -/
theorem length_tokens_le
    {file : String} {p : Position} {cs : List Char} {s : Scan} (h : scanFrom file p cs = .ok s) :
    s.tokens.length ≤ cs.length := by
  refine scanFrom_induction (motive := fun _ cs s => s.tokens.length ≤ cs.length) ?_ ?_ h
  · intro p cs blank _
    exact Nat.zero_le _
  · intro p cs blank c body l rest s hblank hlexeme hothers
    have hcs := congrArg List.length (splitBlank_append false cs)
    have hbody := congrArg List.length (lexeme_append hlexeme)
    have hpos := List.length_pos_iff.mpr (lexeme_source_ne_nil hlexeme)
    rw [hblank] at hcs
    simp only [List.length_append, List.length_cons] at hcs hbody ⊢
    omega

/-- A token starts behind the characters of the tokens before it and its own blanks. -/
theorem offset_of_scanFrom
    {file : String} {p : Position} {cs : List Char} {s : Scan} {ts us : List Token} {t : Token}
    (h : scanFrom file p cs = .ok s) (htokens : s.tokens = ts ++ t :: us) :
    t.start.offset =
      p.offset + (String.ofList (Token.characters ts ++ t.blank.toList)).utf8ByteSize := by
  refine scanFrom_induction (motive := fun p _ s => ∀ ts, s.tokens = ts ++ t :: us →
    t.start.offset = p.offset +
      (String.ofList (Token.characters ts ++ t.blank.toList)).utf8ByteSize) ?_ ?_ h ts htokens
  · intro p cs blank _ ts htokens
    simp at htokens
  · intro p cs blank c body l rest s _ _ ih ts htokens
    cases ts with
    | nil =>
      obtain ⟨rfl, -⟩ := List.cons.inj htokens
      simpa [Token.characters] using p.offset_skip blank
    | cons u ts =>
      obtain ⟨rfl, hothers⟩ := List.cons.inj htokens
      rw [ih ts hothers, Position.offset_skip, Position.offset_skip]
      simp [Token.characters, String.utf8ByteSize_append, Nat.add_assoc]

/-- A token stops behind its own characters. -/
theorem stop_of_scanFrom
    {file : String} {p : Position} {cs : List Char} {s : Scan} {ts us : List Token} {t : Token}
    (h : scanFrom file p cs = .ok s) (htokens : s.tokens = ts ++ t :: us) :
    t.stop = p.offset + (String.ofList (Token.characters (ts ++ [t]))).utf8ByteSize := by
  rw [Token.stop, offset_of_scanFrom h htokens]
  simp [Token.characters, String.utf8ByteSize_append, Nat.add_assoc]

/-- A stretch of tokens stands in the text from the start of its first token to the stop of its
last. -/
theorem exists_eq_sourceText
    {file text : String} {s : Scan} (hscan : scan file text = .ok s) {ts us vs : List Token}
    {t u : Token} (htokens : s.tokens = ts ++ (t :: vs) ++ us)
    (hlast : (t :: vs).getLast? = some u) :
    ∃ front behind, text = front ++ Token.sourceText (t :: vs) ++ behind ∧
      front.utf8ByteSize = t.start.offset ∧
      (front ++ Token.sourceText (t :: vs)).utf8ByteSize = u.stop := by
  obtain ⟨rest, hcuts⟩ := cuts_of_scanFrom hscan htokens
  have hbefore := offset_of_scanFrom hscan
    (by rw [htokens]; simp : s.tokens = ts ++ t :: (vs ++ us))
  obtain ⟨ws, hws⟩ := List.getLast?_eq_some_iff.mp hlast
  have hbehind := stop_of_scanFrom hscan
    (by rw [htokens, hws]; simp : s.tokens = (ts ++ ws) ++ u :: us)
  rw [List.append_assoc, ← hws] at hbehind
  have hcharacters : String.ofList (Token.characters (ts ++ t :: vs)) =
      String.ofList (Token.characters ts ++ t.blank.toList) ++ Token.sourceText (t :: vs) := by
    apply String.toList_inj.mp
    simp [Token.toList_sourceText, Token.characters]
  refine ⟨String.ofList (Token.characters ts ++ t.blank.toList), String.ofList rest, ?_, ?_, ?_⟩
  · rw [← hcharacters, ← String.ofList_append, ← hcuts.characters, String.ofList_toList]
  · rw [hbefore, Nat.zero_add]
  · rw [hbehind, hcharacters, Nat.zero_add]

end Scan

namespace Signature

/-- The text between two others starts where the first ends, and stops where the last starts. -/
theorem Tape.slice?_append
    {tape : Tape} {before between behind : String} (h : tape.text = before ++ between ++ behind) :
    tape.slice? before.utf8ByteSize (before ++ between).utf8ByteSize = some between := by
  have hstart : String.Pos.Raw.IsValid tape.text ⟨before.utf8ByteSize⟩ :=
    String.Pos.Raw.isValid_iff_exists_append.mpr
      ⟨before, between ++ behind, by rw [h, String.append_assoc], rfl⟩
  have hstop : String.Pos.Raw.IsValid tape.text ⟨(before ++ between).utf8ByteSize⟩ :=
    String.Pos.Raw.isValid_iff_exists_append.mpr ⟨before ++ between, behind, h, rfl⟩
  have hle : before.utf8ByteSize ≤ (before ++ between).utf8ByteSize := by
    rw [String.utf8ByteSize_append]
    exact Nat.le_add_right _ _
  rw [slice?, dif_pos ⟨hle, hstop.le_utf8ByteSize, hstart, hstop⟩]
  congr 1
  apply String.toByteArray_inj.mp
  rw [String.toByteArray_extract]
  change tape.text.toByteArray.extract before.utf8ByteSize (before ++ between).utf8ByteSize = _
  rw [h]
  have hnone : before.toByteArray.extract before.utf8ByteSize
      (before.utf8ByteSize + between.utf8ByteSize) = ByteArray.empty :=
    ByteArray.extract_eq_empty_iff.mpr (Nat.min_le_right _ _)
  have hall : between.toByteArray.extract 0 between.utf8ByteSize = between.toByteArray :=
    ByteArray.extract_zero_size
  simp [String.toByteArray_append, ByteArray.extract_append, hnone, hall]

/-- A stretch of tokens is cut out of the text by the start of its first token and the stop of its
last. -/
theorem slice?_sourceText
    {file : String} {tape : Tape} {s : Scan} (hscan : scan file tape.text = .ok s)
    {ts us vs : List Token} {t u : Token} (htokens : s.tokens = ts ++ (t :: vs) ++ us)
    (hlast : (t :: vs).getLast? = some u) :
    tape.slice? t.start.offset u.stop = some (Token.sourceText (t :: vs)) := by
  obtain ⟨front, behind, htext, hstart, hstop⟩ := Scan.exists_eq_sourceText hscan htokens hlast
  rw [← hstart, ← hstop]
  exact Tape.slice?_append htext

end Signature
end ApiSurface
