import ApiSurface.Proofs.Bracketing
import ApiSurface.Proofs.Cursor.Slices
import ApiSurface.Proofs.Layout.Reading

/-!
# Values can be written back as they were read

A value is the stretch of the text from its first token to its last.  Its brackets are closed, and
none of the marks that may end it stands outside of them.  Wherever the value is written in front of
a mark that ends values, the same tokens are found in it again, so that it is read again as it is.
-/

namespace ApiSurface

/-! ## Brackets of a value -/

theorem Brackets.change_ofValue {t : Token} :
    Brackets.ofValue.change t =
      if t.kind ≠ .punctuation then 0
      else if t.text ∈ ["(", Token.openBrace, "["] then 1
      else if t.text ∈ [")", Token.closeBrace, "]"] then -1
      else 0 := by
  by_cases hkind : t.kind = .punctuation
  · simp [change, ofValue, Token.isMark, hkind]
  · simp [change, ofValue, Token.isMark, hkind]

/-- One token of a value changes the number of open brackets, and is no stop unless one is open. -/
theorem encloses_cons
    {stops : List String} {depth : Nat} {t : Token} {signs : List Sign}
    (h : encloses stops depth (t.exactSign :: signs) = true) :
    (t.kind = .punctuation → t.text ∈ stops → 0 < depth) ∧
      ∃ depth', encloses stops depth' signs = true ∧
        (depth' : Int) = depth + Brackets.ofValue.change t := by
  rw [Brackets.change_ofValue]
  rw [encloses_exactSign] at h
  split at h
  · rename_i hkind
    rw [if_pos hkind]
    exact ⟨fun hmark => absurd hmark hkind, depth, h, by simp⟩
  rename_i hkind
  rw [if_neg hkind]
  split at h
  · cases h
  rename_i hstop
  refine ⟨fun _ hmem => Nat.pos_of_ne_zero fun hzero => hstop ⟨hzero, hmem⟩, ?_⟩
  split at h
  · rename_i hopen
    rw [if_pos hopen]
    exact ⟨depth + 1, h, by simp⟩
  rename_i hopen
  rw [if_neg hopen]
  split at h
  · rename_i hclose
    rw [if_pos hclose]
    obtain ⟨hpos, h⟩ := Bool.and_eq_true_iff.mp h
    have hpos : 0 < depth := of_decide_eq_true hpos
    exact ⟨depth - 1, h, by omega⟩
  · rename_i hclose
    rw [if_neg hclose]
    exact ⟨depth, h, by simp⟩

/-- Along the tokens of a value the number of open brackets comes back to zero.  It is never
negative, and positive in front of a stop. -/
theorem depth_of_encloses
    {stops : List String} {depth : Nat} {ts : List Token}
    (h : encloses stops depth (ts.map Token.exactSign) = true) :
    depth + Brackets.ofValue.depth ts = 0 ∧
      ∀ front behind, ts = front ++ behind → 0 ≤ depth + Brackets.ofValue.depth front ∧
        ∀ t ∈ behind.head?, t.kind = .punctuation → t.text ∈ stops →
          0 < depth + Brackets.ofValue.depth front := by
  induction ts generalizing depth with
  | nil =>
    obtain rfl : depth = 0 := by simpa [encloses] using h
    refine ⟨rfl, fun front behind hsplit => ?_⟩
    obtain ⟨rfl, rfl⟩ := List.append_eq_nil_iff.mp hsplit.symm
    exact ⟨Int.le_refl 0, by simp⟩
  | cons t ts ih =>
    obtain ⟨hstop, depth', hothers, hdepth⟩ := encloses_cons h
    obtain ⟨htotal, hfronts⟩ := ih hothers
    refine ⟨by rw [Brackets.depth_cons]; omega, fun front behind hsplit => ?_⟩
    cases front with
    | nil =>
      obtain rfl : t :: ts = behind := hsplit
      refine ⟨by simp, fun u hu hkind hmem => ?_⟩
      obtain rfl : t = u := by simpa using hu
      simpa using hstop hkind hmem
    | cons u front =>
      obtain ⟨rfl, hinner⟩ := List.cons.inj hsplit
      have hfront := hfronts front behind hinner
      rwa [hdepth, Int.add_assoc, ← Brackets.depth_cons] at hfront

namespace Signature

open Scan (Apart)

/-! ## Values -/

/-- The value is what a text has from the first of the tokens to the last.  The tokens close their
brackets, and the first of the stops outside of brackets is the token behind them. -/
structure IsCutOut
    (text : String) (stops : List String) (used rest : List Token) (value : String) : Prop where
  source : ∃ first last front behind, used.head? = some first ∧ used.getLast? = some last ∧
    text = front ++ value ++ behind ∧ front.utf8ByteSize = first.start.offset ∧
    (front ++ value).utf8ByteSize = last.stop
  closes : Brackets.ofValue.Closes used
  inside : ∀ front t behind, used = front ++ t :: behind → t.kind = .punctuation →
    t.text ∈ stops → 0 < Brackets.ofValue.depth front
  stop : ∃ mark ∈ stops, atMark mark rest = true

namespace Source

variable {src : Source} {stops : List String} {ts used rest : List Token} {value : String}

/-- A value that was read is the text of the tokens taken for it. -/
theorem exists_takeValue_of_readValueText
    (h : src.readValueText stops ts = .ok (value, rest)) :
    ∃ t others, src.takeValue stops 0 ts = .ok (t :: others, rest) ∧
      value = Token.sourceText (t :: others) := by
  obtain ⟨⟨taken, rest'⟩, htake, hvalue⟩ := bind_eq_ok.mp h
  cases taken with
  | nil => simp at hvalue
  | cons t others =>
    simp only [List.isEmpty_cons, Bool.false_eq_true, if_false, pure_eq_ok, Except.ok.injEq,
      Prod.mk.injEq] at hvalue
    obtain ⟨rfl, rfl⟩ := hvalue
    exact ⟨t, others, htake, rfl⟩

theorem isCutOut_of_takeValue
    {file text : String} {s : Scan} (hscan : scan file text = .ok s) {before : List Token}
    (htokens : s.tokens = before ++ ts) {t : Token} {others : List Token}
    (h : src.takeValue stops 0 ts = .ok (t :: others, rest)) :
    IsCutOut text stops (t :: others) rest (Token.sourceText (t :: others)) := by
  obtain ⟨rfl, henclosed, hstop⟩ := encloses_of_takeValue h
  obtain ⟨hdepth, hfronts⟩ := depth_of_encloses henclosed
  rw [← List.append_assoc] at htokens
  obtain ⟨front, behind, htext⟩ := Scan.exists_eq_sourceText hscan htokens
    (List.getLast?_eq_some_getLast (List.cons_ne_nil t others))
  refine ⟨⟨t, _, front, behind, rfl, List.getLast?_eq_some_getLast _, htext⟩,
    ⟨fun front behind hsplit => ?_, ?_⟩, fun front u behind hsplit hkind hmem => ?_, hstop⟩
  · simpa using (hfronts front behind hsplit).1
  · simpa using hdepth
  · simpa using (hfronts front (u :: behind) hsplit).2 u rfl hkind hmem

/-- In front of any of the marks that end values in a text, the tokens of a value are found again in
what is written for it. -/
theorem exists_scan_sourceText
    {file text : String} {s : Scan} (hscan : scan file text = .ok s) {before : List Token}
    {t : Token} {others : List Token} (htokens : s.tokens = before ++ (t :: others ++ rest))
    {mark : String} (hmark : mark ∈ [";", ",", ")"]) {file' tail : String} {next : Scan}
    (hnext : scan file' tail = .ok next) :
    ∃ s' used stop left,
      scan file' (Token.sourceText (t :: others) ++ mark ++ tail) = .ok s' ∧
      s'.tokens = used ++ stop :: left ∧
      Renders used (Token.exactSigns (t :: others)) ∧ stop.isMark mark = true ∧
      Token.exactSigns left = Token.exactSigns next.tokens := by
  have hknown : mark ∈ Scan.markTexts ∧ ∃ c cs, mark.toList = c :: cs ∧ Scan.apart c = true := by
    simp only [List.mem_cons, List.not_mem_nil, or_false] at hmark
    rcases hmark with rfl | rfl | rfl <;> exact ⟨by decide, _, _, rfl, by decide⟩
  obtain ⟨hmem, c, cs, hchars, hc⟩ := hknown
  have hapart : Apart (mark.toList ++ tail.toList) := by
    rw [hchars]
    exact Scan.Apart.cons hc
  -- The tokens are cut off alike in front of the mark, since it is apart from all of them.
  obtain ⟨_, _, _, s₁, hs₁, htokens₁⟩ : Scanned (t :: others ++ rest) :=
    Scanned.append ⟨file, {}, text.toList, s, hscan, htokens⟩
  obtain ⟨_, hcuts⟩ := Scan.cuts_sourceText hs₁ htokens₁
  obtain ⟨-, last, hbehind, hend⟩ :=
    Scan.spells_mark hmem tail.toList _ trivial (reads_of_scanFrom hnext)
  obtain ⟨s', hs', hrenders⟩ := Scan.Scans.scanFrom_eq_ok
    ⟨last, (hcuts.transplant hapart).append hbehind, hend⟩ file' {}
  obtain ⟨used, _, hsplit, hused, hothers⟩ := hrenders.of_append
  cases hothers with
  | @cons stop _ left _ hstop hleft =>
    refine ⟨s', used, stop, left, ?_, hsplit, hused, ?_, Token.exactSigns_eq_of_renders hleft⟩
    · rw [scan, String.append_assoc, String.toList_append, String.toList_append]
      exact hs'
    · rw [hstop.isMark_eq, Sign.isMark_mark, beq_self_eq_true]

/-- A value is read again where its tokens stand in front of a stop. -/
theorem readValueText_of_renders
    (src : Source) {t : Token} {others : List Token}
    (henclosed : encloses stops 0 (Token.exactSigns (t :: others)) = true)
    (hused : Renders used (Token.exactSigns (t :: others)))
    (hstop : ∃ mark ∈ stops, atMark mark rest = true) :
    src.readValueText stops (used ++ rest) = .ok (Token.sourceText (t :: others), rest) := by
  have hsource := Token.sourceText_eq_of_exactSigns (Token.exactSigns_eq_of_renders hused)
  rw [readValueText, src.takeValue_of_encloses hused henclosed hstop, ok_bind]
  cases hused with
  | cons _ _ =>
    rw [← hsource]
    rfl

/-- A value that is read from a text is cut out of it.  Written in front of a mark that ends values,
and of any other text, it has the same tokens and is read again. -/
theorem readValueText_verbatim
    (src : Source) {file text : String} {s : Scan} (hscan : scan file text = .ok s)
    {before : List Token} (htokens : s.tokens = before ++ ts)
    (h : src.readValueText stops ts = .ok (value, rest)) :
    ∃ used, ts = used ++ rest ∧ IsCutOut text stops used rest value ∧
      ∀ mark ∈ [";", ",", ")"], ∀ (file' tail : String) (next : Scan),
        scan file' tail = .ok next →
        ∃ s' used' stop left, scan file' (value ++ mark ++ tail) = .ok s' ∧
          s'.tokens = used' ++ stop :: left ∧
          Token.exactSigns used' = Token.exactSigns used ∧ stop.isMark mark = true ∧
          Token.exactSigns left = Token.exactSigns next.tokens ∧
          (mark ∈ stops → ∀ src' : Source,
            src'.readValueText stops s'.tokens = .ok (value, stop :: left)) := by
  obtain ⟨t, others, htake, rfl⟩ := exists_takeValue_of_readValueText h
  have hcut := isCutOut_of_takeValue hscan htokens htake
  obtain ⟨rfl, henclosed, -⟩ := encloses_of_takeValue htake
  refine ⟨t :: others, rfl, hcut, fun mark hmark file' tail next hnext => ?_⟩
  obtain ⟨s', used', stop, left, hs', hsplit, hused, hstop, hleft⟩ :=
    exists_scan_sourceText hscan htokens hmark hnext
  refine ⟨s', used', stop, left, hs', hsplit, Token.exactSigns_eq_of_renders hused, hstop, hleft,
    fun hmem src' => ?_⟩
  rw [hsplit]
  exact src'.readValueText_of_renders henclosed hused ⟨mark, hmem, hstop⟩

end Source

/-- A default with a bracket in a literal, a stop in a comment and a number behind a sign. -/
def shiftValue : String :=
  "shift('(', // 1;\n  b[2]) -.5"

/-- The default in a list of parameters. -/
def shiftText : String :=
  "int by = " ++ shiftValue ++ ", int to)"

def shiftSource : Source :=
  { settings := Format.v3.readSettings none
    finish := { kind := .endOfFile, text := "", blank := "", lexeme := "", start := {} } }

theorem shiftText_verbatim :
    ∃ s used rest, scan "" shiftText = .ok s ∧
      shiftSource.readValueText [",", ")"] (s.tokens.drop 3) = .ok (shiftValue, rest) ∧
      IsCutOut shiftText [",", ")"] used rest shiftValue ∧
      ∃ s' left, scan "" (shiftValue ++ ")" ++ "") = .ok s' ∧
        shiftSource.readValueText [",", ")"] s'.tokens = .ok (shiftValue, left) := by
  obtain ⟨next, hnext, -⟩ := (Scan.spells_empty Scan.Anything).scan_eq_ok ""
  have hread : ((scan "" shiftText).toOption.bind fun s =>
      (shiftSource.readValueText [",", ")"] (s.tokens.drop 3)).toOption.map Prod.fst) =
        some shiftValue := by
    decide +kernel
  cases hscan : scan "" shiftText with
  | error fault =>
    rw [hscan] at hread
    cases hread
  | ok s =>
    rw [hscan] at hread
    cases hvalue : shiftSource.readValueText [",", ")"] (s.tokens.drop 3) with
    | error fault =>
      simp [Except.toOption, hvalue] at hread
    | ok p =>
      obtain ⟨value, rest⟩ := p
      obtain rfl : value = shiftValue := by simpa [Except.toOption, hvalue] using hread
      obtain ⟨used, -, hcut, hback⟩ := Source.readValueText_verbatim _ hscan
        (List.take_append_drop 3 s.tokens).symm hvalue
      obtain ⟨s', _, _, _, hs', -, -, -, -, hagain⟩ := hback ")" (by decide) "" "" next hnext
      exact ⟨s, used, rest, rfl, hvalue, hcut, s', _, hs', hagain (by decide) _⟩

end Signature
end ApiSurface
