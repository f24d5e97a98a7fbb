import ApiSurface.Proofs.Cursor.Slices

/-!
# Cursors and readers in step

A cursor is in step with a reader if, started where the tokens of the reader start, it ends where
the tokens that the reader leaves start, with the same result, or stops with the same fault.  A
cursor that is in step is finished and never out of bounds.  The rules below follow a cursor and a
reader through one step at a time.
-/

namespace ApiSurface
namespace Signature
namespace Cursor

variable {α β : Type}

theorem bind_of_ok
    {p : Cursor α} {k : α → Cursor β} {place place' : Nat} {x : α}
    (h : p place = .ok (x, place')) : (p >>= k) place = k x place' := by
  simp only [bind, StateT.bind, h, Except.bind]

theorem bind_of_error
    {p : Cursor α} {k : α → Cursor β} {place : Nat} {e : Halt}
    (h : p place = .error e) : (p >>= k) place = .error e := by
  simp only [bind, StateT.bind, h, Except.bind]

/-- The outcome of a cursor is that of a reader, and the place of the cursor is at least `low` and
at most that of the mark of the end. -/
inductive InStep (s : Scan) (low : Nat) :
    Except Halt (α × Nat) → Except Fault (α × List Token) → Prop where
  | ok (x : α) {place : Nat} (le : low ≤ place) (bound : place ≤ s.tokens.length) :
      InStep s low (.ok (x, place)) (.ok (x, s.tokens.drop place))
  | fault (f : Fault) : InStep s low (.error (.fault f)) (.error f)

namespace InStep

variable {s : Scan} {low low' place : Nat}

theorem mono
    {outcome : Except Halt (α × Nat)} {result : Except Fault (α × List Token)}
    (h : InStep s low outcome result) (hle : low' ≤ low) : InStep s low' outcome result := by
  cases h with
  | ok x le bound => exact .ok x (Nat.le_trans hle le) bound
  | fault f => exact .fault f

/-- A step of the cursor that is one of the reader. -/
theorem bind
    {p : Cursor α} {k : α → Cursor β} {result : Except Fault (α × List Token)}
    {next : α × List Token → Except Fault (β × List Token)} (h : InStep s low (p place) result)
    (hk : ∀ x place', low ≤ place' → place' ≤ s.tokens.length →
      InStep s low' (k x place') (next (x, s.tokens.drop place'))) :
    InStep s low' ((p >>= k) place) (result >>= next) := by
  generalize hp : p place = outcome at h
  cases h with
  | ok x le bound =>
    rw [bind_of_ok hp]
    exact hk x _ le bound
  | fault f =>
    rw [bind_of_error hp]
    exact .fault f

/-- A step that is not about tokens. -/
theorem bind_ofExcept
    {result : Except Fault α} {k : α → Cursor β} {next : α → Except Fault (β × List Token)}
    (hk : ∀ x, InStep s low (k x place) (next x)) :
    InStep s low ((ofExcept result >>= k) place) (result >>= next) := by
  cases result with
  | ok x =>
    rw [bind_of_ok (rfl : ofExcept (.ok x) place = .ok (x, place))]
    exact hk x
  | error f =>
    rw [bind_of_error (rfl : ofExcept (.error f) place = .error (.fault f))]
    exact .fault f

theorem ofExcept
    {result : Except Fault α} (hle : low ≤ place) (hbound : place ≤ s.tokens.length) :
    InStep s low (ofExcept result place)
      (result >>= fun x => .ok (x, s.tokens.drop place)) := by
  cases result with
  | ok x => exact .ok x hle hbound
  | error f => exact .fault f

/-- A reader that cannot fail. -/
theorem exists_of_ok
    {outcome : Except Halt (α × Nat)} {result : α × List Token}
    (h : InStep s low outcome (.ok result)) :
    ∃ x place, low ≤ place ∧ place ≤ s.tokens.length ∧ outcome = .ok (x, place) ∧
      result = (x, s.tokens.drop place) := by
  cases h with
  | ok x le bound => exact ⟨x, _, le, bound, rfl, rfl⟩

/-- Both ask for the same. -/
theorem ite
    {c : Prop} [Decidable c] {yes no : Cursor α} {yes' no' : Except Fault (α × List Token)}
    (hyes : c → InStep s low (yes place) yes') (hno : ¬ c → InStep s low (no place) no') :
    InStep s low ((if c then yes else no) place) (if c then yes' else no') := by
  by_cases hc : c
  · rw [if_pos hc, if_pos hc]
    exact hyes hc
  · rw [if_neg hc, if_neg hc]
    exact hno hc

/-- Both ask for the same, and the reader goes on with something else. -/
theorem ite_bind
    {c : Prop} [Decidable c] {yes no : Cursor β} {yes' no' : Except Fault (α × List Token)}
    {next : α × List Token → Except Fault (β × List Token)}
    (hyes : c → InStep s low (yes place) (yes' >>= next))
    (hno : ¬ c → InStep s low (no place) (no' >>= next)) :
    InStep s low ((if c then yes else no) place) ((if c then yes' else no') >>= next) := by
  rw [apply_ite (fun result => result >>= next)]
  exact ite hyes hno

end InStep

/-- A cursor that starts at `low` or behind is in step with a reader and moves by `gain` at
least. -/
def Follows (s : Scan) (low gain : Nat) (p : Cursor α) (reader : Reader α) : Prop :=
  ∀ place, low ≤ place → place ≤ s.tokens.length →
    InStep s (place + gain) (p place) (reader (s.tokens.drop place))

theorem Follows.inStep
    {s : Scan} {gain place : Nat} {p : Cursor α} {reader : Reader α}
    (hp : Follows s 0 gain p reader) (hbound : place ≤ s.tokens.length) :
    InStep s (place + gain) (p place) (reader (s.tokens.drop place)) :=
  hp place (Nat.zero_le _) hbound

end Cursor

/-- The readers of a source read the tokens of a tape, whose limit is more than their number. -/
structure Source.Reads (src : Source) (tape : Tape) (s : Scan) : Prop where
  scanned : ∃ file, scan file tape.text = .ok s
  tokens : tape.tokens = s.all
  limit : s.tokens.length < tape.limit
  finish : src.finish = s.finish

namespace Source.Reads

variable {src : Source} {tape : Tape} {s : Scan} (h : src.Reads tape s)

include h

theorem ended : s.IsEnded := by
  obtain ⟨file, hscan⟩ := h.scanned
  exact Scan.isEnded_of_scanFrom hscan

theorem room (place : Nat) : s.tokens.length - place < tape.limit :=
  Nat.lt_of_le_of_lt (Nat.sub_le _ _) h.limit

theorem withScope (scope : List String) : { src with scope }.Reads tape s :=
  ⟨h.scanned, h.tokens, h.limit, h.finish⟩

end Source.Reads

namespace Cursor

variable {src : Source} {tape : Tape} {s : Scan} {low place : Nat}

/-! ## Steps over tokens -/

/-- A next token in front of the mark of the end can be stepped over. -/
theorem drop_eq_cons {t : Token} {ts : List Token} (h : s.tokens.drop place = t :: ts) :
    place + 1 ≤ s.tokens.length ∧ ts = s.tokens.drop (place + 1) := by
  have hlt : place < s.tokens.length := by
    by_contra hle
    rw [List.drop_eq_nil_of_le (Nat.le_of_not_lt hle)] at h
    cases h
  rw [← List.tail_drop, h]
  exact ⟨hlt, rfl⟩

theorem length_of_head?_any {fits : Token → Bool}
    (h : (s.tokens.drop place).head?.any fits = true) : place + 1 ≤ s.tokens.length := by
  cases hts : s.tokens.drop place with
  | nil => simp [hts] at h
  | cons t ts => exact (drop_eq_cons hts).1

/-- Where the mark of the end does not fit, only a token in front of it can. -/
theorem fits_headD
    (fits : Token → Bool) (hfinish : fits s.finish = false) (ts : List Token) :
    fits (ts.headD s.finish) = ts.head?.any fits := by
  cases ts with
  | nil => exact hfinish
  | cons t ts => rfl

theorem get_eq (place : Nat) : (get : Cursor Nat) place = .ok (place, place) :=
  rfl

variable (h : src.Reads tape s)

include h

theorem last_eq : tape.last = s.tokens.length := by
  simp [Tape.last, h.tokens, Scan.all]

theorem tokenAt_eq {target : Nat} (htarget : target ≤ s.tokens.length) :
    tokenAt tape target place = .ok ((s.tokens.drop target).headD s.finish, place) := by
  have htoken : tape.tokens[target]? = some ((s.tokens.drop target).headD s.finish) := by
    rw [h.tokens, Scan.all]
    rcases Nat.lt_or_eq_of_le htarget with hlt | rfl
    · rw [List.getElem?_append_left hlt, List.headD_eq_head?_getD, List.head?_drop,
        List.getElem?_eq_getElem hlt]
      rfl
    · simp
  rw [tokenAt, htoken]
  rfl

/-- A look ahead never leaves the tokens: behind the last one there is the mark of the end. -/
theorem peekAt_eq (place offset : Nat) :
    peekAt tape offset place =
      .ok ((s.tokens.drop (place + offset)).headD s.finish, place) := by
  rw [peekAt, bind_of_ok (get_eq place), last_eq h, tokenAt_eq h (Nat.min_le_right _ _)]
  rcases Nat.le_total (place + offset) s.tokens.length with hle | hle
  · rw [Nat.min_eq_left hle]
  · rw [Nat.min_eq_right hle, List.drop_eq_nil_of_le hle, List.drop_length]

theorem move_eq {steps : Nat} (hsteps : place + steps ≤ s.tokens.length) :
    move tape steps place = .ok ((), place + steps) := by
  rw [move, bind_of_ok (get_eq place), last_eq h, if_pos hsteps]
  rfl

theorem eat_of_fits
    {fits : Token → Bool} (hfinish : fits s.finish = false)
    (hfits : (s.tokens.drop place).head?.any fits = true) :
    eat tape fits place = .ok (true, place + 1) := by
  rw [eat, bind_of_ok (peekAt_eq h place 0), Nat.add_zero, fits_headD fits hfinish, hfits,
    if_pos rfl, bind_of_ok (move_eq h (length_of_head?_any hfits))]
  rfl

theorem eat_of_not_fits
    {fits : Token → Bool} (hfinish : fits s.finish = false)
    (hfits : (s.tokens.drop place).head?.any fits = false) :
    eat tape fits place = .ok (false, place) := by
  rw [eat, bind_of_ok (peekAt_eq h place 0), Nat.add_zero, fits_headD fits hfinish, hfits,
    if_neg Bool.false_ne_true]
  rfl

/-- A look at a token leaves the cursor where it is. -/
theorem inStep_peekAt
    {offset : Nat} {k : Token → Cursor β} {result : Except Fault (β × List Token)}
    (hk : InStep s low (k ((s.tokens.drop (place + offset)).headD s.finish) place) result) :
    InStep s low ((peekAt tape offset >>= k) place) result := by
  rwa [bind_of_ok (peekAt_eq h place offset)]

theorem inStep_peek
    {k : Token → Cursor β} {result : Except Fault (β × List Token)}
    (hk : InStep s low (k ((s.tokens.drop place).headD s.finish) place) result) :
    InStep s low ((peekAt tape 0 >>= k) place) result :=
  inStep_peekAt h hk

theorem inStep_move
    {steps : Nat} {k : Unit → Cursor β} {result : Except Fault (β × List Token)}
    (hsteps : place + steps ≤ s.tokens.length)
    (hk : InStep s low (k () (place + steps)) result) :
    InStep s low ((move tape steps >>= k) place) result := by
  rwa [bind_of_ok (move_eq h hsteps)]

/-- The next token is stepped over if it fits. -/
theorem inStep_ifNext
    {fits : Token → Bool} (hfinish : fits s.finish = false)
    {yes no : Cursor β} {yes' no' : Except Fault (β × List Token)}
    (hyes : place + 1 ≤ s.tokens.length → InStep s low (yes (place + 1)) yes')
    (hno : InStep s low (no place) no') :
    InStep s low ((eat tape fits >>= fun b => if b = true then yes else no) place)
      (if (s.tokens.drop place).head?.any fits = true then yes' else no') := by
  cases hnext : (s.tokens.drop place).head?.any fits with
  | true =>
    rw [bind_of_ok (eat_of_fits h hfinish hnext), if_pos rfl, if_pos rfl]
    exact hyes (length_of_head?_any hnext)
  | false =>
    rwa [bind_of_ok (eat_of_not_fits h hfinish hnext), if_neg Bool.false_ne_true,
      if_neg Bool.false_ne_true]

/-- The next token is stepped over unless the reader sees none that fits. -/
theorem inStep_unlessNext
    {fits : Token → Bool} (hfinish : fits s.finish = false)
    {yes no : Cursor β} {yes' no' : Except Fault (β × List Token)}
    (hyes : place + 1 ≤ s.tokens.length → InStep s low (yes (place + 1)) yes')
    (hno : InStep s low (no place) no') :
    InStep s low ((eat tape fits >>= fun b => if b = true then yes else no) place)
      (if (!(s.tokens.drop place).head?.any fits) = true then no' else yes') := by
  have hswap : (if (!(s.tokens.drop place).head?.any fits) = true then no' else yes') =
      if (s.tokens.drop place).head?.any fits = true then yes' else no' := by
    cases (s.tokens.drop place).head?.any fits <;> rfl
  rw [hswap]
  exact inStep_ifNext h hfinish hyes hno

/-! ## Marks, words and names -/

theorem kind_of_drop_eq_cons
    {t : Token} {ts : List Token} (hts : s.tokens.drop place = t :: ts) : t.kind ≠ .endOfFile :=
  h.ended.tokens t (List.mem_of_mem_drop (by rw [hts]; exact List.mem_cons_self))

theorem isMark_finish (mark : String) : s.finish.isMark mark = false := by
  simp [Token.isMark, h.ended.finish]

theorem isWord_finish (word : String) : s.finish.isWord word = false := by
  simp [Token.isWord, h.ended.finish]

theorem isMark_headD (ts : List Token) (mark : String) :
    (ts.headD s.finish).isMark mark = atMark mark ts :=
  fits_headD (fun t => t.isMark mark) (isMark_finish h mark) ts

theorem isWord_headD (ts : List Token) (word : String) :
    (ts.headD s.finish).isWord word = atWord word ts :=
  fits_headD (fun t => t.isWord word) (isWord_finish h word) ts

theorem isName_headD (ts : List Token) :
    ((ts.headD s.finish).kind == .identifier) = atName ts :=
  fits_headD (fun t => t.kind == .identifier) (by simp [h.ended.finish]) ts

/-- A mark is stepped over if it comes next. -/
theorem inStep_ifMark
    {mark : String} {yes no : Cursor β} {yes' no' : Except Fault (β × List Token)}
    (hyes : place + 1 ≤ s.tokens.length → InStep s low (yes (place + 1)) yes')
    (hno : InStep s low (no place) no') :
    InStep s low ((eatMark tape mark >>= fun b => if b = true then yes else no) place)
      (if atMark mark (s.tokens.drop place) = true then yes' else no') :=
  inStep_ifNext h (isMark_finish h mark) hyes hno

/-- A mark is stepped over unless the reader does not see it. -/
theorem inStep_unlessMark
    {mark : String} {yes no : Cursor β} {yes' no' : Except Fault (β × List Token)}
    (hyes : place + 1 ≤ s.tokens.length → InStep s low (yes (place + 1)) yes')
    (hno : InStep s low (no place) no') :
    InStep s low ((eatMark tape mark >>= fun b => if b = true then yes else no) place)
      (if (!atMark mark (s.tokens.drop place)) = true then no' else yes') :=
  inStep_unlessNext h (isMark_finish h mark) hyes hno

/-- A word is stepped over if it comes next. -/
theorem inStep_ifWord
    {word : String} {yes no : Cursor β} {yes' no' : Except Fault (β × List Token)}
    (hyes : place + 1 ≤ s.tokens.length → InStep s low (yes (place + 1)) yes')
    (hno : InStep s low (no place) no') :
    InStep s low ((eatWord tape word >>= fun b => if b = true then yes else no) place)
      (if atWord word (s.tokens.drop place) = true then yes' else no') :=
  inStep_ifNext h (isWord_finish h word) hyes hno

theorem fail_eq (place : Nat) (expected : String) :
    (fail tape src expected : Cursor α) place =
      .error (.fault (src.fault (s.tokens.drop place) expected)) := by
  rw [fail, bind_of_ok (peekAt_eq h place 0), Source.fault, h.finish]
  rfl

theorem inStep_fail {expected : String} :
    InStep s low ((fail tape src expected : Cursor α) place)
      (.error (src.fault (s.tokens.drop place) expected)) := by
  rw [fail_eq h]
  exact .fault _

/-- A mark that is expected is stepped over. -/
theorem inStep_expectMark
    {mark : String} {k : Unit → Cursor β} {next : List Token → Except Fault (β × List Token)}
    (hk : place + 1 ≤ s.tokens.length →
      InStep s low (k () (place + 1)) (next (s.tokens.drop (place + 1)))) :
    InStep s low ((expectMark tape src mark >>= k) place)
      (src.expectMark mark (s.tokens.drop place) >>= next) := by
  cases hmark : atMark mark (s.tokens.drop place) with
  | true =>
    have hcursor : expectMark tape src mark place = .ok ((), place + 1) := by
      rw [expectMark, eatMark, bind_of_ok (eat_of_fits h (isMark_finish h mark) hmark)]
      rfl
    rw [bind_of_ok hcursor, Source.expectMark, if_pos hmark, List.tail_drop]
    exact hk (length_of_head?_any hmark)
  | false =>
    have hcursor : expectMark tape src mark place =
        .error (.fault (src.fault (s.tokens.drop place) s!"'{mark}'")) := by
      rw [expectMark, eatMark, bind_of_ok (eat_of_not_fits h (isMark_finish h mark) hmark)]
      exact fail_eq h place _
    rw [bind_of_error hcursor, Source.expectMark, if_neg (by simp [hmark])]
    exact .fault _

/-- A name that is expected is stepped over. -/
theorem follows_expectName (what : String) :
    Follows s 0 1 (expectName tape src what) (src.expectName what) := by
  intro place _ _
  refine inStep_peek h ?_
  cases hts : s.tokens.drop place with
  | nil =>
    have hkind : ¬ (List.headD [] s.finish).kind = .identifier := by simp [h.ended.finish]
    rw [if_neg hkind, Source.expectName, ← hts]
    exact inStep_fail h
  | cons t ts =>
    obtain ⟨hlength, rfl⟩ := drop_eq_cons hts
    refine .ite (fun _ => inStep_move h hlength (.ok _ (Nat.le_refl _) hlength)) fun _ => ?_
    rw [← hts]
    exact inStep_fail h

/-! ## Loops -/

/-- A loop over items with commas between them ends: each round takes a token. -/
theorem inStep_list
    {item : Cursor α} {reader : Reader α} {close : String} (hitem : Follows s low 1 item reader)
    {rounds rounds' : Nat} (hle : low ≤ place) (hbound : place ≤ s.tokens.length)
    (hrounds : s.tokens.length - place < rounds) (hrounds' : s.tokens.length - place < rounds') :
    InStep s (place + 1) (list tape src item close rounds place)
      (src.readList reader close rounds' (s.tokens.drop place)) := by
  induction rounds generalizing place rounds' with
  | zero => omega
  | succ rounds ih =>
    obtain ⟨rounds', rfl⟩ := Nat.exists_eq_succ_of_ne_zero (Nat.ne_zero_of_lt hrounds')
    refine (hitem place hle hbound).bind fun x place' hle' hbound' => ?_
    refine inStep_ifMark h (fun hlength => ?_) (inStep_expectMark h fun hlength => ?_)
    · rw [List.tail_drop]
      exact .ok _ (by omega) hlength
    · refine (ih (by omega) hlength (by omega) (by omega)).bind fun xs place'' hle'' hbound'' => ?_
      exact .ok _ (by omega) hbound''

/-- A loop over items with marks between them ends: each round takes a token. -/
theorem inStep_separated
    {item : Cursor α} {reader : Reader α} {mark : String} (hitem : Follows s low 1 item reader)
    {rounds rounds' : Nat} (hle : low ≤ place) (hbound : place ≤ s.tokens.length)
    (hrounds : s.tokens.length - place < rounds) (hrounds' : s.tokens.length - place < rounds') :
    InStep s (place + 1) (separated tape item mark rounds place)
      (src.readSeparated reader mark rounds' (s.tokens.drop place)) := by
  induction rounds generalizing place rounds' with
  | zero => omega
  | succ rounds ih =>
    obtain ⟨rounds', rfl⟩ := Nat.exists_eq_succ_of_ne_zero (Nat.ne_zero_of_lt hrounds')
    refine (hitem place hle hbound).bind fun x place' hle' hbound' => ?_
    refine inStep_unlessMark h (fun hlength => ?_) (.ok _ hle' hbound')
    rw [List.tail_drop]
    refine (ih (by omega) hlength (by omega) (by omega)).bind fun xs place'' hle'' hbound'' => ?_
    exact .ok _ (by omega) hbound''

end Cursor
end Signature
end ApiSurface
