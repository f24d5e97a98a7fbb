import ApiSurface.Proofs.Cursor.InStep
import Mathlib.Data.Nat.Basic
import Mathlib.Order.Basic

/-!
# Reading stays within bounds

The cursor that reads by places is in step with every reader of token lists.  So it comes to an end
on every text and is never out of bounds, and the number of tokens that are left, which bounds the
loops and the depth of the readers, never cuts them off.
-/

namespace ApiSurface
namespace Signature
namespace Cursor

open Annotation (Value)

variable {src : Source} {tape : Tape} {s : Scan} {low place : Nat} (h : src.Reads tape s)

include h

/-! ## Values kept as written -/

/-- A value is stepped over token by token, each of which is in front of the mark of the end. -/
theorem inStep_skipValue
    (stops : List String) {rounds : Nat} (depth : Nat) (hbound : place ≤ s.tokens.length)
    (hrounds : s.tokens.length - place < rounds) :
    InStep s place (skipValue tape src stops rounds depth place)
      (src.takeValue stops depth (s.tokens.drop place) >>= fun p => .ok ((), p.2)) := by
  induction rounds generalizing place depth with
  | zero => omega
  | succ rounds ih =>
    rw [skipValue]
    refine inStep_peek h ?_
    cases hts : s.tokens.drop place with
    | nil =>
      rw [List.headD_nil, if_pos h.ended.finish, Source.takeValue, ← hts]
      exact inStep_fail h
    | cons t ts =>
      obtain ⟨hlength, rfl⟩ := drop_eq_cons hts
      have hkeep : ∀ depth', InStep s place
          ((do move tape 1; skipValue tape src stops rounds depth') place)
          ((src.takeValue stops depth' (s.tokens.drop (place + 1)) >>=
            fun p => .ok (t :: p.1, p.2)) >>= fun p => .ok ((), p.2)) := by
        intro depth'
        have hrest := (ih depth' hlength (by omega)).mono (Nat.le_succ place)
        refine inStep_move h hlength ?_
        cases hvalue : src.takeValue stops depth' (s.tokens.drop (place + 1)) <;>
          rwa [hvalue] at hrest
      rw [List.headD_cons, if_neg (kind_of_drop_eq_cons h hts), Source.takeValue.eq_def]
      refine .ite_bind (fun _ => hkeep depth) fun _ => ?_
      refine .ite_bind (fun _ => ?_) fun _ => ?_
      · rw [← hts]
        exact .ok () le_rfl hbound
      refine .ite_bind (fun _ => hkeep (depth + 1)) fun _ => ?_
      refine .ite_bind (fun _ => ?_) fun _ => hkeep depth
      cases depth with
      | zero =>
        rw [if_pos rfl, ← hts]
        exact inStep_fail h
      | succ depth => exact hkeep depth

/-- A value is cut out of the text from its first token to the one in front of the cursor. -/
theorem textFrom_eq
    {place' : Nat} {value : List Token} (hne : value ≠ [])
    (hvalue : s.tokens.drop place = value ++ s.tokens.drop place')
    (hbound : place' ≤ s.tokens.length) :
    textFrom tape place place' = .ok (Token.sourceText value, place') := by
  obtain ⟨t, ts, rfl⟩ := List.exists_cons_of_ne_nil hne
  obtain ⟨us, u, hus⟩ : ∃ us u, t :: ts = us ++ [u] :=
    ⟨_, _, (List.dropLast_append_getLast hne).symm⟩
  obtain ⟨file, hscan⟩ := h.scanned
  have hlength := congrArg List.length hvalue
  simp only [hus, List.length_drop, List.length_append, List.length_singleton] at hlength
  have hall : s.tokens = s.tokens.take place ++ (t :: ts) ++ s.tokens.drop place' := by
    rw [List.append_assoc, ← hvalue, List.take_append_drop]
  have hfirst : (s.tokens.drop place).headD s.finish = t := by rw [hvalue]; rfl
  have hlast : s.tokens.drop (place' - 1) = u :: s.tokens.drop place' := by
    have hsplit : s.tokens = (s.tokens.take place ++ us) ++ u :: s.tokens.drop place' :=
      hall.trans (by rw [hus]; simp only [List.append_assoc, List.singleton_append])
    conv_lhs => rw [hsplit]
    exact List.drop_left' (by simp; omega)
  rw [textFrom, bind_of_ok (get_eq place'), if_neg (by omega), bind_of_ok (tokenAt_eq h (by omega)),
    bind_of_ok (tokenAt_eq h (by omega)), hfirst, hlast, List.headD_cons,
    slice?_sourceText hscan hall (List.getLast?_eq_some_iff.mpr ⟨us, hus⟩)]
  rfl

theorem follows_valueText (stops : List String) :
    Follows s 0 1 (valueText tape src stops) (src.readValueText stops) := by
  intro place _ hbound
  rw [valueText, bind_of_ok (get_eq place), Source.readValueText]
  have hskip := inStep_skipValue h stops 0 hbound (h.room place)
  generalize hcursor : skipValue tape src stops tape.limit 0 place = outcome at hskip
  cases hvalue : src.takeValue stops 0 (s.tokens.drop place) with
  | error f =>
    rw [hvalue] at hskip
    cases hskip
    rw [bind_of_error hcursor]
    exact .fault f
  | ok p =>
    obtain ⟨value, rest⟩ := p
    rw [hvalue] at hskip
    cases hskip with
    | @ok _ place' hle hbound' =>
      rw [bind_of_ok hcursor, bind_of_ok (get_eq place')]
      have hsplit := (Source.encloses_of_takeValue hvalue).1
      have hlength := congrArg List.length hsplit
      rw [List.length_append, List.length_drop, List.length_drop] at hlength
      cases value with
      | nil =>
        rw [if_pos (by simp at hlength; omega)]
        exact inStep_fail h
      | cons t ts =>
        rw [List.length_cons] at hlength
        rw [if_neg (by omega), textFrom_eq h (List.cons_ne_nil t ts) hsplit hbound']
        exact .ok _ (by omega) hbound'

/-! ## Annotations -/

theorem follows_namedValue
    {value : Cursor Value} {reader : Reader Value} (hvalue : Follows s low 1 value reader) :
    Follows s low 1 (namedValue tape src value) (src.readAttribute reader) := by
  intro place hle hbound
  refine ((follows_expectName h _).inStep hbound).bind fun name place' hle' hbound' => ?_
  refine inStep_expectMark h fun hlength => ?_
  refine (hvalue _ (by omega) hlength).bind fun v place'' hle'' hbound'' => ?_
  exact .ok _ (by omega) hbound''

theorem follows_annotationArguments
    {value : Cursor Value} {reader : Reader Value} (hvalue : Follows s low 1 value reader) :
    Follows s low 0 (annotationArguments tape src value) (src.readAttributes reader) := by
  intro place hle hbound
  rw [annotationArguments, Source.readAttributes, List.tail_drop, List.tail_drop, List.length_drop]
  refine inStep_unlessMark h (fun hlength => ?_) (.ok _ le_rfl hbound)
  refine inStep_ifMark h (fun hlength' => .ok _ (by omega) hlength') ?_
  refine inStep_peek h (inStep_peekAt h ?_)
  rw [isName_headD h, isMark_headD h]
  refine .ite (fun _ => ?_) fun _ => ?_
  · exact (inStep_list h (follows_namedValue h hvalue) (by omega) hlength (h.room _)
      (by omega)).mono (by omega)
  · refine (hvalue _ (by omega) hlength).bind fun v place' hle' hbound' => ?_
    exact inStep_expectMark h fun hlength => .ok _ (by omega) hlength

/-- The values in an annotation start behind its first token. -/
theorem inStep_annotationWith
    {value : Cursor Value} {reader : Reader Value} (hvalue : Follows s (place + 1) 1 value reader) :
    InStep s (place + 1) (annotationWith tape src value place)
      (src.readAnnotationWith reader (s.tokens.drop place)) := by
  refine inStep_expectMark h fun hlength => ?_
  refine ((follows_expectName h _).inStep hlength).bind fun name place' hle' hbound' => ?_
  refine (follows_annotationArguments h hvalue place' (by omega) hbound').bind
    fun attributes place'' hle'' hbound'' => ?_
  exact .ok _ (by omega) hbound''

/-- A value nests at most as deep as there are tokens left. -/
theorem inStep_value
    {depth depth' : Nat} (hbound : place ≤ s.tokens.length)
    (hdepth : s.tokens.length - place < depth) (hdepth' : s.tokens.length - place ≤ depth') :
    InStep s (place + 1) (value tape src depth place)
      (src.readValue depth' (s.tokens.drop place)) := by
  induction depth generalizing place depth' with
  | zero => omega
  | succ depth ih =>
    rw [value]
    refine inStep_peek h ?_
    cases hts : s.tokens.drop place with
    | nil =>
      have hreader : src.readValue depth' [] =
          .error (src.fault (s.tokens.drop place) "annotation value") := by
        rw [hts]
        cases depth' <;> rfl
      simp only [List.headD_nil, h.ended.finish, hreader]
      exact inStep_fail h
    | cons t ts =>
      obtain ⟨hlength, rfl⟩ := drop_eq_cons hts
      obtain ⟨depth', rfl⟩ := Nat.exists_eq_succ_of_ne_zero (by omega : depth' ≠ 0)
      -- What is inside starts behind the first token, so one level less is enough for it.
      have hvalue : Follows s (place + 1) 1 (value tape src depth) (src.readValue depth') :=
        fun place' hle' hbound' => ih hbound' (by omega) (by omega)
      rw [Source.readValue, List.headD_cons]
      cases t.kind with
      | string => exact inStep_move h hlength (.ok _ le_rfl hlength)
      | character => exact inStep_move h hlength (.ok _ le_rfl hlength)
      | number => exact inStep_move h hlength (.ok _ le_rfl hlength)
      | identifier => exact inStep_move h hlength (.ok _ le_rfl hlength)
      | endOfFile =>
        rw [← hts]
        exact inStep_fail h
      | punctuation =>
        refine .ite (fun _ => inStep_move h hlength ?_) fun _ => .ite (fun _ => ?_) fun _ => ?_
        · rw [List.tail_drop, List.length_drop]
          refine inStep_ifMark h (fun hlength' => .ok _ (by omega) hlength') ?_
          refine (inStep_list h hvalue le_rfl hlength (h.room _) (Nat.lt_succ_self _)).bind
            fun vs place' hle' hbound' => ?_
          exact .ok _ (by omega) hbound'
        · rw [← hts]
          refine (inStep_annotationWith h hvalue).bind fun a place' hle' hbound' => ?_
          exact .ok _ (by omega) hbound'
        · rw [← hts]
          exact inStep_fail h

theorem inStep_annotationAt (hbound : place ≤ s.tokens.length) :
    InStep s (place + 1) (annotationAt tape src place)
      (src.readAnnotation (s.tokens.drop place)) := by
  refine inStep_annotationWith h fun place' hle' hbound' => ?_
  exact inStep_value h hbound' (h.room _) (by rw [List.length_drop]; omega)

/-- Annotations one behind the other are at most as many as there are tokens left. -/
theorem inStep_annotations
    {rounds rounds' : Nat} (hbound : place ≤ s.tokens.length)
    (hrounds : s.tokens.length - place < rounds) (hrounds' : s.tokens.length - place ≤ rounds') :
    InStep s place (annotations tape src rounds place)
      (src.readAnnotations rounds' (s.tokens.drop place)) := by
  induction rounds generalizing place rounds' with
  | zero => omega
  | succ rounds ih =>
    rw [annotations]
    refine inStep_peek h ?_
    rw [isMark_headD h]
    cases hmark : atMark "@" (s.tokens.drop place) with
    | false =>
      have hreader : src.readAnnotations rounds' (s.tokens.drop place) =
          .ok ([], s.tokens.drop place) := by
        cases rounds' <;> simp [Source.readAnnotations, hmark]
      rw [hreader]
      exact .ok [] le_rfl hbound
    | true =>
      have hlength := length_of_head?_any hmark
      obtain ⟨rounds', rfl⟩ := Nat.exists_eq_succ_of_ne_zero (by omega : rounds' ≠ 0)
      rw [Source.readAnnotations, hmark]
      refine (inStep_annotationAt h hbound).bind fun a place' hle' hbound' => ?_
      refine (ih hbound' (by omega) (by omega)).bind fun as place'' hle'' hbound'' => ?_
      exact .ok _ (by omega) hbound''

/-- A preamble takes at most as many rounds as there are tokens left. -/
theorem inStep_extendPreamble
    {rounds rounds' : Nat} (p : Preamble) (hbound : place ≤ s.tokens.length)
    (hrounds : s.tokens.length - place < rounds) (hrounds' : s.tokens.length - place ≤ rounds') :
    InStep s place (extendPreamble tape src rounds p place)
      (src.extendPreamble rounds' p (s.tokens.drop place)) := by
  induction rounds generalizing place rounds' p with
  | zero => omega
  | succ rounds ih =>
    rw [extendPreamble]
    refine inStep_peek h (inStep_peekAt h ?_)
    rw [isWord_headD h]
    cases hts : s.tokens.drop place with
    | nil =>
      have hreader : src.extendPreamble rounds' p [] = .ok (p, s.tokens.drop place) := by
        rw [hts]
        cases rounds' <;> rfl
      rw [hreader, if_neg (by simp [isMark_finish h]), if_neg (by simp [h.ended.finish])]
      exact .ok p le_rfl hbound
    | cons t ts =>
      obtain ⟨hlength, rfl⟩ := drop_eq_cons hts
      obtain ⟨rounds', rfl⟩ := Nat.exists_eq_succ_of_ne_zero (by omega : rounds' ≠ 0)
      rw [Source.extendPreamble, List.headD_cons]
      refine .ite (fun _ => ?_) fun _ => .ite (fun _ => ?_) fun _ => ?_
      · rw [← hts]
        refine (inStep_annotationAt h hbound).bind fun a place' hle' hbound' => ?_
        exact (ih (p.annotate a) hbound' (by omega) (by omega)).mono (by omega)
      · cases p.modifiers.withKeyword? t.text with
        | some modifiers =>
          exact inStep_move h hlength
            ((ih { p with modifiers } hlength (by omega) (by omega)).mono (by omega))
        | none =>
          rw [← hts]
          exact .ok p le_rfl hbound
      · rw [← hts]
        exact .ok p le_rfl hbound

theorem follows_preamble : Follows s 0 0 (preamble tape src) src.readPreamble :=
  fun place _ hbound =>
    inStep_extendPreamble h {} hbound (h.room place) (List.length_drop ..).ge

/-! ## Types -/

omit h in
/-- Dimensions, by what comes next. -/
theorem readDimensions_eq (varargs : Bool) (ts : List Token) :
    readDimensions varargs ts =
      if atMark "[" ts && atMark "]" ts.tail then
        ((readDimensions varargs ts.tail.tail).1 + 1, (readDimensions varargs ts.tail.tail).2)
      else if !varargs && atMark "..." ts then
        ((readDimensions true ts.tail).1 + 1, (readDimensions true ts.tail).2)
      else (0, varargs, ts) := by
  match ts with
  | [] => simp [readDimensions, atMark]
  | [t] => simp [readDimensions, atMark]
  | t :: u :: ts => simp [readDimensions, atMark]

theorem exists_dimensions
    {rounds : Nat} (varargs : Bool) (hbound : place ≤ s.tokens.length)
    (hrounds : s.tokens.length - place < rounds) :
    ∃ d place', place ≤ place' ∧ place' ≤ s.tokens.length ∧
      dimensions tape rounds varargs place = .ok (d, place') ∧
      readDimensions varargs (s.tokens.drop place) = (d.1, d.2, s.tokens.drop place') := by
  induction rounds generalizing place varargs with
  | zero => omega
  | succ rounds ih =>
    rw [dimensions, bind_of_ok (peekAt_eq h place 0), bind_of_ok (peekAt_eq h place 1),
      Nat.add_zero, isMark_headD h, isMark_headD h, isMark_headD h, readDimensions_eq,
      List.tail_drop, List.tail_drop]
    split
    · rename_i hbrackets
      have hlength : place + 2 ≤ s.tokens.length :=
        length_of_head?_any (Bool.and_eq_true_iff.mp hbrackets).2
      obtain ⟨d, place', hle, hbound', hcursor, hreader⟩ := ih varargs hlength (by omega)
      refine ⟨(d.1 + 1, d.2), place', by omega, hbound', ?_, by rw [hreader]⟩
      rw [bind_of_ok (move_eq h hlength), bind_of_ok hcursor]
      rfl
    split
    · rename_i hdots
      have hlength : place + 1 ≤ s.tokens.length :=
        length_of_head?_any (Bool.and_eq_true_iff.mp hdots).2
      obtain ⟨d, place', hle, hbound', hcursor, hreader⟩ := ih true hlength (by omega)
      refine ⟨(d.1 + 1, d.2), place', by omega, hbound', ?_, by rw [hreader]⟩
      rw [bind_of_ok (move_eq h hlength), bind_of_ok hcursor]
      rfl
    · exact ⟨(0, varargs), place, le_rfl, hbound, rfl, rfl⟩

theorem inStep_suffix (hbound : place ≤ s.tokens.length) :
    InStep s place (suffix tape place) (.ok (readSuffix (s.tokens.drop place))) := by
  rw [suffix, readSuffix, List.tail_drop, apply_ite Except.ok, apply_ite Except.ok]
  refine inStep_ifMark h (fun hlength => .ok _ (by omega) hlength) ?_
  exact inStep_ifMark h (fun hlength => .ok _ (by omega) hlength) (.ok _ le_rfl hbound)

theorem follows_wildcardBound
    {type : Cursor ReadType} {reader : Reader ReadType} (htype : Follows s low 1 type reader) :
    Follows s low 0 (wildcardBound tape type) (Source.readBound reader) := by
  intro place hle hbound
  rw [wildcardBound, Source.readBound, List.tail_drop]
  refine inStep_ifWord h (fun hlength => ?_)
    (inStep_ifWord h (fun hlength => ?_) (.ok _ le_rfl hbound))
  · refine (htype _ (by omega) hlength).bind fun t place' hle' hbound' => ?_
    exact .ok _ (by omega) hbound'
  · refine (htype _ (by omega) hlength).bind fun t place' hle' hbound' => ?_
    exact .ok _ (by omega) hbound'

theorem follows_typeArguments
    {type : Cursor ReadType} {reader : Reader ReadType} (htype : Follows s low 1 type reader) :
    Follows s low 0 (typeArguments tape src type) (src.readArguments reader) := by
  intro place hle hbound
  rw [typeArguments, Source.readArguments, List.tail_drop, List.length_drop]
  refine inStep_unlessMark h (fun hlength => ?_) (.ok _ le_rfl hbound)
  refine (inStep_separated h htype (by omega) hlength (h.room _) (by omega)).bind
    fun ts place' hle' hbound' => ?_
  exact inStep_expectMark h fun hlength' => .ok _ (by omega) hlength'

/-- The types inside a type start behind its first token. -/
theorem inStep_typeWithin_of_follows
    {depth depth' : Nat} (hbound : place ≤ s.tokens.length)
    (htype : Follows s (place + 1) 1 (typeWithin tape src depth) (src.readTypeWithin depth')) :
    InStep s (place + 1) (typeWithin tape src (depth + 1) place)
      (src.readTypeWithin (depth' + 1) (s.tokens.drop place)) := by
  rw [typeWithin, Source.readTypeWithin, List.length_drop]
  refine (inStep_annotations h hbound (h.room _) le_rfl).bind fun as place₁ hle₁ hbound₁ => ?_
  refine inStep_ifMark h (fun hlength => ?_) ?_
  · rw [List.tail_drop]
    refine (follows_wildcardBound h htype _ (by omega) hlength).bind
      fun bound place₂ hle₂ hbound₂ => ?_
    exact .ok _ (by omega) hbound₂
  · refine ((follows_expectName h _).inStep hbound₁).bind fun name place₂ hle₂ hbound₂ => ?_
    refine (follows_typeArguments h htype place₂ (by omega) hbound₂).bind
      fun arguments place₃ hle₃ hbound₃ => ?_
    obtain ⟨d, place₄, hle₄, hbound₄, hcursor, hreader⟩ :=
      exists_dimensions h false hbound₃ (h.room _)
    obtain ⟨suffix, place₅, hle₅, hbound₅, hcursor', hreader'⟩ :=
      (inStep_suffix h hbound₄).exists_of_ok
    rw [bind_of_ok hcursor, bind_of_ok hcursor']
    simp only [hreader, hreader']
    exact .ok _ (by omega) hbound₅

/-- A type nests at most as deep as there are tokens left. -/
theorem inStep_typeWithin
    {depth depth' : Nat} (hbound : place ≤ s.tokens.length)
    (hdepth : s.tokens.length - place < depth) (hdepth' : s.tokens.length - place ≤ depth') :
    InStep s (place + 1) (typeWithin tape src depth place)
      (src.readTypeWithin depth' (s.tokens.drop place)) := by
  induction depth generalizing place depth' with
  | zero => omega
  | succ depth ih =>
    cases depth' with
    | zero =>
      -- At the mark of the end there is no room for a type inside, however deep it may nest.
      have hdeeper : src.readTypeWithin 0 (s.tokens.drop place) =
          src.readTypeWithin 1 (s.tokens.drop place) := by
        rw [List.drop_eq_nil_of_le (by omega)]
        rfl
      rw [hdeeper]
      exact inStep_typeWithin_of_follows h hbound fun place' _ _ => by omega
    | succ depth' =>
      exact inStep_typeWithin_of_follows h hbound
        fun place' _ hbound' => ih hbound' (by omega) (by omega)

theorem follows_type : Follows s 0 1 (type tape src) src.readType :=
  fun place _ hbound => inStep_typeWithin h hbound (h.room place) (List.length_drop ..).ge

theorem follows_ownedType : Follows s 0 1 (ownedType tape src) src.readOwnedType := by
  intro place _ hbound
  refine ((follows_type h).inStep hbound).bind fun t place' hle' hbound' => ?_
  exact .ok _ hle' hbound'

theorem follows_nonNullType :
    Follows s 0 1 (nonNullType tape src) src.readNonNullType := by
  intro place _ hbound
  refine ((follows_ownedType h).inStep hbound).bind fun t place' hle' hbound' => ?_
  exact .ok _ hle' hbound'

/-- Each of the supertypes takes a token, with a comma behind it or not. -/
theorem inStep_supertypes
    {rounds rounds' : Nat} (hbound : place ≤ s.tokens.length)
    (hrounds : s.tokens.length - place < rounds) (hrounds' : s.tokens.length - place < rounds') :
    InStep s (place + 1) (supertypes tape src rounds place)
      (src.readSupertypes rounds' (s.tokens.drop place)) := by
  induction rounds generalizing place rounds' with
  | zero => omega
  | succ rounds ih =>
    obtain ⟨rounds', rfl⟩ := Nat.exists_eq_succ_of_ne_zero (Nat.ne_zero_of_lt hrounds')
    refine ((follows_nonNullType h).inStep hbound).bind fun t place' hle' hbound' => ?_
    refine inStep_ifMark h (fun hlength => ?_) (inStep_peek h ?_)
    · rw [List.tail_drop]
      refine (ih hlength (by omega) (by omega)).bind fun ts place'' hle'' hbound'' => ?_
      exact .ok _ (by omega) hbound''
    · rw [isName_headD h, isWord_headD h]
      refine .ite (fun _ => ?_) fun _ => .ok _ hle' hbound'
      refine (ih hbound' (by omega) (by omega)).bind fun ts place'' hle'' hbound'' => ?_
      exact .ok _ (by omega) hbound''

theorem follows_supertypesAfter (word : String) :
    Follows s 0 0 (supertypesAfter tape src word) (src.readSupertypesAfter word) := by
  intro place _ hbound
  rw [supertypesAfter, Source.readSupertypesAfter, List.tail_drop, List.length_drop]
  refine inStep_ifWord h (fun hlength => ?_) (.ok _ le_rfl hbound)
  exact (inStep_supertypes h hlength (h.room _) (by omega)).mono (by omega)

/-! ## Type variables -/

/-- The mark of the end declares no variable. -/
theorem declaredVariables_append_finish (depth : Nat) (due : Bool) (ts : List Token) :
    declaredVariables depth due (ts ++ [s.finish]) = declaredVariables depth due ts := by
  induction ts generalizing depth due with
  | nil =>
    have hkind : (s.finish.kind == .identifier) = false := by simp [h.ended.finish]
    simp [declaredVariables, isMark_finish h, hkind]
  | cons t ts ih => simp only [List.cons_append, declaredVariables, ih]

theorem variablesAhead_eq (hbound : place ≤ s.tokens.length) :
    variablesAhead tape place = .ok (Source.variablesAhead (s.tokens.drop place), place) := by
  have hahead : ahead tape place = .ok (s.tokens.drop place ++ [s.finish], place) := by
    have hplace : place ≤ s.all.length := by
      rw [Scan.all, List.length_append]
      exact Nat.le_add_right_of_le hbound
    rw [ahead, bind_of_ok (get_eq place), h.tokens, if_pos hplace, Scan.all,
      List.drop_append_of_le_length hbound]
    rfl
  rw [variablesAhead, bind_of_ok (peekAt_eq h place 0), Nat.add_zero, isMark_headD h,
    Source.variablesAhead]
  split
  · rw [bind_of_ok hahead, declaredVariables_append_finish h]
    rfl
  · rfl

theorem follows_bounds : Follows s 0 0 (bounds tape src) src.readBounds := by
  intro place _ hbound
  rw [bounds, Source.readBounds, List.tail_drop, List.length_drop]
  refine inStep_ifWord h (fun hlength => ?_) (.ok _ le_rfl hbound)
  exact (inStep_separated h (follows_ownedType h) (Nat.zero_le _) hlength (h.room _)
    (by omega)).mono (by omega)

theorem follows_typeParameter :
    Follows s 0 1 (typeParameter tape src) src.readTypeParameter := by
  intro place _ hbound
  refine ((follows_expectName h _).inStep hbound).bind fun name place' hle' hbound' => ?_
  refine ((follows_bounds h).inStep hbound').bind fun bs place'' hle'' hbound'' => ?_
  exact .ok _ (by omega) hbound''

theorem follows_typeParameters :
    Follows s 0 0 (typeParameters tape src) src.readTypeParameters := by
  intro place _ hbound
  rw [typeParameters, Source.readTypeParameters, List.tail_drop, List.length_drop]
  refine inStep_unlessMark h (fun hlength => ?_) (.ok _ le_rfl hbound)
  refine (inStep_separated h (follows_typeParameter h) (Nat.zero_le _) hlength (h.room _)
    (by omega)).bind fun ps place' hle' hbound' => ?_
  exact inStep_expectMark h fun hlength' => .ok _ (by omega) hlength'

/-! ## Members -/

theorem follows_memberType (p : Preamble) :
    Follows s 0 1 (memberType tape src p) (src.readMemberType p) := by
  intro place _ hbound
  refine ((follows_type h).inStep hbound).bind fun t place' hle' hbound' => ?_
  exact .ok _ hle' hbound'

theorem inStep_parameterName (hbound : place ≤ s.tokens.length) :
    InStep s place (parameterName tape place)
      (.ok (if atName (s.tokens.drop place) then
        ((s.tokens.drop place).head?.map Token.text, (s.tokens.drop place).tail)
      else (none, s.tokens.drop place))) := by
  refine inStep_peek h ?_
  rw [isName_headD h, apply_ite Except.ok]
  refine .ite (fun hname => ?_) fun _ => .ok none le_rfl hbound
  have hlength := length_of_head?_any hname
  have hhead : (s.tokens.drop place).head?.map Token.text =
      some ((s.tokens.drop place).headD s.finish).text := by
    cases hts : s.tokens.drop place with
    | nil => simp [hts, atName] at hname
    | cons t ts => rfl
  rw [hhead, List.tail_drop]
  exact inStep_move h hlength (.ok _ (by omega) hlength)

/-- A value may stand behind a token that introduces it. -/
theorem inStep_valueAfter
    {fits : Token → Bool} (hfinish : fits s.finish = false) (stops : List String)
    (hbound : place ≤ s.tokens.length) :
    InStep s place (valueAfter tape src (eat tape fits) stops place)
      (src.readMarkedValue ((s.tokens.drop place).head?.any fits) stops (s.tokens.drop place)) := by
  rw [valueAfter, Source.readMarkedValue, List.tail_drop]
  refine inStep_unlessNext h hfinish (fun hlength => ?_) (.ok _ le_rfl hbound)
  refine ((follows_valueText h stops).inStep hlength).bind fun v place' hle' hbound' => ?_
  exact .ok _ (by omega) hbound'

theorem follows_parameter :
    Follows s 0 1 (parameter tape src) src.readParameter := by
  intro place _ hbound
  refine ((follows_type h).inStep hbound).bind fun t place₁ hle₁ hbound₁ => ?_
  obtain ⟨name, place₂, hle₂, hbound₂, hcursor, hreader⟩ :=
    (inStep_parameterName h hbound₁).exists_of_ok
  rw [bind_of_ok hcursor]
  simp only [hreader]
  refine (inStep_valueAfter h (isMark_finish h "=") _ hbound₂).bind
    fun value place₃ hle₃ hbound₃ => ?_
  exact .ok _ (by omega) hbound₃

theorem follows_parameters :
    Follows s 0 1 (parameters tape src) src.readParameters := by
  intro place _ hbound
  refine inStep_expectMark h fun hlength => ?_
  refine inStep_ifMark h (fun hlength' => ?_) ?_
  · rw [List.tail_drop]
    exact .ok _ (by omega) hlength'
  · rw [List.length_drop]
    exact (inStep_list h (follows_parameter h) (Nat.zero_le _) hlength (h.room _)
      (Nat.lt_succ_self _)).mono (by omega)

theorem follows_throws : Follows s 0 0 (throws tape src) src.readThrows := by
  intro place _ hbound
  rw [throws, Source.readThrows, List.tail_drop, List.length_drop]
  refine inStep_ifWord h (fun hlength => ?_) (.ok _ le_rfl hbound)
  exact (inStep_separated h (follows_nonNullType h) (Nat.zero_le _) hlength (h.room _)
    (by omega)).mono (by omega)

theorem follows_constructor (c : ClassDecl) :
    Follows s 0 0 (constructor tape src c) (src.readConstructor c) := by
  intro place _ hbound
  refine ((follows_preamble h).inStep hbound).bind fun p place₁ hle₁ hbound₁ => ?_
  rw [bind_of_ok (variablesAhead_eq h hbound₁)]
  have h' := h.withScope (src.scope ++ Source.variablesAhead (s.tokens.drop place₁))
  refine ((follows_typeParameters h').inStep hbound₁).bind
    fun typeParameters place₂ hle₂ hbound₂ => ?_
  refine ((follows_expectName h' _).inStep hbound₂).bind
    fun _ place₃ hle₃ hbound₃ => ?_
  refine ((follows_parameters h').inStep hbound₃).bind
    fun parameters place₄ hle₄ hbound₄ => ?_
  refine ((follows_throws h').inStep hbound₄).bind
    fun throws place₅ hle₅ hbound₅ => ?_
  exact inStep_expectMark h' fun hlength => .ok _ (by omega) hlength

theorem follows_method (c : ClassDecl) :
    Follows s 0 0 (method tape src c) (src.readMethod c) := by
  intro place _ hbound
  refine ((follows_preamble h).inStep hbound).bind fun p place₁ hle₁ hbound₁ => ?_
  rw [bind_of_ok (variablesAhead_eq h hbound₁)]
  have h' := h.withScope (src.scope ++ Source.variablesAhead (s.tokens.drop place₁))
  refine ((follows_typeParameters h').inStep hbound₁).bind
    fun typeParameters place₂ hle₂ hbound₂ => ?_
  refine ((follows_memberType h' p).inStep hbound₂).bind
    fun result place₃ hle₃ hbound₃ => ?_
  refine ((follows_expectName h' _).inStep hbound₃).bind
    fun name place₄ hle₄ hbound₄ => ?_
  refine ((follows_parameters h').inStep hbound₄).bind
    fun parameters place₅ hle₅ hbound₅ => ?_
  refine ((follows_throws h').inStep hbound₅).bind
    fun throws place₆ hle₆ hbound₆ => ?_
  refine (inStep_valueAfter h' (isWord_finish h' "default") _ hbound₆).bind
    fun value place₇ hle₇ hbound₇ => ?_
  exact inStep_expectMark h' fun hlength => .ok _ (by omega) hlength

theorem follows_field (c : ClassDecl) (isEnumConstant : Bool) :
    Follows s 0 0 (field tape src c isEnumConstant)
      (src.readField c isEnumConstant) := by
  intro place _ hbound
  refine ((follows_preamble h).inStep hbound).bind fun p place₁ hle₁ hbound₁ => ?_
  refine ((follows_memberType h p).inStep hbound₁).bind
    fun t place₂ hle₂ hbound₂ => ?_
  refine ((follows_expectName h _).inStep hbound₂).bind
    fun name place₃ hle₃ hbound₃ => ?_
  refine (inStep_valueAfter h (isMark_finish h "=") _ hbound₃).bind
    fun value place₄ hle₄ hbound₄ => ?_
  exact inStep_expectMark h fun hlength => .ok _ (by omega) hlength

theorem follows_member (c : ClassDecl) :
    Follows s 0 1 (member tape src c) (src.readMember c) := by
  intro place _ hbound
  rw [member, Source.readMember, List.tail_drop]
  refine inStep_ifWord h (fun hlength => ?_) ?_
  · refine ((follows_constructor h c).inStep hlength).bind fun m place' hle' hbound' => ?_
    exact .ofExcept (by omega) hbound'
  refine inStep_ifWord h (fun hlength => ?_) ?_
  · refine ((follows_method h c).inStep hlength).bind fun m place' hle' hbound' => ?_
    exact .ofExcept (by omega) hbound'
  refine inStep_ifWord h (fun hlength => ?_) ?_
  · refine ((follows_field h c false).inStep hlength).bind fun f place' hle' hbound' => ?_
    exact .ofExcept (by omega) hbound'
  refine inStep_ifWord h (fun hlength => ?_) (inStep_fail h)
  refine ((follows_field h c true).inStep hlength).bind fun f place' hle' hbound' => ?_
  exact .ofExcept (by omega) hbound'

/-- Members are fewer than the tokens left in front of the closing brace. -/
theorem inStep_members
    {rounds rounds' : Nat} (c : ClassDecl) (hbound : place ≤ s.tokens.length)
    (hrounds : s.tokens.length - place < rounds) (hrounds' : s.tokens.length - place < rounds') :
    InStep s (place + 1) (members tape src rounds c place)
      (src.readMembers rounds' c (s.tokens.drop place)) := by
  induction rounds generalizing place rounds' c with
  | zero => omega
  | succ rounds ih =>
    obtain ⟨rounds', rfl⟩ := Nat.exists_eq_succ_of_ne_zero (Nat.ne_zero_of_lt hrounds')
    rw [members, Source.readMembers, List.tail_drop]
    refine inStep_ifMark h (fun hlength => .ok _ le_rfl hlength) ?_
    refine ((follows_member h c).inStep hbound).bind fun d place' hle' hbound' => ?_
    exact (ih d hbound' (by omega) (by omega)).mono (by omega)

/-! ## Classes and packages -/

theorem follows_kind : Follows s 0 1 (kind tape src) src.readKind := by
  intro place _ hbound
  rw [kind, Source.readKind, List.tail_drop, List.tail_drop]
  refine inStep_ifWord h (fun hlength => .ok _ le_rfl hlength) ?_
  refine inStep_ifWord h (fun hlength => .ok _ le_rfl hlength) ?_
  refine inStep_ifWord h (fun hlength => .ok _ le_rfl hlength) ?_
  refine inStep_peek h (inStep_peekAt h ?_)
  rw [isMark_headD h, isWord_headD h]
  refine .ite (fun hboth => ?_) fun _ => inStep_fail h
  have hlength : place + 2 ≤ s.tokens.length :=
    length_of_head?_any (Bool.and_eq_true_iff.mp hboth).2
  exact inStep_move h hlength (.ok _ (by omega) hlength)

theorem follows_classDecl (cb : Codebase) (package : String) :
    Follows s 0 1 (classDecl tape src cb package) (src.readClass cb package) := by
  intro place _ hbound
  refine ((follows_preamble h).inStep hbound).bind fun p place₁ hle₁ hbound₁ => ?_
  refine ((follows_kind h).inStep hbound₁).bind fun kind place₂ hle₂ hbound₂ => ?_
  refine ((follows_expectName h _).inStep hbound₂).bind
    fun name place₃ hle₃ hbound₃ => ?_
  rw [bind_of_ok (variablesAhead_eq h hbound₃)]
  refine ((follows_typeParameters (h.withScope _)).inStep hbound₃).bind
    fun typeParameters place₄ hle₄ hbound₄ => ?_
  refine ((follows_supertypesAfter (h.withScope _) _).inStep hbound₄).bind
    fun extended place₅ hle₅ hbound₅ => ?_
  refine ((follows_supertypesAfter (h.withScope _) _).inStep hbound₅).bind
    fun implemented place₆ hle₆ hbound₆ => ?_
  refine inStep_expectMark (h.withScope _) fun hlength => ?_
  rw [List.length_drop]
  exact (inStep_members (h.withScope _) _ hlength (h.room _) (Nat.lt_succ_self _)).mono (by omega)

/-- Classes are fewer than the tokens left in front of the closing brace. -/
theorem inStep_classes
    {rounds rounds' : Nat} (package : String) (cb : Codebase) (hbound : place ≤ s.tokens.length)
    (hrounds : s.tokens.length - place < rounds) (hrounds' : s.tokens.length - place < rounds') :
    InStep s (place + 1) (classes tape src package rounds cb place)
      (src.readClasses package rounds' cb (s.tokens.drop place)) := by
  induction rounds generalizing place rounds' cb with
  | zero => omega
  | succ rounds ih =>
    obtain ⟨rounds', rfl⟩ := Nat.exists_eq_succ_of_ne_zero (Nat.ne_zero_of_lt hrounds')
    rw [classes, Source.readClasses, List.tail_drop]
    refine inStep_ifMark h (fun hlength => .ok _ le_rfl hlength) ?_
    refine ((follows_classDecl h cb package).inStep hbound).bind fun c place' hle' hbound' => ?_
    refine .bind_ofExcept fun cb' => ?_
    exact (ih cb' hbound' (by omega) (by omega)).mono (by omega)

/-- Packages are read up to the mark of the end. -/
theorem inStep_packages
    {rounds rounds' : Nat} (cb : Codebase) (hbound : place ≤ s.tokens.length)
    (hrounds : s.tokens.length - place < rounds) (hrounds' : s.tokens.length - place ≤ rounds') :
    InStep s s.tokens.length (packages tape src rounds cb place)
      (src.readPackages rounds' cb (s.tokens.drop place) >>= fun cb => .ok (cb, [])) := by
  induction rounds generalizing place rounds' cb with
  | zero => omega
  | succ rounds ih =>
    rw [packages]
    refine inStep_peek h ?_
    cases hts : s.tokens.drop place with
    | nil =>
      have hreader : src.readPackages rounds' cb [] = .ok cb := by cases rounds' <;> rfl
      rw [List.headD_nil, if_pos h.ended.finish, hreader, ← hts]
      exact .ok cb (List.drop_eq_nil_iff.mp hts) hbound
    | cons t ts =>
      obtain ⟨hlength, rfl⟩ := drop_eq_cons hts
      obtain ⟨rounds', rfl⟩ := Nat.exists_eq_succ_of_ne_zero (by omega : rounds' ≠ 0)
      have hword : t.isWord "package" = atWord "package" (s.tokens.drop place) := by
        rw [hts]
        rfl
      rw [List.headD_cons, if_neg (kind_of_drop_eq_cons h hts), Source.readPackages, hword, ← hts,
        apply_ite (fun result => result >>= _)]
      refine inStep_ifWord h (fun hlength => ?_) (inStep_fail h)
      rw [bind_assoc]
      refine ((follows_expectName h _).inStep hlength).bind fun package place₁ hle₁ hbound₁ => ?_
      rw [bind_assoc]
      refine inStep_expectMark h fun hlength₁ => ?_
      rw [bind_assoc, List.length_drop]
      refine (inStep_classes h package _ hlength₁ (h.room _) (Nat.lt_succ_self _)).bind
        fun cb' place₂ hle₂ hbound₂ => ?_
      exact ih cb' hbound₂ (by omega) (by omega)

omit h

/-! ## Whole texts -/

theorem run'_bind_ofExcept
    {α β : Type} {result : Except Fault α} {k : α → Cursor β} {next : α → Except Fault β}
    (hk : ∀ x, result = .ok x → (k x).run' 0 = (next x).mapError .fault) :
    (ofExcept result >>= k).run' 0 = (result >>= next).mapError .fault := by
  cases result with
  | ok x => exact hk x rfl
  | error f => rfl

theorem run'_of_inStep
    {p : Cursor Codebase} {result : Except Fault Codebase}
    (hp : InStep s low (p 0) (result >>= fun cb => .ok (cb, []))) :
    p.run' 0 = result.mapError .fault := by
  have hrun : p.run' 0 = (fun x : Codebase × Nat => x.1) <$> p 0 := rfl
  rw [hrun]
  generalize p 0 = outcome at hp
  cases result with
  | ok cb =>
    obtain ⟨x, place, -, -, rfl, heq⟩ := hp.exists_of_ok
    obtain rfl : cb = x := congrArg Prod.fst heq
    rfl
  | error f =>
    cases hp
    rfl

/-- Reading by places comes to an end on every text, with what the readers give, and is never out
of bounds: a limit above the number of characters is not reached, the cursor stays in front of the
one mark of the end or on it, and every value is cut out of the text from one place between two
characters to a later one. -/
theorem read_eq_mapError_fault (options : ReadOptions) (text : String) :
    (∀ limit, text.length < limit →
      Cursor.read limit options text = (Signature.read options text).mapError .fault) ∧
      ∀ file s, scan file text = .ok s → s.IsEnded := by
  refine ⟨fun limit hlimit => ?_, fun file s hscan => Scan.isEnded_of_scanFrom hscan⟩
  refine run'_bind_ofExcept fun declared _ => run'_bind_ofExcept fun settings _ =>
    run'_bind_ofExcept fun s hscan => ?_
  have hlength := Scan.length_tokens_le hscan
  rw [String.length_toList] at hlength
  have hreads : Source.Reads { settings, finish := s.finish }
      { text, tokens := s.all, limit } s :=
    ⟨⟨_, hscan⟩, rfl, Nat.lt_of_le_of_lt hlength hlimit, rfl⟩
  exact run'_of_inStep (inStep_packages hreads ∅ (Nat.zero_le _) (hreads.room 0) le_rfl)

/-- A value with a comma in brackets and characters of several bytes, in it and in front of it. -/
def glyphText : String :=
  "package é \x7b class Glyph \x7b method void draw(int ñ = pick(\"né\", 1)); \x7d \x7d"

def glyph : ClassDecl :=
  { ClassDecl.declare "é" "Glyph" .ordinary with
    methods :=
      [{ name := "draw", owner := "é.Glyph", modifiers := {}, returnType := some (.named "void")
         parameters :=
          [{ type := .named "int", name := some "ñ", defaultValue := some "pick(\"né\", 1)" }] }] }

/-- A codebase with nothing but that class. -/
def glyphOnly : Codebase :=
  { packages := ⟨[{ name := "é", classNames := ⟨["é.Glyph"], by decide⟩ }], by decide⟩
    classes := ⟨[glyph], List.pairwise_singleton _ _⟩ }

theorem read_glyphText :
    Cursor.read 100 {} glyphText = .ok glyphOnly ∧
      ∃ s, scan "" glyphText = .ok s ∧ s.IsEnded := by
  have hread : Signature.read {} glyphText = .ok glyphOnly := by decide +kernel
  have hscan : (scan "" glyphText).isOk = true := by decide +kernel
  have hall := read_eq_mapError_fault {} glyphText
  refine ⟨(hall.1 100 (by decide +kernel)).trans (by rw [hread]; rfl), ?_⟩
  cases hs : scan "" glyphText with
  | error f =>
    rw [hs] at hscan
    cases hscan
  | ok s => exact ⟨s, rfl, hall.2 "" s hs⟩

end Cursor
end Signature
end ApiSurface
