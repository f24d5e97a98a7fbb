import ApiSurface.Token.Scan

/-!
# Tokens do not depend on what follows them

The scanner looks ahead by at most two characters, so a token that is cut off in front of one
text is cut off in front of any other text that starts apart from it: with a character that
extends neither a name nor a number nor a mark.  A token is therefore known by its own
characters.
-/

namespace ApiSurface
namespace Scan

open Text (isBlank isLetter isNumeral)

/-- Characters that no token in front of them can take in. -/
def apart (c : Char) : Bool :=
  !continuesName c && c != '.' && c != '+' && c != '-' && c != '/'

/-- The text is empty or starts with a character that no token in front of it can take in. -/
def Apart (rest : List Char) : Prop :=
  ∀ c ∈ rest.head?, apart c = true

/-- A name in front of the text ends there. -/
def NameEnds (rest : List Char) : Prop :=
  splitName rest = ([], rest)

theorem Apart.nil : Apart [] := by
  simp [Apart]

theorem Apart.cons {c : Char} {rest : List Char} (h : apart c = true) : Apart (c :: rest) := by
  simpa [Apart] using h

theorem continuesName_of_startsName {c : Char} (h : startsName c = true) :
    continuesName c = true := by
  simp only [startsName, continuesName, Bool.or_eq_true] at h ⊢
  rcases h with (h | h) | h
  · exact .inl (.inl (.inl h))
  · exact .inl (.inr h)
  · exact .inr h

theorem toNat_of_isAlpha {c : Char} (h : c.isAlpha = true) :
    (65 ≤ c.toNat ∧ c.toNat ≤ 90) ∨ (97 ≤ c.toNat ∧ c.toNat ≤ 122) := by
  rcases Bool.or_eq_true_iff.mp h with hupper | hlower
  · exact .inl (of_decide_eq_true hupper)
  · exact .inr ((Bool.and_eq_true_iff.mp hlower).imp of_decide_eq_true of_decide_eq_true)

theorem toNat_lt_of_isAlphanum {c : Char} (h : c.isAlphanum = true) : c.toNat < 0x80 := by
  rcases Bool.or_eq_true_iff.mp h with hletter | hdigit
  · have hrange := toNat_of_isAlpha hletter
    omega
  · have hlast : c.toNat ≤ 57 := of_decide_eq_true (Bool.and_eq_true_iff.mp hdigit).2
    omega

theorem continuesName_of_isAlphanum {c : Char} (h : c.isAlphanum = true) :
    continuesName c = true := by
  have hascii := toNat_lt_of_isAlphanum h
  rcases Bool.or_eq_true_iff.mp h with hletter | hdigit
  · simp [continuesName, isLetter, hascii, hletter]
  · simp [continuesName, isNumeral, hascii, hdigit]

theorem isAlphanum_eq_false_of_apart {c : Char} (h : apart c = true) : c.isAlphanum = false := by
  cases hc : c.isAlphanum with
  | false => rfl
  | true => simp [apart, continuesName_of_isAlphanum hc] at h

theorem isDigit_eq_false_of_apart {c : Char} (h : apart c = true) : c.isDigit = false := by
  have halnum := isAlphanum_eq_false_of_apart h
  simp only [Char.isAlphanum, Bool.or_eq_false_iff] at halnum
  exact halnum.2

/-! ## Cutting off a name -/

theorem Apart.nameEnds {rest : List Char} (h : Apart rest) : NameEnds rest := by
  cases rest with
  | nil => rfl
  | cons c cs =>
    have hc : apart c = true := h c rfl
    have hcontinues : continuesName c = false := by
      simp only [apart, Bool.and_eq_true, Bool.not_eq_true'] at hc
      exact hc.1.1.1.1
    have hdot : (c == '.') = false := by
      simp only [apart, Bool.and_eq_true, bne_iff_ne] at hc
      simpa using hc.1.1.1.2
    simp [NameEnds, splitName, hcontinues, hdot]

/-- A name that leaves all of what follows takes in nothing of it. -/
theorem splitName_eq_nil
    {rest name t : List Char} (h : splitName rest = (name, t ++ rest)) : name = [] ∧ t = [] := by
  have happend := splitName_append rest
  rw [h] at happend
  have hlength := congrArg List.length happend
  simp only [List.length_append] at hlength
  exact ⟨List.eq_nil_of_length_eq_zero (by omega), List.eq_nil_of_length_eq_zero (by omega)⟩

theorem NameEnds.head_startsName
    {rest : List Char} (h : NameEnds rest) : rest.head?.any startsName = false := by
  cases rest with
  | nil => rfl
  | cons c cs =>
    cases hc : startsName c with
    | false => simpa using hc
    | true => simp [NameEnds, splitName, continuesName_of_startsName hc] at h

theorem splitName_transplant
    {xs name t rest rest' : List Char}
    (hname : splitName (xs ++ rest) = (name, t ++ rest)) (hends : NameEnds rest') :
    splitName (xs ++ rest') = (name, t ++ rest') := by
  induction xs generalizing name with
  | nil =>
    obtain ⟨rfl, rfl⟩ := splitName_eq_nil hname
    exact hends
  | cons c xs ih =>
    simp only [List.cons_append, splitName] at hname ⊢
    split at hname
    · rename_i hcond
      obtain ⟨hhead, htail⟩ := Prod.mk.inj hname
      have hrec : splitName (xs ++ rest) = ((splitName (xs ++ rest)).1, t ++ rest) := by
        rw [← htail]
      -- A dot at the end of `xs` would have taken in the start of `rest`.
      have hahead : (xs ++ rest').head?.any startsName = (xs ++ rest).head?.any startsName := by
        cases xs with
        | cons x xs => rfl
        | nil =>
          obtain ⟨hnil, rfl⟩ := splitName_eq_nil hrec
          have hrest : NameEnds rest := by
            rw [hnil] at hrec
            exact hrec
          exact hends.head_startsName.trans hrest.head_startsName.symm
      rw [hahead, if_pos hcond, ih hrec, ← hhead]
    · rename_i hcond
      obtain ⟨rfl, htail⟩ := Prod.mk.inj hname
      obtain rfl : c :: xs = t := List.append_cancel_right (by simpa using htail)
      have hfalse :
          ¬ (continuesName c || c == '.' && (xs ++ rest').head?.any startsName) = true := by
        cases xs with
        | cons x xs => exact hcond
        | nil =>
          rw [List.nil_append, hends.head_startsName]
          simp only [Bool.or_eq_true, not_or] at hcond
          simpa using hcond.1
      rw [if_neg hfalse]
      rfl

/-! ## Cutting off a number -/

theorem splitDigits_of_apart
    {hex exponent : Bool} {rest : List Char} (h : Apart rest) :
    splitDigits hex exponent rest = ([], rest) := by
  cases rest with
  | nil => rfl
  | cons c cs =>
    have hc : apart c = true := h c rfl
    have halnum := isAlphanum_eq_false_of_apart hc
    simp only [apart, continuesName, Bool.and_eq_true, Bool.not_eq_true', Bool.or_eq_false_iff,
      bne_iff_ne, beq_eq_false_iff_ne] at hc
    obtain ⟨⟨⟨⟨⟨⟨-, hunderscore⟩, -⟩, hdot⟩, hplus⟩, hminus⟩, -⟩ := hc
    simp [splitDigits, halnum, hdot, hunderscore, hplus, hminus]

theorem splitDigits_transplant
    {hex exponent : Bool} {xs digits t rest rest' : List Char}
    (hdigits : splitDigits hex exponent (xs ++ rest) = (digits, t ++ rest))
    (hapart : Apart rest') :
    splitDigits hex exponent (xs ++ rest') = (digits, t ++ rest') := by
  induction xs generalizing exponent digits with
  | nil =>
    have happend := splitDigits_append hex exponent rest
    rw [List.nil_append] at hdigits
    rw [hdigits] at happend
    have hlength := congrArg List.length happend
    simp only [List.length_append] at hlength
    obtain rfl : digits = [] := List.eq_nil_of_length_eq_zero (by omega)
    obtain rfl : t = [] := List.eq_nil_of_length_eq_zero (by omega)
    exact splitDigits_of_apart hapart
  | cons c xs ih =>
    simp only [List.cons_append, splitDigits] at hdigits ⊢
    split at hdigits
    · rename_i hcond
      obtain ⟨hhead, htail⟩ := Prod.mk.inj hdigits
      rw [if_pos hcond, ih (Prod.ext rfl htail), ← hhead]
    · rename_i hcond
      obtain ⟨rfl, htail⟩ := Prod.mk.inj hdigits
      obtain rfl : c :: xs = t := List.append_cancel_right (by simpa using htail)
      rw [if_neg hcond]
      rfl

theorem splitDigits_eq_nil
    {hex exponent : Bool} {rest digits t : List Char}
    (h : splitDigits hex exponent rest = (digits, t ++ rest)) : digits = [] ∧ t = [] := by
  have happend := splitDigits_append hex exponent rest
  rw [h] at happend
  have hlength := congrArg List.length happend
  simp only [List.length_append] at hlength
  exact ⟨List.eq_nil_of_length_eq_zero (by omega), List.eq_nil_of_length_eq_zero (by omega)⟩

theorem head_isAlphanum_of_splitDigits
    {hex exponent : Bool} {rest digits t : List Char}
    (h : splitDigits hex exponent rest = (digits, t ++ rest)) :
    rest.head?.any Char.isAlphanum = false := by
  obtain ⟨rfl, rfl⟩ := splitDigits_eq_nil h
  cases rest with
  | nil => rfl
  | cons c cs =>
    cases hc : c.isAlphanum with
    | false => simpa using hc
    | true => simp [splitDigits, hc] at h

theorem isHex_eq (cs : List Char) :
    isHex cs =
      (cs.head?.any (fun c => c == '0') && cs.tail.head?.any fun c => c == 'x' || c == 'X') := by
  match cs with
  | [] => rfl
  | [c] => simp [isHex]
  | c :: d :: cs =>
    simp only [isHex, List.head?_cons, List.tail_cons, Option.any_some]
    split <;> simp_all

/-- Where no letter or digit stands, no digit of a hexadecimal mark does. -/
theorem head_any_of_isAlphanum
    {rest : List Char} {p : Char → Bool} (hrest : rest.head?.any Char.isAlphanum = false)
    (hp : ∀ c, p c = true → c.isAlphanum = true) : rest.head?.any p = false := by
  cases rest with
  | nil => rfl
  | cons c cs =>
    cases hc : p c with
    | false => simpa using hc
    | true => simp [hp c hc] at hrest

/-- Whether a number is hexadecimal is seen by its own digits. -/
theorem isHex_transplant
    {hex : Bool} {xs digits t rest rest' : List Char}
    (hdigits : splitDigits hex false (xs ++ rest) = (digits, t ++ rest)) (hapart : Apart rest') :
    isHex (xs ++ rest') = isHex (xs ++ rest) := by
  have hx : ∀ c : Char, (c == 'x' || c == 'X') = true → c.isAlphanum = true := by
    intro c hc
    simp only [Bool.or_eq_true, beq_iff_eq] at hc
    rcases hc with rfl | rfl <;> rfl
  have hzero : ∀ c : Char, (c == '0') = true → c.isAlphanum = true := by
    intro c hc
    obtain rfl : c = '0' := by simpa using hc
    rfl
  have hsplit' : splitDigits hex false rest' = ([], [] ++ rest') := splitDigits_of_apart hapart
  have hrest' := head_isAlphanum_of_splitDigits hsplit'
  rw [isHex_eq, isHex_eq]
  match xs with
  | [] =>
    have hrest : rest.head?.any Char.isAlphanum = false := head_isAlphanum_of_splitDigits hdigits
    simp [head_any_of_isAlphanum hrest hzero, head_any_of_isAlphanum hrest' hzero]
  | [c] =>
    by_cases hc : c = '0'
    · subst hc
      have hone : splitDigits hex false rest = ((splitDigits hex false rest).1, t ++ rest) := by
        simp only [List.cons_append, List.nil_append, splitDigits] at hdigits
        exact Prod.ext rfl (Prod.mk.inj hdigits).2
      have hrest := head_isAlphanum_of_splitDigits hone
      simp [head_any_of_isAlphanum hrest hx, head_any_of_isAlphanum hrest' hx]
    · have hc' : (c == '0') = false := by simpa using hc
      simp [hc']
  | c :: d :: xs => rfl

theorem splitNumber_transplant
    {xs number t rest rest' : List Char} (hne : xs ≠ [])
    (hnumber : splitNumber (xs ++ rest) = (number, t ++ rest)) (hapart : Apart rest') :
    splitNumber (xs ++ rest') = (number, t ++ rest') := by
  obtain ⟨c, xs, rfl⟩ := List.exists_cons_of_ne_nil hne
  by_cases hminus : c = '-'
  · subst hminus
    simp only [List.cons_append, splitNumber] at hnumber ⊢
    obtain ⟨rfl, htail⟩ := Prod.mk.inj hnumber
    have hdigits : splitDigits (isHex (xs ++ rest)) false (xs ++ rest) =
        ((splitDigits (isHex (xs ++ rest)) false (xs ++ rest)).1, t ++ rest) := by
      rw [← htail]
    rw [isHex_transplant hdigits hapart, splitDigits_transplant hdigits hapart]
  · have hunfold : ∀ r : List Char,
        splitNumber (c :: xs ++ r) = splitDigits (isHex (c :: xs ++ r)) false (c :: xs ++ r) := by
      intro r
      rw [splitNumber]
      intro cs hcs
      exact hminus (List.cons.inj hcs).1
    rw [hunfold] at hnumber ⊢
    rw [isHex_transplant hnumber hapart, splitDigits_transplant hnumber hapart]

/-! ## Cutting off a literal in quotes -/

theorem split_cons
    {quote c : Char} (hc : c ≠ '\\') (cs : List Char) :
    Quoted.split quote (c :: cs) =
      if c = '\n' then ([], none)
      else if c = quote then ([], some cs)
      else (c :: (Quoted.split quote cs).1, (Quoted.split quote cs).2) := by
  rw [Quoted.split]
  · intro hslash
    exact absurd hslash hc
  · intro d ds hslash
    exact absurd hslash hc

theorem length_of_split
    {quote : Char} {xs rest body t : List Char}
    (h : Quoted.split quote (xs ++ rest) = (body, some (t ++ rest))) :
    body.length + t.length + 1 = xs.length := by
  have happend := Quoted.split_append (congrArg Prod.snd h)
  rw [h] at happend
  have hlength := congrArg List.length happend
  simp only [List.length_append, List.length_cons] at hlength
  omega

/-- A literal ends with its quote, whatever follows. -/
theorem split_transplant {quote : Char} {rest : List Char} (rest' xs : List Char) :
    ∀ {body t : List Char}, Quoted.split quote (xs ++ rest) = (body, some (t ++ rest)) →
      Quoted.split quote (xs ++ rest') = (body, some (t ++ rest')) := by
  induction h : xs.length using Nat.strongRecOn generalizing xs with
  | _ n ih =>
    subst h
    intro body t hsplit
    have hlength := length_of_split hsplit
    match xs with
    | [] => simp at hlength
    | c :: xs =>
      by_cases hc : c = '\\'
      · subst hc
        match xs with
        | [] =>
          -- The backslash would take in a character of what follows.
          obtain rfl : body = [] := by
            simp only [List.length_cons, List.length_nil] at hlength
            exact List.eq_nil_of_length_eq_zero (by omega)
          cases rest with
          | nil => simp [Quoted.split] at hsplit
          | cons c cs => simp [Quoted.split] at hsplit
        | d :: xs =>
          simp only [List.cons_append, Quoted.split] at hsplit ⊢
          obtain ⟨rfl, hrest⟩ := Prod.mk.inj hsplit
          rw [ih xs.length (by simp only [List.length_cons]; omega) xs rfl (Prod.ext rfl hrest)]
      · rw [List.cons_append, split_cons hc] at hsplit ⊢
        split at hsplit
        · exact absurd hsplit (by simp)
        · rename_i hline
          rw [if_neg hline]
          split at hsplit
          · rename_i hquote
            rw [if_pos hquote]
            simp only [Prod.mk.injEq, Option.some.injEq] at hsplit
            obtain ⟨rfl, hrest⟩ := hsplit
            rw [List.append_cancel_right hrest]
          · rename_i hquote
            rw [if_neg hquote]
            obtain ⟨rfl, hrest⟩ := Prod.mk.inj hsplit
            rw [ih xs.length (by simp) xs rfl (Prod.ext rfl hrest)]

/-! ## Cutting off a token -/

theorem startsNumber_transplant
    {c : Char} {xs rest rest' : List Char} (hapart : Apart rest')
    (hrest : c = '-' → xs = [] → rest.head?.any (fun d => d.isDigit || d == '.') = false) :
    (c.isDigit || (c == '-' && (xs ++ rest').head?.any fun d => d.isDigit || d == '.')) =
      (c.isDigit || (c == '-' && (xs ++ rest).head?.any fun d => d.isDigit || d == '.')) := by
  by_cases hminus : c = '-'
  case neg => simp [beq_false_of_ne hminus]
  cases xs with
  | cons x xs => rfl
  | nil =>
    have hrest' : rest'.head?.any (fun d => d.isDigit || d == '.') = false := by
      cases rest' with
      | nil => rfl
      | cons d ds =>
        have hd : apart d = true := hapart d rfl
        have hdot : d ≠ '.' := by
          rintro rfl
          exact absurd hd (by decide)
        simp [isDigit_eq_false_of_apart hd, hdot]
    rw [List.nil_append, List.nil_append, hrest', hrest hminus rfl]

/-- A minus sign that starts a number takes in the digit or dot behind it. -/
theorem head_not_digit_of_splitNumber
    {xs number t rest : List Char}
    (hnumber : splitNumber ('-' :: (xs ++ rest)) = (number, t ++ rest)) :
    xs = [] → rest.head?.any (fun d => d.isDigit || d == '.') = false := by
  rintro rfl
  simp only [List.nil_append, splitNumber] at hnumber
  obtain ⟨-, htail⟩ := Prod.mk.inj hnumber
  have hdigits : splitDigits (isHex rest) false rest =
      ((splitDigits (isHex rest) false rest).1, t ++ rest) := by
    rw [← htail]
  obtain ⟨hnil, rfl⟩ := splitDigits_eq_nil hdigits
  cases rest with
  | nil => rfl
  | cons d ds =>
    cases hd : d.isDigit || d == '.' with
    | false => simpa using hd
    | true =>
      have hcond : (d.isAlphanum || d == '.' || d == '_' ||
          ((d == '+' || d == '-') && !isHex (d :: ds) && false)) = true := by
        rcases Bool.or_eq_true_iff.mp hd with hdigit | hdot
        · simp [Char.isAlphanum, hdigit]
        · simp [hdot]
      rw [splitDigits, if_pos hcond] at hnil
      cases hnil

/-- Dots in front of a text apart from them come from before it. -/
theorem dots_of_append
    {xs rest r : List Char} (hapart : Apart rest) (h : xs ++ rest = '.' :: '.' :: r) :
    ∃ ys, xs = '.' :: '.' :: ys := by
  have hdot : ∀ ds : List Char, rest ≠ '.' :: ds := by
    rintro ds rfl
    exact absurd (hapart '.' rfl) (by decide)
  match xs, h with
  | [], h => exact absurd h (hdot _)
  | [x], h => exact absurd (List.cons.inj h).2 (hdot _)
  | x :: y :: ys, h =>
    obtain ⟨rfl, hys⟩ := List.cons.inj h
    obtain ⟨rfl, -⟩ := List.cons.inj hys
    exact ⟨ys, rfl⟩

theorem lexeme_transplant
    {c : Char} {xs t rest rest' : List Char} {l : Lexeme}
    (hlexeme : lexeme c (xs ++ rest) = .ok (l, t ++ rest)) (hapart : Apart rest') :
    lexeme c (xs ++ rest') = .ok (l, t ++ rest') := by
  unfold lexeme at hlexeme ⊢
  by_cases hname : startsName c = true
  · rw [if_pos hname] at hlexeme ⊢
    simp only [Except.ok.injEq, Prod.mk.injEq] at hlexeme
    obtain ⟨rfl, hrest⟩ := hlexeme
    have hsplit : splitName (c :: xs ++ rest) = ((splitName (c :: xs ++ rest)).1, t ++ rest) :=
      Prod.ext rfl hrest
    have hmoved := splitName_transplant hsplit hapart.nameEnds
    rw [List.cons_append] at hmoved
    rw [hmoved]
    rfl
  rw [if_neg hname] at hlexeme ⊢
  split at hlexeme
  · rename_i hnumber
    simp only [Except.ok.injEq, Prod.mk.injEq] at hlexeme
    obtain ⟨rfl, hrest⟩ := hlexeme
    have hsplit : splitNumber (c :: xs ++ rest) =
        ((splitNumber (c :: xs ++ rest)).1, t ++ rest) := Prod.ext rfl hrest
    have hmoved := splitNumber_transplant (List.cons_ne_nil c xs) hsplit hapart
    have hbehind : c = '-' → xs = [] → rest.head?.any (fun d => d.isDigit || d == '.') = false := by
      rintro rfl
      exact head_not_digit_of_splitNumber hsplit
    rw [List.cons_append] at hmoved
    rw [startsNumber_transplant hapart hbehind, if_pos hnumber, hmoved]
    rfl
  rename_i hnumber
  have hbehind : c = '-' → xs = [] → rest.head?.any (fun d => d.isDigit || d == '.') = false := by
    rintro rfl rfl
    simpa using hnumber
  rw [startsNumber_transplant hapart hbehind, if_neg hnumber]
  split at hlexeme
  · rename_i hquote
    rw [if_pos hquote]
    split at hlexeme
    · cases hlexeme
    · cases hlexeme
    · rename_i text r hdecode hrest
      simp only [Except.ok.injEq, Prod.mk.injEq] at hlexeme
      obtain ⟨rfl, rfl⟩ := hlexeme
      have hmoved := split_transplant rest' xs (Prod.ext rfl hrest)
      rw [hmoved, hdecode]
  rename_i hquote
  rw [if_neg hquote]
  split at hlexeme
  · rename_i happostrophe
    rw [if_pos happostrophe]
    split at hlexeme
    · cases hlexeme
    · rename_i r hrest
      simp only [Except.ok.injEq, Prod.mk.injEq] at hlexeme
      obtain ⟨rfl, rfl⟩ := hlexeme
      have hmoved := split_transplant rest' xs (Prod.ext rfl hrest)
      rw [hmoved]
  rename_i happostrophe
  rw [if_neg happostrophe]
  split at hlexeme
  · rename_i r hdots
    simp only [Except.ok.injEq, Prod.mk.injEq] at hlexeme
    obtain ⟨rfl, rfl⟩ := hlexeme
    obtain rfl : xs = '.' :: '.' :: t := List.append_cancel_right (by simpa using hdots)
    rfl
  · rename_i hdots
    simp only [Except.ok.injEq, Prod.mk.injEq] at hlexeme
    obtain ⟨rfl, hrest⟩ := hlexeme
    obtain rfl : xs = t := List.append_cancel_right hrest
    split
    · rename_i r hdots'
      obtain ⟨ys, rfl⟩ := dots_of_append hapart hdots'
      exact absurd rfl (hdots _ rfl)
    · rfl

/-! ## Blanks -/

theorem splitBlank_eq_nil
    {inComment : Bool} {rest t : List Char} (h : (splitBlank inComment rest).2 = t ++ rest) :
    t = [] := by
  have happend := splitBlank_append inComment rest
  rw [h] at happend
  have hlength := congrArg List.length happend
  simp only [List.length_append] at hlength
  exact List.eq_nil_of_length_eq_zero (by omega)

theorem splitBlank_transplant
    {inComment : Bool} {xs blank t rest rest' : List Char} (ht : t ≠ [])
    (hblank : splitBlank inComment (xs ++ rest) = (blank, t ++ rest)) (hapart : Apart rest') :
    splitBlank inComment (xs ++ rest') = (blank, t ++ rest') := by
  induction xs generalizing inComment blank with
  | nil => exact absurd (splitBlank_eq_nil (congrArg Prod.snd hblank)) ht
  | cons c xs ih =>
    cases inComment with
    | true =>
      simp only [List.cons_append, splitBlank] at hblank ⊢
      obtain ⟨rfl, hrest⟩ := Prod.mk.inj hblank
      rw [ih (Prod.ext rfl hrest)]
    | false =>
      simp only [List.cons_append, splitBlank] at hblank ⊢
      by_cases hc : isBlank c = true
      · rw [if_pos hc] at hblank ⊢
        obtain ⟨rfl, hrest⟩ := Prod.mk.inj hblank
        rw [ih (Prod.ext rfl hrest)]
      · rw [if_neg hc] at hblank ⊢
        split at hblank
        · rename_i hcomment
          obtain ⟨rfl, hrest⟩ := Prod.mk.inj hblank
          have hrec := ih (Prod.ext rfl hrest)
          -- A slash at the end of `xs` opens no comment, since the comment would be longer.
          have hcomment' : (c == '#' || c == '/' && (xs ++ rest').head? == some '/') = true := by
            cases xs with
            | cons x xs => exact hcomment
            | nil => exact absurd (splitBlank_eq_nil hrest) ht
          rw [if_pos hcomment', hrec]
        · rename_i hcomment
          obtain ⟨rfl, hrest⟩ := Prod.mk.inj hblank
          obtain rfl : c :: xs = t := List.append_cancel_right (by simpa using hrest)
          have hcomment' : ¬ (c == '#' || c == '/' && (xs ++ rest').head? == some '/') = true := by
            cases xs with
            | cons x xs => exact hcomment
            | nil =>
              have hslash : rest'.head? ≠ some '/' := by
                intro hslash
                exact absurd (hapart _ hslash) (by decide)
              have hhash : c ≠ '#' := by
                rintro rfl
                exact hcomment rfl
              simp [hslash, hhash]
          rw [if_neg hcomment']
          rfl

end Scan
end ApiSurface
