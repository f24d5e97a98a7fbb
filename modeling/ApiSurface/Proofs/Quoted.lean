import ApiSurface.Proofs.Spelling
import Mathlib.Data.List.TakeWhile

/-!
# String literals are read back

Writing a string as a literal and cutting the literal off again gives back the string: every
character is escaped into characters that end neither the literal nor the line, and undoing the
escape gives back the character.
-/

namespace ApiSurface
namespace Quoted

open Text (isControl isHexDigit hexNumber)

theorem toNat_lt_of_isControl {c : Char} (h : isControl c = true) : c.toNat < 160 := by
  simp only [isControl, Bool.or_eq_true, Bool.and_eq_true, decide_eq_true_eq] at h
  omega

theorem hexValue?_digitChar : ∀ d < 16, Text.hexValue? (Nat.digitChar d) = some d := by
  decide

theorem isHexDigit_of_mem_fourDigits
    {n : Nat} {c : Char} (h : c ∈ fourDigits n) : isHexDigit c = true := by
  obtain ⟨d, hd, rfl⟩ := List.mem_map.mp h
  have hlt : d < 16 := by
    simp only [List.mem_cons, List.not_mem_nil, or_false] at hd
    omega
  rw [isHexDigit, hexValue?_digitChar d hlt]
  rfl

theorem hexNumber_fourDigits {n : Nat} (h : n < 65536) : hexNumber (fourDigits n) = n := by
  have h₁ := hexValue?_digitChar (n / 4096 % 16) (by omega)
  have h₂ := hexValue?_digitChar (n / 256 % 16) (by omega)
  have h₃ := hexValue?_digitChar (n / 16 % 16) (by omega)
  have h₄ := hexValue?_digitChar (n % 16) (by omega)
  simp only [hexNumber, fourDigits, List.map_cons, List.map_nil, List.foldl_cons, List.foldl_nil,
    h₁, h₂, h₃, h₄, Option.getD_some]
  omega

/-- Digits of a code escape are plain characters of a literal. -/
theorem plain_of_isHexDigit {c : Char} (h : isHexDigit c = true) :
    c ≠ '\\' ∧ c ≠ '\n' ∧ c ≠ '"' := by
  refine ⟨?_, ?_, ?_⟩ <;> rintro rfl <;> exact absurd h (by decide)

theorem split_plain
    {cs : List Char} (h : ∀ c ∈ cs, c ≠ '\\' ∧ c ≠ '\n' ∧ c ≠ '"') (rest : List Char) :
    split '"' (cs ++ rest) = (cs ++ (split '"' rest).1, (split '"' rest).2) := by
  induction cs with
  | nil => rfl
  | cons c cs ih =>
    obtain ⟨hslash, hline, hquote⟩ := h c List.mem_cons_self
    rw [List.cons_append, Scan.split_cons hslash, if_neg hline, if_neg hquote,
      ih fun d hd => h d (List.mem_cons_of_mem _ hd)]
    rfl

/-- An escaped character stays inside the literal. -/
theorem split_escape (c : Char) (rest : List Char) :
    split '"' (escape c ++ rest) = (escape c ++ (split '"' rest).1, (split '"' rest).2) := by
  have hpair : ∀ d, split '"' (['\\', d] ++ rest) =
      (['\\', d] ++ (split '"' rest).1, (split '"' rest).2) := by
    intro d
    rfl
  unfold escape
  split
  · exact hpair _
  rename_i hquote
  split
  · exact hpair _
  rename_i hslash
  split
  · exact hpair _
  rename_i hline
  iterate 5
    split
    · exact hpair _
  split
  · have hplain : ∀ d ∈ fourDigits c.toNat, d ≠ '\\' ∧ d ≠ '\n' ∧ d ≠ '"' :=
      fun d hd => plain_of_isHexDigit (isHexDigit_of_mem_fourDigits hd)
    have hdigits := split_plain hplain rest
    rw [List.cons_append, List.cons_append, split, hdigits]
    rfl
  · exact split_plain (by simpa using ⟨hslash, hline, hquote⟩) rest

theorem split_flatMap_escape (cs rest : List Char) :
    split '"' (cs.flatMap escape ++ '"' :: rest) = (cs.flatMap escape, some rest) := by
  induction cs with
  | nil => rfl
  | cons c cs ih =>
    rw [List.flatMap_cons, List.append_assoc, split_escape, ih]

theorem decode_cons
    {c : Char} (h : c ≠ '\\') (cs : List Char) : decode (c :: cs) = (decode cs).map (c :: ·) := by
  rw [decode]
  · intro hslash
    exact absurd hslash h
  · intro ds hslash
    exact absurd hslash h
  · intro d ds hslash
    exact absurd hslash h

/-- Undoing the escape gives back the character. -/
theorem decode_escape (c : Char) (cs : List Char) :
    decode (escape c ++ cs) = (decode cs).map (c :: ·) := by
  have hpair : ∀ d, d ≠ 'u' → decode (['\\', d] ++ cs) = (decode cs).map (unescape d :: ·) := by
    intro d hd
    rw [List.cons_append, List.cons_append, List.nil_append, decode]
    intro hu
    exact absurd hu hd
  unfold escape
  split
  · subst_vars
    exact hpair _ (by decide)
  split
  · subst_vars
    exact hpair _ (by decide)
  rename_i hslash
  iterate 6
    split
    · subst_vars
      exact hpair _ (by decide)
  split
  · rename_i hcontrol
    have hlt := toNat_lt_of_isControl hcontrol
    have hdigits : codeDigits (fourDigits c.toNat ++ cs) = fourDigits c.toNat := by
      have hfour : (fourDigits c.toNat ++ cs).take 4 = fourDigits c.toNat := rfl
      rw [codeDigits, hfour]
      exact List.takeWhile_eq_self_iff.mpr fun d hd => isHexDigit_of_mem_fourDigits hd
    have hcode : ofCode? (fourDigits c.toNat) = some c := by
      have hnumber : hexNumber (fourDigits c.toNat) = c.toNat :=
        hexNumber_fourDigits (by omega)
      have hvalid : (hexNumber (fourDigits c.toNat)).isValidChar := by
        rw [hnumber]
        exact .inl (by omega)
      rw [ofCode?, if_neg (by simp [fourDigits]), if_pos hvalid, hnumber, Char.ofNat_toNat]
    rw [List.cons_append, List.cons_append, decode, hdigits, hcode]
    rfl
  · exact decode_cons hslash cs

theorem decode_flatMap_escape (cs : List Char) : decode (cs.flatMap escape) = .ok cs := by
  induction cs with
  | nil => rw [List.flatMap_nil, decode]
  | cons c cs ih =>
    rw [List.flatMap_cons, decode_escape, ih]
    rfl

end Quoted

namespace Scan

/-- A literal is cut off in front of any text, which is left as it is. -/
theorem lexeme_encode (s : String) (rest : List Char) :
    lexeme '"' (s.toList.flatMap Quoted.escape ++ '"' :: rest) =
      .ok (⟨.string, s.toList, (Quoted.encode s).toList⟩, rest) := by
  have hname : startsName '"' = false := by decide
  have hsplit := Quoted.split_flatMap_escape s.toList rest
  have hdecode := Quoted.decode_flatMap_escape s.toList
  simp [lexeme, hname, hsplit, hdecode, Quoted.encode]

/-- A string written as a literal is a token with that string. -/
theorem isLexeme_encode (s : String) :
    IsLexeme ⟨.string, s.toList, (Quoted.encode s).toList⟩ :=
  ⟨'"', s.toList.flatMap Quoted.escape ++ ['"'], by simp [Quoted.encode], rfl, lexeme_encode s []⟩

end Scan
end ApiSurface
