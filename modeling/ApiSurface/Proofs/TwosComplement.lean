import ApiSurface.Signature.Writer.Hexadecimal
import Mathlib.Data.Int.ModEq
import Mathlib.Data.List.DropRight

/-!
# Hexadecimal comments show the two's complement

A numeral stands for a number place by place, whatever leading zeros it has and in whichever case
its letters are.  The value of an integral constant is read from a decimal or a hexadecimal numeral,
and the comment is the numeral of its residue modulo the number of values of its type, in lower case
and without leading zeros.
-/

namespace ApiSurface
namespace Signature
namespace Hexadecimal

/-! ## Numerals -/

/-- The digits of bases up to sixteen, in lower case. -/
def lowerDigits : List Char :=
  "0123456789abcdef".toList

/-- The digits of bases up to sixteen, in upper case. -/
def upperDigits : List Char :=
  "0123456789ABCDEF".toList

/-- The character is the digit of a value, in either case. -/
def IsDigit (c : Char) (d : Nat) : Prop :=
  lowerDigits[d]? = some c ∨ upperDigits[d]? = some c

/-- The text stands for a number: it has at least one digit, and one more digit behind a text
multiplies its value by the base and adds the digit. -/
inductive Numeral (base : Nat) : List Char → Nat → Prop where
  | digit {c : Char} {d : Nat} (h : IsDigit c d) (hbase : d < base) : Numeral base [c] d
  | more {text : List Char} {n : Nat} {c : Char} {d : Nat} (front : Numeral base text n)
      (h : IsDigit c d) (hbase : d < base) : Numeral base (text ++ [c]) (n * base + d)

theorem IsDigit.hexValue?_eq {c : Char} {d : Nat} (h : IsDigit c d) :
    Text.hexValue? c = some d := by
  have hall : ∀ d < 16, (lowerDigits[d]?.all fun c => Text.hexValue? c == some d) = true ∧
      (upperDigits[d]?.all fun c => Text.hexValue? c == some d) = true := by decide
  have hlt : d < 16 := by
    rcases h with h | h
    · exact (List.getElem?_eq_some_iff.mp h).1
    · exact (List.getElem?_eq_some_iff.mp h).1
  obtain ⟨hlower, hupper⟩ := hall d hlt
  rcases h with h | h
  · simpa [h] using hlower
  · simpa [h] using hupper

theorem IsDigit.mem {c : Char} {d : Nat} (h : IsDigit c d) : c ∈ lowerDigits ++ upperDigits :=
  List.mem_append.mpr (h.imp List.mem_of_getElem? List.mem_of_getElem?)

variable {base n : Nat} {text : List Char}

theorem Numeral.ne_nil (h : Numeral base text n) : text ≠ [] := by
  cases h with
  | digit => simp
  | more => simp

/-- Nothing but digits occurs in a numeral. -/
theorem Numeral.not_mem
    (h : Numeral base text n) {c : Char} (hc : c ∉ lowerDigits ++ upperDigits) : c ∉ text := by
  induction h with
  | digit h _ =>
    rw [List.mem_singleton]
    rintro rfl
    exact hc h.mem
  | more _ h _ ih =>
    rw [List.mem_append, List.mem_singleton]
    rintro (hmem | rfl)
    · exact ih hmem
    · exact hc h.mem

theorem natural?_of_numeral (h : Numeral base text n) : natural? base text = some n := by
  have hdigit : ∀ {c d}, IsDigit c d → d < base → digit? base c = some d := by
    intro c d hc hd
    simp [digit?, hc.hexValue?_eq, hd]
  induction h with
  | digit hc hbase => simp [natural?, hdigit hc hbase]
  | @more text n c d _ hc hbase ih =>
    rw [natural?] at ih ⊢
    split at ih
    · cases ih
    · obtain ⟨ds, hds, rfl⟩ := Option.map_eq_some_iff.mp ih
      simp [hds, hdigit hc hbase]

/-- The digits that a number is written with stand for it. -/
theorem numeral_toDigits (hone : 1 < base) (hbase : base ≤ 16) (n : Nat) :
    Numeral base (Nat.toDigits base n) n := by
  have hdigit : ∀ d < 16, IsDigit (Nat.digitChar d) d := by
    unfold IsDigit
    decide
  induction n using Nat.strongRecOn with
  | _ n ih =>
    rw [Nat.toDigits_eq_if hone]
    split
    · rename_i hlt
      exact .digit (hdigit n (by omega)) hlt
    · rename_i hge
      have hless : n / base < n := Nat.div_lt_self (by omega) hone
      have hmod : n % base < base := Nat.mod_lt n (by omega)
      have hmore := Numeral.more (ih _ hless) (hdigit (n % base) (by omega)) hmod
      rwa [Nat.div_add_mod'] at hmore

/-- The text is the hexadecimal numeral of a number in lower case, without leading zeros. -/
structure IsPlainHexadecimal (text : List Char) (n : Nat) : Prop where
  numeral : Numeral 16 text n
  lower : ∀ c ∈ text, c ∈ lowerDigits
  leading : text.head? = some '0' → text = ['0']

theorem isPlainHexadecimal_toDigits (n : Nat) : IsPlainHexadecimal (Nat.toDigits 16 n) n := by
  have hlower : ∀ d < 16, Nat.digitChar d ∈ lowerDigits := by decide
  have hleading : ∀ n, (Nat.toDigits 16 n).head? = some '0' → n = 0 := by
    intro n
    induction n using Nat.strongRecOn with
    | _ n ih =>
      rw [Nat.toDigits_eq_if (by decide)]
      split
      · simp
      · intro hhead
        rw [List.head?_append_of_ne_nil _ Nat.toDigits_ne_nil] at hhead
        have hzero := ih (n / 16) (by omega) hhead
        omega
  refine ⟨numeral_toDigits (by decide) (by decide) n, ?_, fun hhead => ?_⟩
  · induction n using Nat.strongRecOn with
    | _ n ih =>
      rw [Nat.toDigits_eq_if (by decide)]
      split
      · rename_i hlt
        simpa using hlower n hlt
      · intro c hc
        rcases List.mem_append.mp hc with hc | hc
        · exact ih (n / 16) (by omega) c hc
        · obtain rfl := List.mem_singleton.mp hc
          exact hlower (n % 16) (by omega)
  · rw [hleading n hhead, Nat.toDigits_zero]

/-! ## Values -/

/-- A mark of the type `long` behind a constant. -/
def IsMark (c : Char) : Prop :=
  c = 'L' ∨ c = 'l'

/-- Marks are left out behind a text that does not end with one. -/
theorem withoutMark_append
    {marks : List Char} (hmarks : ∀ c ∈ marks, IsMark c)
    (hlast : ∀ h : text ≠ [], ¬IsMark (text.getLast h)) : withoutMark (text ++ marks) = text := by
  have htest : ∀ c, (c == 'L' || c == 'l') = true ↔ IsMark c := by simp [IsMark]
  change List.rdropWhile (fun c => c == 'L' || c == 'l') (text ++ marks) = text
  induction marks using List.reverseRecOn with
  | nil =>
    rw [List.append_nil, List.rdropWhile_eq_self_iff]
    intro hne
    rw [htest]
    exact hlast hne
  | append_singleton marks c ih =>
    have hc := (htest c).mpr (hmarks c (by simp))
    rw [← List.append_assoc, List.rdropWhile_concat_pos (fun c => c == 'L' || c == 'l') _ _ hc]
    exact ih fun d hd => hmarks d (by simp [hd])

theorem withoutMark_numeral
    {front marks : List Char} (h : Numeral base text n) (hmarks : ∀ c ∈ marks, IsMark c) :
    withoutMark (front ++ text ++ marks) = front ++ text := by
  refine withoutMark_append hmarks fun hne hmark => ?_
  have hlast : (front ++ text).getLast hne ∈ text := by
    rw [List.getLast_append_of_ne_nil _ h.ne_nil]
    exact List.getLast_mem h.ne_nil
  rcases hmark with hmark | hmark
  · exact h.not_mem (by decide) (hmark ▸ hlast)
  · exact h.not_mem (by decide) (hmark ▸ hlast)

theorem integer?_of_numeral (h : Numeral base text n) : integer? base text = some (n : Int) := by
  have hplus : '+' ∉ text := h.not_mem (by decide)
  have hminus : '-' ∉ text := h.not_mem (by decide)
  rw [integer?]
  · rw [natural?_of_numeral h]
    rfl
  · rintro digits rfl
    simp at hplus
  · rintro digits rfl
    simp at hminus

/-- The decimal text of a number, without and with a sign. -/
theorem toList_toString (v : Int) :
    (toString v).toList =
      (if v < 0 then ['-'] else []) ++ Nat.toDigits 10 v.natAbs := by
  rw [Int.toString_eq_repr, Int.repr_eq_if]
  split
  · rename_i hnonneg
    rw [if_neg (by omega), Nat.toList_repr, List.nil_append]
    congr 1
    omega
  · rename_i hneg
    rw [if_pos (by omega), String.toList_append, Nat.toList_repr]
    congr 2
    omega

/-- The value of the decimal text of a number of 64 bits with a sign. -/
theorem value?_toString
    {v : Int} (hlow : -2 ^ 63 ≤ v) (hhigh : v < 2 ^ 63) : value? (toString v).toList = some v := by
  have hnumeral : Numeral 10 (Nat.toDigits 10 v.natAbs) v.natAbs :=
    numeral_toDigits (by decide) (by decide) v.natAbs
  have hinteger : integer? 10 (toString v).toList = some v := by
    rw [toList_toString]
    split
    · rename_i hneg
      rw [List.singleton_append, integer?, natural?_of_numeral hnumeral, Option.map_some,
        Int.ofNat_eq_natCast, Int.ofNat_natAbs_of_nonpos hneg.le, neg_neg]
    · rename_i hnonneg
      rw [List.nil_append, integer?_of_numeral hnumeral, Int.natAbs_of_nonneg (by omega)]
  have hdecimal : ∀ x : Char, x = 'x' ∨ x = 'X' → x ∉ (toString v).toList := by
    intro x hx hmem
    rw [toList_toString] at hmem
    rcases List.mem_append.mp hmem with hsign | hdigit
    · split at hsign
      · obtain rfl := List.mem_singleton.mp hsign
        revert hx
        decide
      · cases hsign
    · rcases hx with rfl | rfl
      · exact hnumeral.not_mem (by decide) hdigit
      · exact hnumeral.not_mem (by decide) hdigit
  rw [value?]
  · rw [hinteger, Option.filter_some, if_pos]
    exact decide_eq_true ⟨by unfold limit; omega, by unfold limit; omega⟩
  · intro digits heq
    exact hdecimal 'x' (.inl rfl) (heq ▸ by simp)
  · intro digits heq
    exact hdecimal 'X' (.inr rfl) (heq ▸ by simp)

theorem value?_hexadecimal
    (h : Numeral 16 text n) (hlt : n < 2 ^ 64) {x : Char} (hx : x = 'x' ∨ x = 'X') :
    value? ('0' :: x :: text) = some (n : Int) := by
  have hfits : decide (-limit ≤ (n : Int) ∧ (n : Int) < 2 * limit) = true :=
    decide_eq_true ⟨by unfold limit; omega, by unfold limit; omega⟩
  rcases hx with rfl | rfl
  · rw [value?, integer?_of_numeral h, Option.filter_some, if_pos hfits]
  · rw [value?, integer?_of_numeral h, Option.filter_some, if_pos hfits]

/-! ## Comments -/

variable {type : TypeRef}

/-- The integral types with their widths in bits. -/
def integralWidths : List (String × Nat) :=
  [("int", 32), ("long", 64), ("short", 16), ("byte", 8)]

/-- A constant of an integral type has a comment if it has a value. -/
theorem comment?_of_integral
    {width : Nat} (hwidth : (type.name, width) ∈ integralWidths) (hplain : type.dimensions = 0)
    (source : String) :
    comment? type source = (value? (withoutMark source.toList)).map fun v =>
      "0x" ++ String.ofList (Nat.toDigits 16 (v % 2 ^ width).toNat) := by
  have htable : ∀ p ∈ integralWidths,
      p.1 ∈ TypeRef.primitives ∧ width? p.1 = some p.2 := by decide
  obtain ⟨hprimitive, hknown⟩ := htable _ hwidth
  have hprimitive : type.isPrimitive = true := by simp [TypeRef.isPrimitive, hplain, hprimitive]
  rw [comment?, if_pos hprimitive, hknown]
  cases value? (withoutMark source.toList) with
  | none => rfl
  | some v => rfl

/-- Constants of other types have no comment. -/
theorem comment?_of_not_integral
    (h : type.name ∉ integralWidths.map Prod.fst ∨ type.dimensions ≠ 0) (source : String) :
    comment? type source = none := by
  rw [comment?]
  split
  · rename_i hprimitive
    have hname : type.name ∉ ["int", "long", "short", "byte"] := by
      refine h.resolve_right fun hdimensions => hdimensions ?_
      simpa using (Bool.and_eq_true_iff.mp hprimitive).1
    simp only [List.mem_cons, List.not_mem_nil, or_false, not_or] at hname
    have hunknown : width? type.name = none := by
      rw [width?] <;> simp [hname]
    rw [hunknown]
    cases value? (withoutMark source.toList) with
    | none => rfl
    | some v => rfl
  · rfl

/-- Marks behind the decimal text of a number do not change its value. -/
theorem value?_withoutMark_toString
    {v : Int} (hlow : -2 ^ 63 ≤ v) (hhigh : v < 2 ^ 63) {marks : List Char}
    (hmarks : ∀ c ∈ marks, IsMark c) :
    value? (withoutMark (toString v ++ String.ofList marks).toList) = some v := by
  have hnumeral : Numeral 10 (Nat.toDigits 10 v.natAbs) v.natAbs :=
    numeral_toDigits (by decide) (by decide) v.natAbs
  rw [String.toList_append, String.toList_ofList, toList_toString,
    withoutMark_numeral hnumeral hmarks, ← toList_toString, value?_toString hlow hhigh]

theorem value?_withoutMark_hexadecimal
    (h : Numeral 16 text n) (hlt : n < 2 ^ 64) {x : Char} (hx : x = 'x' ∨ x = 'X') :
    value? (withoutMark (String.ofList ('0' :: x :: text)).toList) = some (n : Int) := by
  have hwithout : withoutMark (['0', x] ++ text ++ []) = ['0', x] ++ text :=
    withoutMark_numeral h (List.forall_mem_nil IsMark)
  rw [List.append_nil] at hwithout
  rw [String.toList_ofList]
  exact (congrArg value? hwithout).trans (value?_hexadecimal h hlt hx)

/-- The comment of a number of 64 bits with a sign, as a constant of an integral type, is the plain
hexadecimal numeral of its residue in the width of the type.  The comment of a hexadecimal constant
of 64 bits is that of the number with a sign that has the same residue.  Constants of other types
have none. -/
theorem comment?_twosComplement :
    (∀ (type : TypeRef) (width : Nat), (type.name, width) ∈ integralWidths →
      type.dimensions = 0 → ∀ v : Int, -2 ^ 63 ≤ v → v < 2 ^ 63 →
      ∀ marks : List Char, (∀ c ∈ marks, IsMark c) →
        ∃ digits, comment? type (toString v ++ String.ofList marks) =
            some ("0x" ++ String.ofList digits) ∧
          IsPlainHexadecimal digits (v % 2 ^ width).toNat) ∧
    (∀ (type : TypeRef) (m : Nat), m < 2 ^ 64 → ∀ digits, Numeral 16 digits m →
      ∀ x : Char, x = 'x' ∨ x = 'X' →
      ∀ v : Int, -2 ^ 63 ≤ v → v < 2 ^ 63 → v ≡ m [ZMOD 2 ^ 64] →
        comment? type (String.ofList ('0' :: x :: digits)) = comment? type (toString v)) ∧
    ∀ type : TypeRef, type.name ∉ integralWidths.map Prod.fst ∨ type.dimensions ≠ 0 →
      ∀ source, comment? type source = none := by
  refine ⟨?_, ?_, fun type h source => comment?_of_not_integral h source⟩
  · intro type width hwidth hplain v hlow hhigh marks hmarks
    refine ⟨_, ?_, isPlainHexadecimal_toDigits _⟩
    rw [comment?_of_integral hwidth hplain, value?_withoutMark_toString hlow hhigh hmarks]
    rfl
  · intro type m hm digits hdigits x hx v hlow hhigh hcongruent
    by_cases hintegral : (∃ width, (type.name, width) ∈ integralWidths) ∧ type.dimensions = 0
    · obtain ⟨⟨width, hwidth⟩, hplain⟩ := hintegral
      have hdvd : (2 : Int) ^ width ∣ 2 ^ 64 := by
        have hle : ∀ p ∈ integralWidths, p.2 ≤ 64 := by decide
        exact pow_dvd_pow 2 (hle _ hwidth)
      have hresidue : v % 2 ^ width = (m : Int) % 2 ^ width := hcongruent.of_dvd hdvd
      have hvalue := value?_withoutMark_toString hlow hhigh (List.forall_mem_nil IsMark)
      rw [String.ofList_nil, String.append_empty] at hvalue
      rw [comment?_of_integral hwidth hplain, comment?_of_integral hwidth hplain,
        value?_withoutMark_hexadecimal hdigits hm hx, hvalue, Option.map_some, Option.map_some,
        hresidue]
    · have hother : type.name ∉ integralWidths.map Prod.fst ∨ type.dimensions ≠ 0 := by
        rw [not_and_or] at hintegral
        refine hintegral.imp_left fun hnone hmem => ?_
        obtain ⟨⟨name, width⟩, hwidth, rfl⟩ := List.mem_map.mp hmem
        exact hnone ⟨width, hwidth⟩
      rw [comment?_of_not_integral hother, comment?_of_not_integral hother]

/-- The constants `-1Ll` of type `int` and `0x8000000000000000` of type `long`, and an array. -/
theorem comment?_minusOne :
    (∃ digits, comment? { name := "int" } "-1Ll" = some ("0x" ++ String.ofList digits) ∧
      IsPlainHexadecimal digits 0xffffffff) ∧
    comment? { name := "long" } "0X8000000000000000" =
      comment? { name := "long" } "-9223372036854775808" ∧
    comment? { name := "int", dimensions := 1 } "-1" = none := by
  obtain ⟨hdecimal, hhexadecimal, hother⟩ := comment?_twosComplement
  have hmarked : toString (-1 : Int) ++ String.ofList ['L', 'l'] = "-1Ll" := by decide
  have hlowest : toString (-2 ^ 63 : Int) = "-9223372036854775808" := by decide +kernel
  have hdigits : Nat.toDigits 16 (2 ^ 63) = "8000000000000000".toList := by decide +kernel
  refine ⟨?_, ?_, hother _ (.inr (by decide)) _⟩
  · obtain ⟨digits, hcomment, hplain⟩ := hdecimal { name := "int" } 32 (by decide) rfl (-1)
      (by decide) (by decide) ['L', 'l'] (by simp [IsMark])
    exact ⟨digits, hmarked ▸ hcomment, hplain⟩
  · rw [← hlowest]
    exact hhexadecimal { name := "long" } (2 ^ 63) (by decide) "8000000000000000".toList
      (hdigits ▸ numeral_toDigits (by decide) (by decide) (2 ^ 63)) 'X' (.inr rfl) (-2 ^ 63)
      (by decide) (by decide) (by decide)

end Hexadecimal
end Signature
end ApiSurface
