import ApiSurface.Text.Basic
import ApiSurface.Toml.Value

/-!
# Numbers, truth values and moments

Scalars without quotes are recognised as whole words.
-/

namespace ApiSurface
namespace Toml

open Text (pieces isHexDigit hexValue?)

/-- Digits of a class, where a single underscore may stand between two of them. -/
def digits? (isDigit : Char → Bool) (word : List Char) : Option (List Char) :=
  let groups := pieces '_' word
  if groups.all fun group => !group.isEmpty && group.all isDigit then some groups.flatten else none

def number (base : Nat) (digits : List Char) : Nat :=
  digits.foldl (fun n c => n * base + (hexValue? c).getD 0) 0

/-- A decimal number without a sign and without zeros in front. -/
def decimal? (word : List Char) : Option (List Char) := do
  let digits ← digits? Char.isDigit word
  if digits.head? = some '0' ∧ 1 < digits.length then none else some digits

/-- A word without the sign in front of it, and whether that is a minus. -/
def unsigned : List Char → Bool × List Char
  | '+' :: word => (false, word)
  | '-' :: word => (true, word)
  | word => (false, word)

/-- An integer of 64 bits, in base ten with a sign or in another base without one. -/
def integer? (word : List Char) : Option Int :=
  let value : Option Int :=
    match word with
    | '0' :: 'x' :: digits => (digits? isHexDigit digits).map fun ds => Int.ofNat (number 16 ds)
    | '0' :: 'o' :: digits =>
      (digits? (fun c => '0' ≤ c && c ≤ '7') digits).map fun ds => Int.ofNat (number 8 ds)
    | '0' :: 'b' :: digits =>
      (digits? (fun c => c == '0' || c == '1') digits).map fun ds => Int.ofNat (number 2 ds)
    | _ =>
      let (negative, digits) := unsigned word
      (decimal? digits).map fun ds =>
        if negative then -Int.ofNat (number 10 ds) else Int.ofNat (number 10 ds)
  value.filter fun v => -0x8000000000000000 ≤ v ∧ v < 0x8000000000000000

/-- The parts of a word on either side of the first mark of a class. -/
def cut (isMark : Char → Bool) (word : List Char) : List Char × Option (List Char) :=
  match word.span fun c => !isMark c with
  | (before, []) => (before, none)
  | (before, _ :: behind) => (before, some behind)

/-- A decimal number in scientific form: `mantissa` times ten to the power of `exponent`. -/
structure Scientific where
  mantissa : List Char
  exponent : Int
  deriving DecidableEq, Repr

namespace Scientific

/-- The number behind its sign, if it has a fraction or an exponent. -/
def ofWord? (magnitude : List Char) : Option Scientific := do
  let (front, power) := cut (fun c => c == 'e' || c == 'E') magnitude
  let (whole, fraction) := cut (· == '.') front
  if fraction.isNone && power.isNone then none
  let whole ← decimal? whole
  let fraction ← match fraction with
    | some ds => digits? Char.isDigit ds
    | none => some []
  let power ← match power with
    | some ds =>
      let (negative, ds) := unsigned ds
      (digits? Char.isDigit ds).map fun ds =>
        if negative then -Int.ofNat (number 10 ds) else Int.ofNat (number 10 ds)
    | none => some 0
  return { mantissa := whole ++ fraction, exponent := power - fraction.length }

/-- The least number too large for a floating point number of 64 bits: the middle between the
largest of them and the power of two behind it. -/
def overflow : Nat :=
  Nat.pow 2 1024 - Nat.pow 2 970

/-- Whether the number is too large for a floating point number of 64 bits.  Only one with as many
places in front of the point as the limit is worked out. -/
def overflows (x : Scientific) : Bool :=
  let digits := x.mantissa.dropWhile (· == '0')
  let places : Int := digits.length + x.exponent
  if digits.isEmpty || places < 309 then false
  else if 309 < places then true
  else if 0 ≤ x.exponent then overflow ≤ number 10 digits * Nat.pow 10 x.exponent.toNat
  else overflow * Nat.pow 10 (-x.exponent).toNat ≤ number 10 digits

end Scientific

/-- Whether a word is a number with a fraction or an exponent, or one that is no finite number.  A
number that is too large has to be negative. -/
def isFloat (word : List Char) : Bool :=
  let (negative, magnitude) := unsigned word
  magnitude == ['i', 'n', 'f'] || magnitude == ['n', 'a', 'n'] ||
    (Scientific.ofWord? magnitude).any fun x => negative || !x.overflows

/-- A decimal number of exactly the given number of digits. -/
def fixed? (size : Nat) (word : List Char) : Option Nat :=
  if word.length = size ∧ word.all Char.isDigit then some (number 10 word) else none

def daysOf (year month : Nat) : Nat :=
  if month = 2 then
    if year % 4 = 0 ∧ (year % 100 ≠ 0 ∨ year % 400 = 0) then 29 else 28
  else if month ∈ [4, 6, 9, 11] then 30
  else 31

def isDate (word : List Char) : Bool :=
  match pieces '-' word with
  | [year, month, day] =>
    match fixed? 4 year, fixed? 2 month, fixed? 2 day with
    | some year, some month, some day =>
      1 ≤ month && month ≤ 12 && 1 ≤ day && day ≤ daysOf year month
    | _, _, _ => false
  | _ => false

def isTime (word : List Char) : Bool :=
  let (clock, fraction) := cut (· == '.') word
  (fraction.all fun ds => !ds.isEmpty && ds.all Char.isDigit) &&
    match (pieces ':' clock).map (fixed? 2) with
    | [some hour, some minute, some second] => hour < 24 && minute < 60 && second ≤ 60
    | _ => false

/-- Whether a word is an offset from universal time, its sign apart. -/
def isOffset (word : List Char) : Bool :=
  match (pieces ':' word).map (fixed? 2) with
  | [some hour, some minute] => hour < 24 && minute < 60
  | _ => false

/-- Whether a word is a time of day, with or without an offset. -/
def isZonedTime (word : List Char) : Bool :=
  match word.span fun c => c != 'Z' && c != 'z' && c != '+' && c != '-' with
  | (time, []) => isTime time
  | (time, mark :: behind) =>
    isTime time && if mark == 'Z' || mark == 'z' then behind.isEmpty else isOffset behind

/-- Whether a word is a date with a time behind the given mark. -/
def isMoment (word : List Char) : Bool :=
  isDate word || isTime word ||
    (isDate (word.take 10) &&
      match word.drop 10 with
      | mark :: time => (mark == 'T' || mark == 't' || mark == ' ') && isZonedTime time
      | [] => false)

/-- The value of a word without quotes. -/
def scalar? (word : List Char) : Option Value :=
  if word = ['t', 'r', 'u', 'e'] then some (.boolean true)
  else if word = ['f', 'a', 'l', 's', 'e'] then some (.boolean false)
  else
    match integer? word with
    | some value => some (.integer value)
    | none =>
      if isFloat word then some (.float (String.ofList word))
      else if isMoment word then some (.moment (String.ofList word))
      else none

def isWordChar (c : Char) : Bool :=
  c.isAlphanum || c == '+' || c == '-' || c == '_' || c == '.' || c == ':'

/-- A word without quotes and what follows it; a date may have a time behind a blank. -/
def splitWord (cs : List Char) : List Char × List Char :=
  let (word, rest) := cs.span isWordChar
  match rest with
  | ' ' :: time =>
    if isDate word && time.head?.any Char.isDigit then
      let (clock, rest) := time.span isWordChar
      (word ++ ' ' :: clock, rest)
    else (word, rest)
  | _ => (word, rest)

end Toml
end ApiSurface
