import ApiSurface.Text.Classes
import ApiSurface.TypeRef

/-!
# Hexadecimal comments

The compatible layout shows the value of an integral constant once more in hexadecimal, as the two's
complement in the width of its type.
-/

namespace ApiSurface
namespace Signature
namespace Hexadecimal

open Text (hexValue?)

/-- The width in bits of an integral type; characters do not count as integral here. -/
def width? (name : String) : Option Nat :=
  match name with
  | "byte" => some 8
  | "short" => some 16
  | "int" => some 32
  | "long" => some 64
  | _ => none

/-- The value of a digit in a base up to sixteen. -/
def digit? (base : Nat) (c : Char) : Option Nat :=
  (hexValue? c).filter fun d => d < base

/-- The number that digits stand for; there is at least one. -/
def natural? (base : Nat) (digits : List Char) : Option Nat :=
  if digits.isEmpty then none
  else (digits.mapM (digit? base)).map fun ds => ds.foldl (fun n d => n * base + d) 0

/-- The number that digits stand for, with a sign or without one. -/
def integer? (base : Nat) : List Char → Option Int
  | '+' :: digits => (natural? base digits).map Int.ofNat
  | '-' :: digits => (natural? base digits).map fun n => -Int.ofNat n
  | digits => (natural? base digits).map Int.ofNat

/-- The number of values of 63 bits. -/
def limit : Int :=
  0x8000000000000000

/-- The value of a constant as written, without a mark of its type.  Decimal values fit into 64 bits
with a sign, hexadecimal ones into 64 bits with or without one. -/
def value? (source : List Char) : Option Int :=
  match source with
  | '0' :: 'x' :: digits => (integer? 16 digits).filter fun v => -limit ≤ v ∧ v < 2 * limit
  | '0' :: 'X' :: digits => (integer? 16 digits).filter fun v => -limit ≤ v ∧ v < 2 * limit
  | digits => (integer? 10 digits).filter fun v => -limit ≤ v ∧ v < limit

/-- The constant without marks of the type `long` behind it. -/
def withoutMark (source : List Char) : List Char :=
  (source.reverse.dropWhile fun c => c == 'L' || c == 'l').reverse

/-- The hexadecimal form of a constant in the width of its type. -/
def comment? (type : TypeRef) (source : String) : Option String := do
  if type.isPrimitive then
    let value ← value? (withoutMark source.toList)
    let width ← width? type.name
    some ("0x" ++ String.ofList (Nat.toDigits 16 (value % Int.pow 2 width).toNat))
  else none

end Hexadecimal
end Signature
end ApiSurface
