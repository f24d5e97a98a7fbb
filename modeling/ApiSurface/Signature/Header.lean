import ApiSurface.Fault
import ApiSurface.Text.Basic

/-!
# Naming and declaring a version

A version is named by a word such as `v2` or `3.0`.  Signature text declares its version in a
header, which is the first line that is not blank.
-/

namespace ApiSurface
namespace Signature

open Text (isBlank isDecimal)

/-- The version named by a word: blanks around it, marks `v` in front of it and everything behind
the first dot are left out. -/
def Format.ofWord (word : String) : Except Fault Format :=
  let number := (Text.trim word.toList).dropWhile fun c => c == 'v' || c == 'V'
  match Format.ofMajor? (number.takeWhile (· != '.')) with
  | some format => .ok format
  | none => .error (.configuration (.unsupportedVersion word))

namespace Header

/-- The first line that is not blank, without the blanks around it. -/
def line? (text : List Char) : Option (List Char) :=
  ((Text.pieces '\n' text).map Text.trim).find? fun line => !line.isEmpty

/-- Whether what follows the major number is empty or a dot with a minor number. -/
def isMinor : List Char → Bool
  | [] => true
  | c :: minor => c == '.' && !minor.isEmpty && minor.all isDecimal

def major? (line : List Char) : Option (List Char) := do
  let rest ← Text.after? ['/', '/'] line
  let rest ← Text.after? "Signature format:".toList (rest.dropWhile isBlank)
  let number := rest.dropWhile isBlank
  let major := number.takeWhile isDecimal
  if !major.isEmpty && isMinor (number.dropWhile isDecimal) then some major else none

/-- The version that a text declares, if it has a header. -/
def declared (text : String) : Except Fault (Option Format) :=
  match (line? text.toList).bind major? with
  | none => .ok none
  | some major =>
    match Format.ofMajor? major with
    | some format => .ok (some format)
    | none => .error (.configuration (.unsupportedHeader (String.ofList major)))

end Header

end Signature
end ApiSurface
