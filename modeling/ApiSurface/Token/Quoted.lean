import ApiSurface.Token
import ApiSurface.Text.Classes

/-!
# Literals in quotes

A string literal escapes quotes, backslashes and control characters; reading one undoes the
escapes.  A character literal keeps its contents as written.
-/

namespace ApiSurface
namespace Quoted

open Text (isControl isHexDigit hexNumber)

/-- What can be wrong with a literal. -/
inductive Flaw where
  /-- The line or the text ends before the string does. -/
  | openString
  /-- The line or the text ends before the character literal does. -/
  | openCharacter
  /-- The text ends behind a backslash. -/
  | cutEscape
  /-- The hexadecimal digits behind a code escape name no character. -/
  | badCode (digits : List Char)
  deriving DecidableEq, Repr

namespace Flaw

def expected : Flaw → String
  | .openString => "closing '\"'"
  | .openCharacter => "closing \"'\""
  | .cutEscape => "escape sequence"
  | .badCode _ => "unicode escape"

def found : Flaw → String
  | .openString => "end of line"
  | .openCharacter => "end of line"
  | .cutEscape => "end of file"
  | .badCode digits => "\\u" ++ String.ofList digits

end Flaw

/-- The last four hexadecimal digits of a number. -/
def fourDigits (n : Nat) : List Char :=
  [n / 4096 % 16, n / 256 % 16, n / 16 % 16, n % 16].map Nat.digitChar

/-- How a character is written inside a string literal. -/
def escape (c : Char) : List Char :=
  if c = '"' then ['\\', '"']
  else if c = '\\' then ['\\', '\\']
  else if c = '\n' then ['\\', 'n']
  else if c = '\t' then ['\\', 't']
  else if c = '\r' then ['\\', 'r']
  else if c = '\x08' then ['\\', 'b']
  else if c = '\x0c' then ['\\', 'f']
  else if c = '\x00' then ['\\', '0']
  else if isControl c then '\\' :: 'u' :: fourDigits c.toNat
  else [c]

def encode (s : String) : String :=
  String.ofList ('"' :: s.toList.flatMap escape ++ ['"'])

/-- The character that stands behind a backslash, other than a code escape. -/
def unescape (c : Char) : Char :=
  if c = 'n' then '\n'
  else if c = 't' then '\t'
  else if c = 'r' then '\r'
  else if c = 'b' then '\x08'
  else if c = 'f' then '\x0c'
  else if c = '0' then '\x00'
  else c

/-- Up to four hexadecimal digits at the start of a text. -/
def codeDigits (cs : List Char) : List Char :=
  (cs.take 4).takeWhile isHexDigit

/-- The character named by the digits of a code escape. -/
def ofCode? (digits : List Char) : Option Char :=
  if digits = [] then none
  else if (hexNumber digits).isValidChar then some (Char.ofNat (hexNumber digits))
  else none

/-- The contents of a string literal with every escape undone. -/
def decode : List Char → Except Flaw (List Char)
  | [] => .ok []
  | ['\\'] => .error .cutEscape
  | '\\' :: 'u' :: cs =>
    match ofCode? (codeDigits cs) with
    | none => .error (.badCode (codeDigits cs))
    | some c => (decode (cs.drop (codeDigits cs).length)).map (c :: ·)
  | '\\' :: c :: cs => (decode cs).map (unescape c :: ·)
  | c :: cs => (decode cs).map (c :: ·)
termination_by cs => cs.length
decreasing_by all_goals simp; try omega

/-- The characters of a literal up to its closing quote and the text behind the quote, if the
quote comes before the end of the line.  A backslash takes the next character with it. -/
def split (quote : Char) : List Char → List Char × Option (List Char)
  | [] => ([], none)
  | ['\\'] => (['\\'], none)
  | '\\' :: c :: cs =>
    let (body, rest) := split quote cs
    ('\\' :: c :: body, rest)
  | c :: cs =>
    if c = '\n' then ([], none)
    else if c = quote then ([], some cs)
    else
      let (body, rest) := split quote cs
      (c :: body, rest)

/-- The characters in front of the closing quote, the quote and what follows make up the text. -/
theorem split_append {quote : Char} {cs rest : List Char}
    (h : (split quote cs).2 = some rest) : (split quote cs).1 ++ quote :: rest = cs := by
  fun_induction split quote cs with
  | case1 => simp at h
  | case2 => simp at h
  | case3 c cs body r hs ih => simp_all
  | case4 => simp at h
  | case5 => simp_all
  | case6 c cs _ _ _ body r hs ih => simp_all

end Quoted
end ApiSurface
