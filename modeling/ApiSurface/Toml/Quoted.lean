import ApiSurface.Text.Basic

/-!
# Strings of settings files

There are strings with escapes and strings without, each on one line or over several.  Readers start
behind the opening quotes.
-/

namespace ApiSurface
namespace Toml

open Text (isHexDigit hexNumber)

/-- Characters that may stand in a string or a comment as they are. -/
def isPlain (c : Char) : Bool :=
  c == '\t' || (32 ≤ c.toNat && c.toNat ≠ 127)

def ofCode? (digits : List Char) : Option Char :=
  if digits.all isHexDigit && (hexNumber digits).isValidChar then
    some (Char.ofNat (hexNumber digits))
  else none

/-- The character that an escape stands for, and what follows it. -/
def escape? : List Char → Option (Char × List Char)
  | 'b' :: cs => some ('\x08', cs)
  | 't' :: cs => some ('\t', cs)
  | 'n' :: cs => some ('\n', cs)
  | 'f' :: cs => some ('\x0c', cs)
  | 'r' :: cs => some ('\r', cs)
  | '"' :: cs => some ('"', cs)
  | '\\' :: cs => some ('\\', cs)
  | 'u' :: cs =>
    if 4 ≤ cs.length then (ofCode? (cs.take 4)).map fun c => (c, cs.drop 4) else none
  | 'U' :: cs =>
    if 8 ≤ cs.length then (ofCode? (cs.take 8)).map fun c => (c, cs.drop 8) else none
  | _ => none

/-- Put a character in front of what was read. -/
def push (c : Char) (read : Option (List Char × List Char)) : Option (List Char × List Char) :=
  read.map fun r => (c :: r.1, r.2)

/-- A string with escapes on one line. -/
def basic : (rounds : Nat) → List Char → Option (List Char × List Char)
  | 0, _ => none
  | _ + 1, [] => none
  | rounds + 1, c :: cs =>
    if c = '"' then some ([], cs)
    else if c = '\\' then do
      let (e, cs) ← escape? cs
      push e (basic rounds cs)
    else if isPlain c then push c (basic rounds cs)
    else none

/-- A string without escapes on one line. -/
def literal : List Char → Option (List Char × List Char)
  | [] => none
  | c :: cs =>
    if c = '\'' then some ([], cs) else if isPlain c then push c (literal cs) else none

/-- What follows a line break, if there is one. -/
def newline? : List Char → Option (List Char)
  | '\n' :: cs => some cs
  | '\r' :: '\n' :: cs => some cs
  | _ => none

/-- A text without the line break in front of it. -/
def dropNewline (cs : List Char) : List Char :=
  (newline? cs).getD cs

/-- A text without blanks and line breaks in front of it. -/
def dropLines : List Char → List Char
  | '\r' :: '\n' :: cs => dropLines cs
  | c :: cs => if c = ' ' || c = '\t' || c = '\n' then dropLines cs else c :: cs
  | [] => []

/-- What follows an escaped line break, of which blanks may stand in front. -/
def escapedNewline? (cs : List Char) : Option (List Char) :=
  (newline? (cs.dropWhile fun c => c == ' ' || c == '\t')).map dropLines

/-- The end of a string over several lines: of up to five quotes the last three close it. -/
def closing (quote : Char) (cs : List Char) : Option (Option (List Char × List Char)) :=
  let quotes := cs.takeWhile (· == quote)
  if quotes.length < 3 then none
  else if 5 < quotes.length then some none
  else some (some (quotes.drop 3, cs.dropWhile (· == quote)))

/-- A string over several lines; `escapes` tells whether it has escapes. -/
def multiline (quote : Char) (escapes : Bool) :
    (rounds : Nat) → List Char → Option (List Char × List Char)
  | 0, _ => none
  | _ + 1, [] => none
  | rounds + 1, c :: cs =>
    match closing quote (c :: cs) with
    | some result => result
    | none =>
      match newline? (c :: cs) with
      | some rest => push '\n' (multiline quote escapes rounds rest)
      | none =>
        if c = '\\' && escapes then
          match escapedNewline? cs with
          | some rest => multiline quote escapes rounds rest
          | none => do
            let (e, rest) ← escape? cs
            push e (multiline quote escapes rounds rest)
        else if isPlain c then push c (multiline quote escapes rounds cs)
        else none

/-- A string of any kind, opening quotes included. -/
def string? (cs : List Char) : Option (List Char × List Char) :=
  match cs with
  | '"' :: '"' :: '"' :: rest => multiline '"' true rest.length (dropNewline rest)
  | '\'' :: '\'' :: '\'' :: rest => multiline '\'' false rest.length (dropNewline rest)
  | '"' :: rest => basic rest.length rest
  | '\'' :: rest => literal rest
  | _ => none

end Toml
end ApiSurface
