import ApiSurface.Text.Basic

/-!
# Writing settings files

Strings are written in the plainest way that needs no escapes.
-/

namespace ApiSurface
namespace Toml

def longestRun (c : Char) (cs : List Char) : Nat :=
  (cs.foldl (fun (longest, run) d =>
    if d = c then (max longest (run + 1), run + 1) else (longest, 0)) (0, 0)).1

/-- A hexadecimal digit in upper case. -/
def upperHex (n : Nat) : Char :=
  (Nat.digitChar (n % 16)).toUpper

def escaped (c : Char) : List Char :=
  if c = '\x08' then ['\\', 'b']
  else if c = '\t' then ['\\', 't']
  else if c = '\n' then ['\\', 'n']
  else if c = '\x0c' then ['\\', 'f']
  else if c = '\r' then ['\\', 'r']
  else if c = '\\' then ['\\', '\\']
  else if c.toNat < 32 || c.toNat = 127 then
    ['\\', 'u', '0', '0', upperHex (c.toNat / 16), upperHex c.toNat]
  else [c]

/-- The characters of a string with escapes; after `spare` quotes in a row the next is escaped, and
line breaks stay if `lines` says so. -/
def escapedText (spare : Nat) (lines : Bool) : (run : Nat) → List Char → List Char
  | _, [] => []
  | run, c :: cs =>
    if c = '"' then
      if spare < run + 1 then '\\' :: '"' :: escapedText spare lines 0 cs
      else '"' :: escapedText spare lines (run + 1) cs
    else if c = '\n' && lines then '\n' :: escapedText spare lines 0 cs
    else escaped c ++ escapedText spare lines 0 cs

def quote (contents : String) : String :=
  let cs := contents.toList
  let hasNewline := cs.contains '\n'
  let hasEscape := cs.contains '\\'
  let hasControl := cs.any fun c => (c.toNat < 32 && c != '\t' && c != '\n') || c.toNat == 127
  let lead := if hasNewline then "\n" else ""
  if !hasControl && !hasEscape && !hasNewline && longestRun '"' cs = 0 then
    "\"" ++ String.ofList (escapedText 0 false 0 cs) ++ "\""
  else if !hasControl && !hasNewline && longestRun '\'' cs = 0 then "'" ++ contents ++ "'"
  else if !hasControl && !hasEscape && longestRun '"' cs ≤ 2 then
    "\"\"\"" ++ lead ++ String.ofList (escapedText 2 true 0 cs) ++ "\"\"\""
  else if !hasControl && longestRun '\'' cs ≤ 2 then "'''" ++ lead ++ contents ++ "'''"
  else if hasNewline then
    "\"\"\"" ++ lead ++ String.ofList (escapedText 2 true 0 cs) ++ "\"\"\""
  else "\"" ++ String.ofList (escapedText 0 false 0 cs) ++ "\""

/-- A list of strings: on one line up to one item, else a line for each. -/
def quoteList (items : List String) : String :=
  match items with
  | [] => "[]"
  | [item] => "[" ++ quote item ++ "]"
  | items => "[\n" ++ String.join (items.map fun item => "    " ++ quote item ++ ",\n") ++ "]"

def truth (value : Bool) : String :=
  if value then "true" else "false"

def assign (name value : String) : String :=
  name ++ " = " ++ value ++ "\n"

def headed (name : String) (lines : List String) : String :=
  "[" ++ name ++ "]\n" ++ String.join lines

end Toml
end ApiSurface
