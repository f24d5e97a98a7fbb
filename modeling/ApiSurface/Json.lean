import ApiSurface.Text.Basic

/-!
# Structured text

Values made of objects, lists, strings and numbers, and two ways to write them: on one line, or with
one item per line and two blanks for each level of nesting.
-/

namespace ApiSurface

/-- Values to be written. -/
inductive Json where
  | null
  | number (value : Nat)
  | string (contents : String)
  | array (items : List Json)
  | object (fields : List (String × Json))

namespace Json

def ofOption : Option String → Json
  | some contents => .string contents
  | none => .null

def hexDigit (n : Nat) : Char :=
  Nat.digitChar (n % 16)

/-- A character inside quotes: quotes, backslashes and control characters are escaped. -/
def escape (c : Char) : List Char :=
  if c = '"' then ['\\', '"']
  else if c = '\\' then ['\\', '\\']
  else if c = '\n' then ['\\', 'n']
  else if c = '\r' then ['\\', 'r']
  else if c = '\t' then ['\\', 't']
  else if c = '\x08' then ['\\', 'b']
  else if c = '\x0c' then ['\\', 'f']
  else if c.toNat < 32 then
    ['\\', 'u', '0', '0', hexDigit (c.toNat / 16), hexDigit c.toNat]
  else [c]

def quote (contents : String) : String :=
  "\"" ++ String.ofList (contents.toList.flatMap escape) ++ "\""

mutual

def compact : Json → String
  | .null => "null"
  | .number value => toString value
  | .string contents => quote contents
  | .array items => "[" ++ Text.join "," (compactItems items) ++ "]"
  | .object fields => "\x7b" ++ Text.join "," (compactFields fields) ++ "\x7d"

def compactItems : List Json → List String
  | [] => []
  | item :: items => compact item :: compactItems items

def compactFields : List (String × Json) → List String
  | [] => []
  | (name, value) :: fields => (quote name ++ ":" ++ compact value) :: compactFields fields

end

/-- The start of a line at a level of nesting. -/
def newline (level : Nat) : String :=
  "\n" ++ Text.repeated "  " level

/-- Lines between two marks, each on a level of its own; nothing stays on one line. -/
def block (start stop : String) (level : Nat) : List String → String
  | [] => start ++ stop
  | lines =>
    start ++ newline (level + 1) ++ Text.join ("," ++ newline (level + 1)) lines ++
      newline level ++ stop

mutual

/-- A value with one item per line, at a level of nesting. -/
def prettyAt (level : Nat) : Json → String
  | .null => "null"
  | .number value => toString value
  | .string contents => quote contents
  | .array items => block "[" "]" level (prettyItems (level + 1) items)
  | .object fields => block "\x7b" "\x7d" level (prettyFields (level + 1) fields)

def prettyItems (level : Nat) : List Json → List String
  | [] => []
  | item :: items => prettyAt level item :: prettyItems level items

def prettyFields (level : Nat) : List (String × Json) → List String
  | [] => []
  | (name, value) :: fields =>
    (quote name ++ ": " ++ prettyAt level value) :: prettyFields level fields

end

/-- A value with one item per line. -/
def pretty (value : Json) : String :=
  value.prettyAt 0

end Json

end ApiSurface
