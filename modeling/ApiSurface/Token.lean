import ApiSurface.Fault

/-!
# Tokens and their places

A token keeps the text it stands for, the exact characters it was written with, and the blanks and
comments in front of it.  The characters of a text are therefore those of its tokens: nothing is
lost between two of them, and any stretch of tokens can be written back as it stood.
-/

namespace ApiSurface

/-- A place in a text: line and column count from one, the offset counts bytes from zero. -/
structure Position where
  line : Nat := 1
  column : Nat := 1
  offset : Nat := 0
  deriving DecidableEq, Repr, Inhabited

namespace Position

def next (p : Position) (c : Char) : Position :=
  if c = '\n' then { line := p.line + 1, column := 1, offset := p.offset + c.utf8Size }
  else { line := p.line, column := p.column + 1, offset := p.offset + c.utf8Size }

/-- The place behind a stretch of characters. -/
def skip (p : Position) (cs : List Char) : Position :=
  cs.foldl next p

end Position

/-- Lexical categories. -/
inductive Token.Kind where
  | identifier
  | string
  | character
  | number
  | punctuation
  | endOfFile
  deriving DecidableEq, Repr

/-- A unit of signature text. -/
structure Token where
  /-- What the token is. -/
  kind : Token.Kind
  /-- What the token says: the contents of a literal, else the characters themselves. -/
  text : String
  /-- Blanks and comments in front of the token. -/
  blank : String
  /-- The characters the token was written with. -/
  lexeme : String
  /-- Where the token starts. -/
  start : Position
  deriving DecidableEq, Repr

namespace Token

def openBrace : String :=
  "\x7b"

def closeBrace : String :=
  "\x7d"

def stop (t : Token) : Nat :=
  t.start.offset + t.lexeme.utf8ByteSize

def isMark (t : Token) (mark : String) : Bool :=
  t.kind = .punctuation && t.text = mark

def isWord (t : Token) (word : String) : Bool :=
  t.kind = .identifier && t.text = word

/-- How a message names the token. -/
def describe (t : Token) : String :=
  match t.kind with
  | .endOfFile => "end of file"
  | .string => s!"\"{t.text}\""
  | _ => s!"'{t.text}'"

/-- The characters of a stretch of tokens, from the first token to the last. -/
def sourceText : List Token → String
  | [] => ""
  | t :: ts => ts.foldl (fun text u => text ++ u.blank ++ u.lexeme) t.lexeme

end Token

end ApiSurface
