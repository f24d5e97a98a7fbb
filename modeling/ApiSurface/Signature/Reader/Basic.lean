import ApiSurface.Signature.Options
import ApiSurface.Token.Scan

/-!
# Reading from tokens

A reader takes the tokens that are left and gives back what it read with the tokens behind it.
Loops are bounded by the number of tokens that are left, since every round takes at least one.
-/

namespace ApiSurface
namespace Signature

/-- What readers know besides the tokens. -/
structure Source where
  settings : ReadSettings
  /-- The mark of the end of the text. -/
  finish : Token
  /-- Type variables in scope, whose names are not qualified. -/
  scope : List String := []

/-- A reader of something from tokens. -/
abbrev Reader (α : Type) : Type :=
  List Token → Except Fault (α × List Token)

def atMark (mark : String) (ts : List Token) : Bool :=
  ts.head?.any fun t => t.isMark mark

def atWord (word : String) (ts : List Token) : Bool :=
  ts.head?.any fun t => t.isWord word

def atName (ts : List Token) : Bool :=
  ts.head?.any fun t => t.kind == .identifier

namespace Source

variable {α : Type}

/-- The source with more type variables in scope. -/
def within (src : Source) (names : List String) : Source :=
  { src with scope := src.scope ++ names }

/-- The fault of finding the first of the tokens that are left where something else is expected. -/
def fault (src : Source) (ts : List Token) (expected : String) : Fault :=
  let found := ts.headD src.finish
  .malformed src.settings.file found.start.line found.start.column expected found.describe

def expectMark (src : Source) (mark : String) (ts : List Token) : Except Fault (List Token) :=
  if atMark mark ts then .ok ts.tail else .error (src.fault ts s!"'{mark}'")

/-- A name; `what` says in a message what it would name. -/
def expectName (src : Source) (what : String) : Reader String
  | [] => .error (src.fault [] what)
  | t :: ts => if t.kind = .identifier then .ok (t.text, ts) else .error (src.fault (t :: ts) what)

/-- Items with commas between them, up to a closing mark. -/
def readList (src : Source) (item : Reader α) (close : String) :
    (rounds : Nat) → Reader (List α)
  | 0, ts => .error (src.fault ts s!"'{close}'")
  | rounds + 1, ts => do
    let (x, ts) ← item ts
    if atMark close ts then return ([x], ts.tail)
    let ts ← src.expectMark "," ts
    let (xs, ts) ← src.readList item close rounds ts
    return (x :: xs, ts)

def readSeparated (src : Source) (item : Reader α) (mark : String) :
    (rounds : Nat) → Reader (List α)
  | 0, ts => .error (src.fault ts s!"'{mark}'")
  | rounds + 1, ts => do
    let (x, ts) ← item ts
    if !atMark mark ts then return ([x], ts)
    let (xs, ts) ← src.readSeparated item mark rounds ts.tail
    return (x :: xs, ts)

/-- The tokens of a value: everything up to the first of the given marks that stands outside
brackets, all kinds of brackets counted together. -/
def takeValue (src : Source) (stops : List String) : (depth : Nat) → Reader (List Token)
  | _, [] => .error (src.fault [] "value")
  | depth, t :: ts =>
    let keep (depth : Nat) : Except Fault (List Token × List Token) := do
      let (value, rest) ← src.takeValue stops depth ts
      return (t :: value, rest)
    if t.kind ≠ .punctuation then keep depth
    else if depth = 0 ∧ t.text ∈ stops then .ok ([], t :: ts)
    else if t.text ∈ ["(", Token.openBrace, "["] then keep (depth + 1)
    else if t.text ∈ [")", Token.closeBrace, "]"] then
      match depth with
      | 0 => .error (src.fault (t :: ts) "value")
      | depth + 1 => keep depth
    else keep depth

/-- A value as written, up to the first of the given marks outside brackets. -/
def readValueText (src : Source) (stops : List String) (ts : List Token) :
    Except Fault (String × List Token) := do
  let (value, rest) ← src.takeValue stops 0 ts
  if value.isEmpty then .error (src.fault rest "value")
  else return (Token.sourceText value, rest)

end Source

end Signature
end ApiSurface
