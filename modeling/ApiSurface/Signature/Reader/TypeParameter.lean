import ApiSurface.Signature.Reader.TypeRef

/-!
# Reading type variables

The variables of a list are in scope in all its bounds, so their names are gathered before the list
is read.
-/

namespace ApiSurface
namespace Signature

/-- The names that a list of type variables declares, looked up ahead in its tokens: `depth` counts
open angle brackets and `due` tells whether the next name declares a variable. -/
def declaredVariables : (depth : Nat) → (due : Bool) → List Token → List String
  | _, _, [] => []
  | depth, due, t :: ts =>
    if t.isMark "<" then declaredVariables (depth + 1) (depth == 0) ts
    else if t.isMark ">" then
      if depth ≤ 1 then [] else declaredVariables (depth - 1) due ts
    else if t.isMark "," && depth == 1 then declaredVariables depth true ts
    else if t.kind == .identifier && due then t.text :: declaredVariables depth false ts
    else declaredVariables depth false ts

namespace Source

def readBounds (src : Source) : Reader (List TypeRef) := fun ts =>
  if atWord "extends" ts then src.readSeparated src.readOwnedType "&" ts.length ts.tail
  else .ok ([], ts)

def readTypeParameter (src : Source) : Reader TypeParameter := fun ts => do
  let (name, ts) ← src.expectName "type parameter" ts
  let (bounds, ts) ← src.readBounds ts
  return ({ name, bounds }, ts)

/-- The type variables that a list in front declares. -/
def variablesAhead (ts : List Token) : List String :=
  if atMark "<" ts then declaredVariables 0 false ts else []

/-- Type variables in angle brackets, if there are any. -/
def readTypeParameters (src : Source) : Reader (List TypeParameter) := fun ts =>
  if !atMark "<" ts then .ok ([], ts)
  else do
    let (parameters, ts) ← src.readSeparated src.readTypeParameter "," ts.length ts.tail
    let ts ← src.expectMark ">" ts
    return (parameters, ts)

end Source

end Signature
end ApiSurface
