/-!
# Nullability

Whether a type admits null is declared or left unknown; unknown is a state of its own.
-/

namespace ApiSurface

/-- What is declared about null at a type. -/
inductive Nullability where
  | unknown
  | nullable
  | nonNull
  deriving DecidableEq, Repr, Inhabited

namespace Nullability

/-- Whether anything is declared. -/
def isKnown : Nullability → Bool
  | .unknown => false
  | .nullable => true
  | .nonNull => true

/-- The word used in messages. -/
def label : Nullability → String
  | .unknown => "unknown"
  | .nullable => "nullable"
  | .nonNull => "nonnull"

end Nullability

end ApiSurface
