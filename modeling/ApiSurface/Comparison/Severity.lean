import ApiSurface.Fault
import ApiSurface.Text.Basic

/-!
# Severities and modes

How loud a finding is, and which of two questions a comparison answers.
-/

namespace ApiSurface

/-- Severities, from quietest to loudest. -/
inductive Severity where
  /-- Not reported at all. -/
  | hidden
  | info
  | lint
  /-- Nullability newly declared, with a reference that still leaves it open. -/
  | migration
  | warning
  | error
  deriving DecidableEq, Repr, Inhabited

namespace Severity

def label : Severity → String
  | .hidden => "hidden"
  | .info => "info"
  | .lint => "lint"
  | .migration => "migration"
  | .warning => "warning"
  | .error => "error"

/-- The severity named by a word, in any case and with blanks around it. -/
def ofWord (word : String) : Except Fault Severity :=
  match String.ofList ((Text.trim word.toList).map Char.toLower) with
  | "error" => .ok .error
  | "warning" => .ok .warning
  | "lint" => .ok .lint
  | "info" => .ok .info
  | "hide" => .ok .hidden
  | "hidden" => .ok .hidden
  | _ => .error (.invalidSeverity word)

end Severity

/-- What a codebase is compared with. -/
inductive Mode where
  /-- The surface still in development, where additions are to be acknowledged. -/
  | current
  /-- The surface last released, where additions are expected. -/
  | released
  deriving DecidableEq, Repr, Inhabited

end ApiSurface
