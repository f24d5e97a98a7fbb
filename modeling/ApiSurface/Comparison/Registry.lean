import ApiSurface.Comparison.Issue

/-!
# Registries of severities

A registry gives every issue its final severity: an override or the default, promoted if warnings or
lints count as errors.  An issue once hidden stays hidden.
-/

namespace ApiSurface

/-- Settings about severities, with issues by name. -/
structure IssueSettings where
  warningsAsErrors : Bool := false
  lintsAsErrors : Bool := false
  error : List String := []
  warning : List String := []
  lint : List String := []
  hide : List String := []
  deriving DecidableEq, Repr

/-- Final severities of issues. -/
structure Registry where
  /-- Severities that replace the default. -/
  overrides : Issue → Option Severity := fun _ => none
  warningsAsErrors : Bool := false
  lintsAsErrors : Bool := false

namespace Registry

def assign (r : Registry) (issue : Issue) (severity : Severity) : Registry :=
  { r with overrides := fun i => if i = issue then some severity else r.overrides i }

/-- The registry with the severity of one issue replaced, unless the issue is hidden. -/
def withOverride (r : Registry) (issue : Issue) (severity : Severity) : Registry :=
  if r.overrides issue = some .hidden then r else r.assign issue severity

/-- Replace the severity of each of several issues, by name. -/
def assignAll (r : Registry) (severity : Severity) : List String → Except Fault Registry
  | [] => .ok r
  | name :: names => do
    let issue ← Issue.ofWord name
    (r.assign issue severity).assignAll severity names

/-- The registry for given settings; of the lists that name an issue the last decides. -/
def ofSettings (settings : IssueSettings) : Except Fault Registry := do
  let r : Registry :=
    { warningsAsErrors := settings.warningsAsErrors, lintsAsErrors := settings.lintsAsErrors }
  let r ← r.assignAll .error settings.error
  let r ← r.assignAll .warning settings.warning
  let r ← r.assignAll .lint settings.lint
  r.assignAll .hidden settings.hide

def promote (r : Registry) : Severity → Severity
  | .warning => if r.warningsAsErrors then .error else .warning
  | .lint => if r.lintsAsErrors then .error else .lint
  | severity => severity

def severity (r : Registry) (issue : Issue) : Severity :=
  r.promote ((r.overrides issue).getD issue.defaultSeverity)

end Registry

end ApiSurface
