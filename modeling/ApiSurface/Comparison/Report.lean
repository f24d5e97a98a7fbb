import ApiSurface.Comparison.Finding
import ApiSurface.Comparison.Registry

/-!
# Reports

A report lists findings, each with its severity, and counts them by severity.
-/

namespace ApiSurface

/-- A finding as reported. -/
structure Entry where
  issue : Issue
  severity : Severity
  location : Location
  oldValue : Option String
  newValue : Option String
  message : String
  deriving DecidableEq, Repr

namespace Entry

def ofFinding (registry : Registry) (f : Finding) : Entry :=
  { issue := f.issue
    severity := registry.severity f.issue
    location := f.location
    oldValue := f.change.oldValue
    newValue := f.change.newValue
    message := f.message }

end Entry

/-- Entries with their number for each severity. -/
structure Report where
  entries : List Entry := []
  errors : Nat := 0
  warnings : Nat := 0
  migrations : Nat := 0
  lints : Nat := 0
  infos : Nat := 0
  deriving DecidableEq, Repr

namespace Report

/-- The report with one more entry, which is counted; a hidden one is left out. -/
def add (r : Report) (e : Entry) : Report :=
  match e.severity with
  | .error => { r with entries := r.entries ++ [e], errors := r.errors + 1 }
  | .warning => { r with entries := r.entries ++ [e], warnings := r.warnings + 1 }
  | .migration => { r with entries := r.entries ++ [e], migrations := r.migrations + 1 }
  | .lint => { r with entries := r.entries ++ [e], lints := r.lints + 1 }
  | .info => { r with entries := r.entries ++ [e], infos := r.infos + 1 }
  | .hidden => r

def hasErrors (r : Report) : Bool :=
  0 < r.errors

def isEmpty (r : Report) : Bool :=
  r.entries.isEmpty

end Report

end ApiSurface
