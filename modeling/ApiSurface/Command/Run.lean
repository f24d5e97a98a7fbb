import ApiSurface.Command.Invocation
import ApiSurface.Comparison.Checker
import ApiSurface.Comparison.Report.Json
import ApiSurface.Comparison.Report.Text
import ApiSurface.Signature.Load
import ApiSurface.Signature.Writer.Codebase

/-!
# Running commands

Commands work with any access to files.  Their outcome is an exit code with what is printed, or a
failure with the steps it happened in.
-/

namespace ApiSurface
namespace Command

open Signature (View)

/-- Reasons why a command gives up. -/
inductive Failure where
  | plain (fault : Fault)
  /-- The named settings file cannot be used. -/
  | loading (path : String) (fault : Fault)
  /-- An input cannot be read. -/
  | reading (path : String) (fault : Fault)
  | writing (path : String) (cause : AccessError)
  | alreadyExists (path : String)
  deriving DecidableEq, Repr

/-- The wording of a failure: the step, then the causes behind each other. -/
def Failure.message (failure : Failure) : String :=
  "Error: " ++ Text.join ": "
    (match failure with
      | .plain fault => fault.chain
      | .loading path fault => ("loading " ++ path) :: fault.chain
      | .reading path fault => ("reading " ++ path) :: fault.chain
      | .writing path cause => ["writing " ++ path, cause.message]
      | .alreadyExists path => [path ++ " already exists (use --force to overwrite)"])

/-- What a command leaves behind. -/
structure Outcome where
  exit : Nat := 0
  output : String := ""
  failure : Option String := none
  deriving DecidableEq, Repr

variable {m : Type → Type} [Monad m] [FileAccess m]

/-- The result of a step without effects, whose fault stands for itself. -/
def attempt {α : Type} : Except Fault α → ExceptT Failure m α
  | .ok x => pure x
  | .error fault => throw (.plain fault)

/-! ## Settings -/

def readSettings (path : String) : m (Except Fault Settings) := do
  match ← FileAccess.readFile path with
  | .ok text => return Settings.read text
  | .error cause => return .error (.unreadable path cause)

/-- The settings file that is named, or the one with the usual name if it exists, or the
defaults. -/
def loadSettings (named : Option String) : ExceptT Failure m Settings := do
  match named with
  | some path =>
    match ← (readSettings path : m _) with
    | .ok settings => pure settings
    | .error fault => throw (.loading path fault)
  | none =>
    if ← (FileAccess.exists? settingsFile : m _) then
      attempt (← (readSettings settingsFile : m _))
    else pure {}

/-- The settings with what the command line says about the texts to read. -/
def applyInput (a : InputArguments) (s : Settings) : Settings :=
  { s with signature :=
    { s.signature with
      inputFormat := a.format.or s.signature.inputFormat
      inputKotlinNulls := a.kotlinNulls.or s.signature.inputKotlinNulls } }

/-- The settings with what the command line adds to the rules of the surface. -/
def applySurface (a : SurfaceArguments) (s : Settings) : Settings :=
  { s with visibility :=
    { s.visibility with
      level := a.level.getD s.visibility.level
      hidePackages := s.visibility.hidePackages ++ a.hidePackages
      showAnnotations := s.visibility.showAnnotations ++ a.showAnnotations
      hideAnnotations := s.visibility.hideAnnotations ++ a.hideAnnotations } }

/-- The settings with what the command line says about the text to write. -/
def applyOutput (a : OutputArguments) (s : Settings) : Settings :=
  { s with signature :=
    { s.signature with
      format := a.format.getD s.signature.format
      kotlinNulls := a.kotlinNulls.or s.signature.kotlinNulls
      compatible := a.compatible.or s.signature.compatible
      defaultValues := s.signature.defaultValues && !a.noDefaultValues
      omitCommon := s.signature.omitCommon || a.omitCommon
      header := s.signature.header && !a.noHeader } }

/-- The settings with what the command line adds about severities. -/
def applyIssues (a : IssueSettings) (s : Settings) : Settings :=
  { s with issues :=
    { warningsAsErrors := s.issues.warningsAsErrors || a.warningsAsErrors
      lintsAsErrors := s.issues.lintsAsErrors || a.lintsAsErrors
      error := s.issues.error ++ a.error
      warning := s.issues.warning ++ a.warning
      lint := s.issues.lint ++ a.lint
      hide := s.issues.hide ++ a.hide } }

/-! ## Commands -/

/-- Read all inputs into one codebase and settle its surface. -/
def loadSurface (s : Settings) (inputs : List String) : ExceptT Failure m Codebase := do
  let cb ← inputs.foldlM (fun (cb : Codebase) input => do
    match ← ((Signature.Load.path (s.readOptions "") input).run : m _) with
    | .ok part => attempt (cb.merged part)
    | .error fault => throw (.reading input fault)) ∅
  return cb.settle s.visibility

/-- Write a text to a file, or print it. -/
def emit (output : Option String) (text : String) : ExceptT Failure m Outcome := do
  match output with
  | none => return { output := text }
  | some path =>
    match ← (FileAccess.writeFile path text : m _) with
    | .ok () => return {}
    | .error cause => throw (.writing path cause)

def reportText (format : ReportFormat) (r : Report) : String :=
  match format with
  | .text => r.text false
  | .json => r.toJson.compact
  | .jsonPretty => r.toJson.pretty

/-- Write the default settings, unless that would replace a file. -/
def writeDefaults (output : String) (force : Bool) : ExceptT Failure m Outcome := do
  if !force && (← (FileAccess.exists? output : m _)) then throw (.alreadyExists output)
  match ← (FileAccess.writeFile output ({} : Settings).text : m _) with
  | .ok () => return {}
  | .error cause => throw (.plain (.access cause))

def perform (i : Invocation) : ExceptT Failure m Outcome := do
  match i.request with
  | .format inputs output removed style input surface =>
    let s ← loadSettings i.settings
    let s := applyOutput style (applySurface surface (applyInput input s))
    let cb ← loadSurface s inputs
    let view := if removed then View.removed else .live
    let text ← attempt (Signature.write (s.writeOptions view) cb)
    emit output text
  | .check old new mode reference issues report input surface =>
    let s ← loadSettings i.settings
    let s := applyIssues issues (applySurface surface (applyInput input s))
    let registry ← attempt (Registry.ofSettings s.issues)
    let old ← loadSurface s [old]
    let new ← loadSurface s [new]
    let reference ← reference.mapM fun path => loadSurface s [path]
    let r := Comparison.report { old, new, reference } registry mode
    return { exit := if r.hasErrors then 1 else 0, output := reportText report r ++ "\n" }
  | .init output force => writeDefaults output force

/-- Run the command line.  What is not understood and what fails both give exit code two. -/
def run (arguments : List String) : m Outcome := do
  match invocation? arguments with
  | none => return { exit := 2 }
  | some i =>
    match ← (perform i).run with
    | .ok outcome => return outcome
    | .error failure => return { exit := 2, failure := some failure.message }

end Command
end ApiSurface
