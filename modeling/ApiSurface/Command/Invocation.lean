import ApiSurface.Command.Arguments
import ApiSurface.Settings

/-!
# Invocations

What the command line asks for.  An invocation that is refused names no reason.
-/

namespace ApiSurface
namespace Command

open Signature (Format)

/-- What is known about the texts to read. -/
structure InputArguments where
  format : Option Format := none
  kotlinNulls : Option Bool := none
  deriving DecidableEq, Repr

/-- What is added to the rules of the surface. -/
structure SurfaceArguments where
  level : Option Level := none
  hidePackages : List String := []
  showAnnotations : List String := []
  hideAnnotations : List String := []
  deriving DecidableEq, Repr

/-- How a text is to be written. -/
structure OutputArguments where
  format : Option Format := none
  kotlinNulls : Option Bool := none
  compatible : Option Bool := none
  noDefaultValues : Bool := false
  omitCommon : Bool := false
  noHeader : Bool := false
  deriving DecidableEq, Repr

/-- How a report is to be shown. -/
inductive ReportFormat where
  | text
  | json
  | jsonPretty
  deriving DecidableEq, Repr

inductive Request where
  /-- Read files and write them in a chosen format. -/
  | format (inputs : List String) (output : Option String) (removed : Bool)
      (style : OutputArguments) (input : InputArguments) (surface : SurfaceArguments)
  /-- Compare two codebases. -/
  | check (old new : String) (mode : Mode) (reference : Option String) (issues : IssueSettings)
      (report : ReportFormat) (input : InputArguments) (surface : SurfaceArguments)
  /-- Write a settings file with the defaults. -/
  | init (output : String) (force : Bool)
  deriving DecidableEq, Repr

/-- A command with the settings file it names. -/
structure Invocation where
  settings : Option String
  request : Request
  deriving DecidableEq, Repr

def settingsFile : String :=
  "apisig.toml"

/-! ## Rules -/

/-- Options that may stand before and behind the command. -/
def sharedRules : List OptionRule :=
  [{ name := "config", letter := some 'c' },
   { name := "verbose", letter := some 'v', takesValue := false }]

def inputRules : List OptionRule :=
  [{ name := "input-format-version" }, { name := "input-kotlin-nulls" }]

def surfaceRules : List OptionRule :=
  [{ name := "visibility" }, { name := "hide-package", repeats := true },
   { name := "show-annotation", repeats := true }, { name := "hide-annotation", repeats := true }]

/-- Options of the command that writes texts. -/
def formatRules : List OptionRule :=
  [{ name := "output", letter := some 'o' }, { name := "removed", takesValue := false },
   { name := "format-version" }, { name := "kotlin-nulls" }, { name := "compatible-output" },
   { name := "no-default-values", takesValue := false },
   { name := "omit-common-packages", takesValue := false },
   { name := "no-header", takesValue := false }]

def checkRules : List OptionRule :=
  [{ name := "mode" }, { name := "migrate-nullness" }, { name := "error", repeats := true },
   { name := "warning", repeats := true }, { name := "lint", repeats := true },
   { name := "hide", repeats := true }, { name := "warnings-as-errors", takesValue := false },
   { name := "lints-as-errors", takesValue := false }, { name := "format", letter := some 'f' }]

/-- Options of the command that writes settings. -/
def initRules : List OptionRule :=
  [{ name := "output", letter := some 'o' }, { name := "force", takesValue := false }]

/-! ## Values -/

/-- A value that may be missing but must be good if it is there. -/
def optional {α : Type} (a : Arguments) (name : String) (decode : String → Option α) :
    Option (Option α) :=
  match a.value? name with
  | some value => (decode value).map some
  | none => some none

/-- A path, which must not be empty. -/
def path? (value : String) : Option String :=
  if value = "" then none else some value

def version? (value : String) : Option Format :=
  (Format.ofWord value).toOption

def flag? : String → Option Bool
  | "true" => some true
  | "false" => some false
  | _ => none

def level? (value : String) : Option Level :=
  (Settings.levelWords.find? fun w => w.1 == value).map Prod.snd

def mode? : String → Option Mode
  | "current" => some .current
  | "released" => some .released
  | _ => none

def reportFormat? : String → Option ReportFormat
  | "text" => some .text
  | "json" => some .json
  | "json-pretty" => some .jsonPretty
  | _ => none

/-- What the options say about the texts to read. -/
def inputArguments (a : Arguments) : Option InputArguments := do
  let format ← optional a "input-format-version" version?
  let kotlinNulls ← optional a "input-kotlin-nulls" flag?
  return { format, kotlinNulls }

def surfaceArguments (a : Arguments) : Option SurfaceArguments := do
  let level ← optional a "visibility" level?
  return { level
           hidePackages := a.values "hide-package"
           showAnnotations := a.values "show-annotation"
           hideAnnotations := a.values "hide-annotation" }

/-- What the options say about the text to write. -/
def outputArguments (a : Arguments) : Option OutputArguments := do
  let format ← optional a "format-version" version?
  let kotlinNulls ← optional a "kotlin-nulls" flag?
  let compatible ← optional a "compatible-output" flag?
  return { format, kotlinNulls, compatible
           noDefaultValues := a.has "no-default-values"
           omitCommon := a.has "omit-common-packages"
           noHeader := a.has "no-header" }

/-! ## Commands -/

def formatRequest (a : Arguments) : Option Request := do
  let inputs ← a.positional.mapM path?
  if inputs.isEmpty then none
  let output ← optional a "output" path?
  return .format inputs output (a.has "removed") (← outputArguments a) (← inputArguments a)
    (← surfaceArguments a)

def checkRequest (a : Arguments) : Option Request := do
  let [old, new] ← a.positional.mapM path? | none
  let mode ← optional a "mode" mode?
  let reference ← optional a "migrate-nullness" path?
  let report ← optional a "format" reportFormat?
  let issues : IssueSettings :=
    { warningsAsErrors := a.has "warnings-as-errors"
      lintsAsErrors := a.has "lints-as-errors"
      error := a.values "error"
      warning := a.values "warning"
      lint := a.values "lint"
      hide := a.values "hide" }
  return .check old new (mode.getD .released) reference issues (report.getD .text)
    (← inputArguments a) (← surfaceArguments a)

def initRequest (a : Arguments) : Option Request := do
  let output ← optional a "output" path?
  if !a.positional.isEmpty then none
  return .init (output.getD settingsFile) (a.has "force")

/-- A command by its name: its options, and what it makes of its arguments. -/
def command? : String → Option (List OptionRule × (Arguments → Option Request))
  | "format" => some (formatRules ++ inputRules ++ surfaceRules, formatRequest)
  | "check" => some (checkRules ++ inputRules ++ surfaceRules, checkRequest)
  | "init" => some (initRules, initRequest)
  | _ => none

/-- The arguments in front of the name of the command, the name, and those behind it. -/
def splitCommand : (awaiting : Bool) → List String →
    Option (List String × String × List String)
  | _, [] => none
  | awaiting, argument :: rest =>
    match shape argument with
    | .plain =>
      if awaiting then (splitCommand false rest).map fun r => (argument :: r.1, r.2)
      else some ([], argument, rest)
    | .escape => none
    | .long name value =>
      let awaits := name == "config" && value.isNone
      (splitCommand awaits rest).map fun r => (argument :: r.1, r.2)
    | .short letters =>
      let awaits := (readLetters sharedRules letters).any fun r => r.2.isSome
      (splitCommand awaits rest).map fun r => (argument :: r.1, r.2)

/-- What the command line asks for.  A settings file named behind the command counts more than one
named in front of it. -/
def invocation? (arguments : List String) : Option Invocation := do
  let (front, name, behind) ← splitCommand false arguments
  let shared ← readArguments sharedRules front
  let (rules, make) ← command? name
  let own ← readArguments (sharedRules ++ rules) behind
  let outer ← optional shared "config" path?
  let inner ← optional own "config" path?
  let request ← make own
  return { settings := inner.or outer, request }

end Command
end ApiSurface
