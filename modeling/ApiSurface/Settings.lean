import ApiSurface.Comparison.Registry
import ApiSurface.Signature.Options
import ApiSurface.Surface
import ApiSurface.Toml.Reader
import ApiSurface.Toml.Writer

/-!
# Settings

Settings say how signature text is written and read, which items are on the surface and how severe
issues are.  Every setting has a default; names that are no settings are ignored.
-/

namespace ApiSurface

open Signature (CommonPackages Format ReadOptions View WriteOptions)

/-- How signature text is written and read. -/
structure SignatureSettings where
  format : Format := .v3
  kotlinNulls : Option Bool := none
  defaultValues : Bool := true
  omitCommon : Bool := false
  compatible : Option Bool := none
  header : Bool := true
  order : MemberOrder := .accessThenName
  common : CommonPackages := {}
  /-- The version to expect of texts that are read. -/
  inputFormat : Option Format := none
  inputKotlinNulls : Option Bool := none
  deriving DecidableEq, Repr

structure Settings where
  signature : SignatureSettings := {}
  visibility : SurfaceRules := {}
  issues : IssueSettings := {}
  deriving DecidableEq, Repr

namespace Settings

def writeOptions (s : Settings) (view : View) : WriteOptions :=
  { format := s.signature.format
    kotlinNulls := s.signature.kotlinNulls
    defaultValues := s.signature.defaultValues
    omitCommon := s.signature.omitCommon
    compatible := s.signature.compatible
    header := s.signature.header
    view
    order := s.signature.order
    common := s.signature.common }

def readOptions (s : Settings) (file : String) : ReadOptions :=
  { format := s.signature.inputFormat
    kotlinNulls := s.signature.inputKotlinNulls
    common := if s.signature.omitCommon then some s.signature.common else none
    file }

/-! ## Reading -/

open Toml (Value)

/-- The part of a table under a name, which may be missing.  A list stands for a table by giving its
parts in order, and a date or a time for a table without any setting. -/
def part? (index : Nat) (name : String) : Value → Option (Option Value)
  | .table fields => some (Value.field? fields name)
  | .array items => some items[index]?
  | .moment _ => some none
  | _ => none

/-- A setting of a table, by its place and its name, or else its default. -/
def setting {α : Type} (table : Value) (index : Nat) (name : String) (decode : Value → Option α)
    (fallback : α) : Option α := do
  match ← part? index name table with
  | some value => decode value
  | none => some fallback

def truth? : Value → Option Bool
  | .boolean value => some value
  | _ => none

def string? : Value → Option String
  | .string contents => some contents
  | _ => none

def strings? : Value → Option (List String)
  | .array items => items.mapM string?
  | _ => none

def isVoid : Value → Bool
  | .array items => items.isEmpty
  | .table fields => fields.isEmpty
  | _ => false

/-- One of several words; it may also be the only name of a table, with nothing under it. -/
def choice? {α : Type} (words : List (String × α)) (value : Value) : Option α :=
  let find (word : String) := (words.find? fun w => w.1 == word).map Prod.snd
  match value with
  | .string word => find word
  | .table [(word, rest)] => if isVoid rest then find word else none
  | _ => none

def formatWords : List (String × Format) :=
  Format.all.map fun format => (format.name, format)

def orderWords : List (String × MemberOrder) :=
  [("visibility_then_name", .accessThenName), ("name", .name)]

def levelWords : List (String × Level) :=
  [("public", .pub), ("protected", .prot), ("package", .pack), ("private", .priv),
   ("hidden", .hidden)]

def common? (table : Value) : Option CommonPackages := do
  let types ← setting table 0 "types" strings? ({} : CommonPackages).types
  let annotations ← setting table 1 "annotations" strings? ({} : CommonPackages).annotations
  return { types, annotations }

def signature? (table : Value) : Option SignatureSettings := do
  let format ← setting table 0 "format" (choice? formatWords) .v3
  let kotlinNulls ← setting table 1 "kotlin_nulls" (fun v => (truth? v).map some) none
  let defaultValues ← setting table 2 "default_values" truth? true
  let omitCommon ← setting table 3 "omit_common_packages" truth? false
  let compatible ← setting table 4 "compatible_output" (fun v => (truth? v).map some) none
  let header ← setting table 5 "include_version_header" truth? true
  let order ← setting table 6 "member_order" (choice? orderWords) .accessThenName
  let common ← setting table 7 "common_packages" common? {}
  let inputFormat ←
    setting table 8 "input_format" (fun v => (choice? formatWords v).map some) none
  let inputKotlinNulls ←
    setting table 9 "input_kotlin_nulls" (fun v => (truth? v).map some) none
  return { format, kotlinNulls, defaultValues, omitCommon, compatible, header, order, common,
           inputFormat, inputKotlinNulls }

def visibility? (table : Value) : Option SurfaceRules := do
  let level ← setting table 0 "level" (choice? levelWords) .prot
  let showAnnotations ← setting table 1 "show_annotations" strings? []
  let showSingleAnnotations ← setting table 2 "show_single_annotations" strings? []
  let hideAnnotations ← setting table 3 "hide_annotations" strings? []
  let hidePackages ← setting table 4 "hide_packages" strings? []
  let showUnannotated ← setting table 5 "show_unannotated" truth? false
  return { level, showAnnotations, showSingleAnnotations, hideAnnotations, hidePackages,
           showUnannotated }

def issues? (table : Value) : Option IssueSettings := do
  let warningsAsErrors ← setting table 0 "warnings_as_errors" truth? false
  let lintsAsErrors ← setting table 1 "lints_as_errors" truth? false
  let error ← setting table 2 "error" strings? []
  let warning ← setting table 3 "warning" strings? []
  let lint ← setting table 4 "lint" strings? []
  let hide ← setting table 5 "hide" strings? []
  return { warningsAsErrors, lintsAsErrors, error, warning, lint, hide }

def ofValue? (value : Value) : Option Settings := do
  let signature ← setting value 0 "signature" signature? {}
  let visibility ← setting value 1 "visibility" visibility? {}
  let issues ← setting value 2 "issues" issues? {}
  return { signature, visibility, issues }

def read (text : String) : Except Fault Settings :=
  match (Toml.read? text).bind ofValue? with
  | some settings => .ok settings
  | none => .error .settings

/-! ## Writing -/

open Toml (assign headed quote quoteList truth)

/-- A line for a setting that may be left open. -/
def assignIf {α : Type} (name : String) (encode : α → String) : Option α → String
  | some value => assign name (encode value)
  | none => ""

def wordFor {α : Type} [DecidableEq α] (words : List (String × α)) (value : α) : String :=
  ((words.find? fun w => w.2 == value).map Prod.fst).getD ""

def signatureText (s : SignatureSettings) : String :=
  headed "signature"
    [assign "format" (quote s.format.name), assignIf "kotlin_nulls" truth s.kotlinNulls,
     assign "default_values" (truth s.defaultValues),
     assign "omit_common_packages" (truth s.omitCommon),
     assignIf "compatible_output" truth s.compatible,
     assign "include_version_header" (truth s.header),
     assign "member_order" (quote (wordFor orderWords s.order)),
     assignIf "input_format" (fun f => quote (Format.name f)) s.inputFormat,
     assignIf "input_kotlin_nulls" truth s.inputKotlinNulls]

def commonText (c : CommonPackages) : String :=
  headed "signature.common_packages"
    [assign "types" (quoteList c.types), assign "annotations" (quoteList c.annotations)]

def visibilityText (v : SurfaceRules) : String :=
  headed "visibility"
    [assign "level" (quote (wordFor levelWords v.level)),
     assign "show_annotations" (quoteList v.showAnnotations),
     assign "show_single_annotations" (quoteList v.showSingleAnnotations),
     assign "hide_annotations" (quoteList v.hideAnnotations),
     assign "hide_packages" (quoteList v.hidePackages),
     assign "show_unannotated" (truth v.showUnannotated)]

def issuesText (i : IssueSettings) : String :=
  headed "issues"
    [assign "warnings_as_errors" (truth i.warningsAsErrors),
     assign "lints_as_errors" (truth i.lintsAsErrors), assign "error" (quoteList i.error),
     assign "warning" (quoteList i.warning), assign "lint" (quoteList i.lint),
     assign "hide" (quoteList i.hide)]

def text (s : Settings) : String :=
  Text.join "\n"
    [signatureText s.signature, commonText s.signature.common, visibilityText s.visibility,
     issuesText s.issues]

end Settings

end ApiSurface
