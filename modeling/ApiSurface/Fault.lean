import ApiSurface.Signature.Format

/-!
# Faults

Everything that can go wrong, as causes.  The wording of each cause is given in one place, by
`Fault.message`.
-/

namespace ApiSurface

open Signature (Format)

/-- Requests that no version of signature text, or not the chosen one, can honour. -/
inductive Conflict where
  /-- The header of a text declares a version with an unknown major number. -/
  | unsupportedHeader (major : String)
  /-- A word names no version. -/
  | unsupportedVersion (word : String)
  /-- The header of a text declares another version than the one expected. -/
  | declaredOtherwise (file : String) (configured declared : Format)
  /-- The oldest version has no suffixes for nullability. -/
  | suffixesInV1
  /-- The oldest version has no layout but the compatible one. -/
  | modernLayoutInV1
  /-- The compatible layout writes names in full. -/
  | omissionInCompatible
  /-- The version loses part of what is written. -/
  | lossyFormat (format : Format)
  /-- Leaving out default values loses them. -/
  | losslessWithoutDefaults
  /-- The compatible layout loses part of what is written. -/
  | losslessCompatible
  deriving DecidableEq, Repr

namespace Conflict

def message : Conflict → String
  | .unsupportedHeader major => s!"unsupported signature format {major}"
  | .unsupportedVersion word => s!"unsupported signature format '{word}'"
  | .declaredOtherwise file configured declared =>
    s!"{file}: configured format {configured.name} does not match file header {declared.name}"
  | .suffixesInV1 => "format v1 cannot carry kotlin-style nullability"
  | .modernLayoutInV1 => "format v1 is only available with compatible output"
  | .omissionInCompatible =>
    "omitting common packages cannot be combined with compatible output"
  | .lossyFormat format => s!"format {format.name} cannot be decoded back losslessly"
  | .losslessWithoutDefaults => "lossless output requires default values"
  | .losslessCompatible => "lossless output cannot use compatible output"

end Conflict

/-- Reasons why a file cannot be read or written. -/
inductive AccessError where
  | notFound
  | notDirectory
  | isDirectory
  /-- A name on the way, or the path as a whole, has too many bytes. -/
  | nameTooLong
  /-- The path holds a character that ends every name. -/
  | nulInName
  | notText
  deriving DecidableEq, Repr

namespace AccessError

/-- The wording the system gives for a failed access. -/
def message : AccessError → String
  | .notFound => "No such file or directory (os error 2)"
  | .notDirectory => "Not a directory (os error 20)"
  | .isDirectory => "Is a directory (os error 21)"
  | .nameTooLong => "File name too long (os error 36)"
  | .nulInName => "file name contained an unexpected NUL byte"
  | .notText => "stream did not contain valid UTF-8"

end AccessError

/-- Causes of failure. -/
inductive Fault where
  /-- A file could not be written. -/
  | access (cause : AccessError)
  /-- A file could not be read. -/
  | unreadable (path : String) (cause : AccessError)
  /-- A text departs from the grammar at a place. -/
  | malformed (file : String) (line column : Nat) (expected found : String)
  /-- Options contradict each other, the text or the version. -/
  | configuration (conflict : Conflict)
  /-- A container already holds an item with this signature. -/
  | duplicate (container signature : String)
  /-- No issue has this name. -/
  | unknownIssue (name : String)
  /-- No severity has this name. -/
  | invalidSeverity (word : String)
  /-- A settings file is not well formed or holds a value of the wrong kind. -/
  | settings
  deriving DecidableEq, Repr

namespace Fault

def message : Fault → String
  | .access cause => s!"IO error: {cause.message}"
  | .unreadable path cause => s!"Failed to read file {path}: {cause.message}"
  | .malformed file line column expected found =>
    s!"Parse error at {file}:{line}:{column}: expected {expected}, found {found}"
  | .configuration conflict => s!"Invalid configuration: {conflict.message}"
  | .duplicate container signature => s!"Duplicate item {signature} in {container}"
  | .unknownIssue name => s!"Unknown issue id: {name}"
  | .invalidSeverity word =>
    s!"Invalid severity '{word}' (expected error, warning, lint, info or hide)"
  | .settings => "TOML parse error"

/-- A fault with the causes behind it, the nearest first. -/
def chain (fault : Fault) : List String :=
  match fault with
  | .access cause => [fault.message, cause.message]
  | .unreadable _ cause => [fault.message, cause.message]
  | _ => [fault.message]

end Fault

end ApiSurface
