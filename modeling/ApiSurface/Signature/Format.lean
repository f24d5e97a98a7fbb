/-!
# Format versions of signature text

Three versions of signature text are in use.  What a version can express is fixed by its table of
capabilities; reading and writing consult the table and never the version itself.
-/

namespace ApiSurface
namespace Signature

/-- The versions of signature text, oldest first. -/
inductive Format where
  | v1
  | v2
  | v3
  deriving DecidableEq, Repr, Inhabited

/-- What a version of signature text can express. -/
structure Capabilities where
  /-- First line of the text, if the version has one. -/
  header : Option String
  /-- Nullability is written as the suffixes `?` and `!`. -/
  kotlinNulls : Bool
  /-- Annotations are written in place. -/
  annotations : Bool
  /-- Defaults of parameters and of annotation elements are written. -/
  defaultValues : Bool
  /-- Names of parameters are written. -/
  parameterNames : Bool
  /-- The layout of the oldest tools is kept. -/
  compatible : Bool
  /-- Reading the text gives back what was written. -/
  lossless : Bool
  deriving DecidableEq, Repr

namespace Format

def capabilities : Format → Capabilities
  | .v1 =>
    { header := none, kotlinNulls := false, annotations := false, defaultValues := false,
      parameterNames := false, compatible := true, lossless := false }
  | .v2 =>
    { header := some "// Signature format: 2.0", kotlinNulls := false, annotations := true,
      defaultValues := true, parameterNames := true, compatible := false, lossless := true }
  | .v3 =>
    { header := some "// Signature format: 3.0", kotlinNulls := true, annotations := true,
      defaultValues := true, parameterNames := true, compatible := false, lossless := true }

/-- The word that stands for a version in settings and messages. -/
def name : Format → String
  | .v1 => "v1"
  | .v2 => "v2"
  | .v3 => "v3"

/-- All versions, oldest first. -/
def all : List Format :=
  [.v1, .v2, .v3]

/-- The version with a given major number, as written. -/
def ofMajor? (major : List Char) : Option Format :=
  if major = ['1'] then some .v1
  else if major = ['2'] then some .v2
  else if major = ['3'] then some .v3
  else none

end Format

end Signature
end ApiSurface
