import ApiSurface.Text.Basic

/-!
# Common packages

Names from common packages may be written without their package.  A name is shortened only if
qualifying the result gives the name back.
-/

namespace ApiSurface
namespace Signature

/-- What a name stands for. -/
inductive NameKind where
  | type
  | annotationType
  deriving DecidableEq, Repr

/-- Packages that may be left off; the first of each list is the one put back. -/
structure CommonPackages where
  types : List String := ["java.lang"]
  annotations : List String := ["androidx.annotation"]
  deriving DecidableEq, Repr

namespace CommonPackages

/-- Annotations of the base package, whatever the packages for annotations are. -/
def baseAnnotations : List String :=
  ["Deprecated", "FunctionalInterface", "Override", "SafeVarargs", "SuppressWarnings"]

def basePackage : String :=
  "java.lang"

/-- The package that is put back in front of a simple name. -/
def home? (common : CommonPackages) (kind : NameKind) (simple : String) : Option String :=
  match kind with
  | .type => common.types.head?
  | .annotationType =>
    if baseAnnotations.contains simple then some basePackage else common.annotations.head?

/-- A simple name with its package put back. -/
def qualify (common : CommonPackages) (kind : NameKind) (simple : String) : String :=
  match common.home? kind simple with
  | some package => package ++ "." ++ simple
  | none => simple

/-- The packages that may be left off a name. -/
def candidates (common : CommonPackages) : NameKind → List String
  | .type => common.types
  | .annotationType => common.annotations ++ [basePackage]

/-- What is left of a name without the package, if that is a simple name of which qualifying gives
the name back. -/
def shortenBy? (common : CommonPackages) (kind : NameKind) (name package : String) :
    Option String :=
  match Text.after? (package ++ ".").toList name.toList with
  | none => none
  | some rest =>
    if !rest.isEmpty && !rest.contains '.' && common.qualify kind (String.ofList rest) == name then
      some (String.ofList rest)
    else none

/-- A name without its package, if the package is common and can be put back. -/
def shorten (common : CommonPackages) (kind : NameKind) (name : String) : String :=
  ((common.candidates kind).findSome? (common.shortenBy? kind name)).getD name

end CommonPackages

end Signature
end ApiSurface
