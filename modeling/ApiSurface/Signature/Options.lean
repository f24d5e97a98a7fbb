import ApiSurface.Signature.CommonPackages
import ApiSurface.Signature.Header
import ApiSurface.Signature.View

/-!
# Options for reading and writing

Options leave open what the version decides.  Resolving them gives settings in which everything is
decided, or names the first conflict.
-/

namespace ApiSurface
namespace Signature

/-- Options for reading a text. -/
structure ReadOptions where
  /-- The version to expect; a header must agree. -/
  format : Option Format := none
  /-- Whether types carry suffixes for nullability, instead of what the version says. -/
  kotlinNulls : Option Bool := none
  /-- Packages that were left off names. -/
  common : Option CommonPackages := none
  /-- The name of the text in messages. -/
  file : String := ""
  deriving DecidableEq, Repr

/-- Settings for reading one text. -/
structure ReadSettings where
  format : Format
  kotlinNulls : Bool
  common : Option CommonPackages
  file : String
  deriving DecidableEq, Repr

/-- Settle the options for a text that declares the given version. -/
def ReadOptions.resolve (o : ReadOptions) (declared : Option Format) :
    Except Fault ReadSettings :=
  let settle (format : Format) : Except Fault ReadSettings :=
    let kotlinNulls := o.kotlinNulls.getD format.capabilities.kotlinNulls
    if kotlinNulls && format == .v1 then .error (.configuration .suffixesInV1)
    else .ok { format, kotlinNulls, common := o.common, file := o.file }
  match o.format, declared with
  | some configured, some declared =>
    if configured = declared then settle declared
    else .error (.configuration (.declaredOtherwise o.file configured declared))
  | none, some declared => settle declared
  | some configured, none => settle configured
  | none, none => settle .v1

/-- Options for writing a text. -/
structure WriteOptions where
  format : Format := .v3
  /-- Whether types carry suffixes for nullability, instead of what the version says. -/
  kotlinNulls : Option Bool := none
  defaultValues : Bool := true
  /-- Leave common packages off names. -/
  omitCommon : Bool := false
  /-- Whether the compatible layout is used, instead of what the version says. -/
  compatible : Option Bool := none
  header : Bool := true
  view : View := .live
  order : MemberOrder := .accessThenName
  common : CommonPackages := {}
  /-- Refuse options under which reading the text would not give everything back. -/
  requireLossless : Bool := false
  deriving DecidableEq, Repr

/-- Settings for writing one text. -/
structure WriteSettings where
  capabilities : Capabilities
  kotlinNulls : Bool
  defaultValues : Bool
  compatible : Bool
  header : Option String
  /-- Packages left off names. -/
  omitted : Option CommonPackages
  view : View
  order : MemberOrder
  deriving DecidableEq, Repr

namespace WriteOptions

def conflict? (o : WriteOptions) : Option Conflict :=
  let capabilities := o.format.capabilities
  let kotlinNulls := o.kotlinNulls.getD capabilities.kotlinNulls
  let compatible := o.compatible.getD capabilities.compatible
  if kotlinNulls && o.format == .v1 then some .suffixesInV1
  else if !compatible && o.format == .v1 then some .modernLayoutInV1
  else if o.omitCommon && compatible then some .omissionInCompatible
  else if o.requireLossless && !capabilities.lossless then some (.lossyFormat o.format)
  else if o.requireLossless && !o.defaultValues then some .losslessWithoutDefaults
  else if o.requireLossless && compatible then some .losslessCompatible
  else none

def resolve (o : WriteOptions) : Except Fault WriteSettings :=
  match o.conflict? with
  | some conflict => .error (.configuration conflict)
  | none =>
    let capabilities := o.format.capabilities
    .ok
      { capabilities
        kotlinNulls := o.kotlinNulls.getD capabilities.kotlinNulls
        defaultValues := o.defaultValues && capabilities.defaultValues
        compatible := o.compatible.getD capabilities.compatible
        header := if o.header then capabilities.header else none
        omitted := if o.omitCommon then some o.common else none
        view := o.view
        order := o.order }

end WriteOptions

end Signature
end ApiSurface
