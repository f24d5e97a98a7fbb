import ApiSurface.Comparison.Severity

/-!
# Issues

The kinds of findings, each with its name, its severity unless told otherwise, its category and the
modes in which it is reported.
-/

namespace ApiSurface

/-- Kinds of findings. -/
inductive Issue where
  | addedPackage
  | addedClass
  | addedInterface
  | addedMethod
  | addedField
  | addedAbstractMethod
  | addedFinal
  | addedSealed
  | removedPackage
  | removedClass
  | removedDeprecatedClass
  | removedInterface
  | removedMethod
  | removedDeprecatedMethod
  | removedField
  | removedFinal
  | changedClass
  | changedScope
  | changedStatic
  | changedAbstract
  | changedDeprecated
  | changedSuperclass
  | changedType
  | changedThrows
  | changedValue
  | changedDefaultValue
  | changedTransient
  | changedVolatile
  | parameterNameChanged
  | varargRemoval
  | newlyAnnotatedNullability
  | nullabilityUnderMigration
  | invalidNullConversion
  | compatibleNullChange
  | unresolvedReference
  deriving DecidableEq, Repr, Inhabited

namespace Issue

/-- Groups of issues. -/
inductive Category where
  | compatibility
  | nullness
  | resolution
  deriving DecidableEq, Repr

/-- Modes in which an issue is reported. -/
inductive Enablement where
  | always
  | currentOnly
  | releasedOnly
  deriving DecidableEq, Repr

def Enablement.allows : Enablement → Mode → Bool
  | .always, _ => true
  | .currentOnly, mode => mode == .current
  | .releasedOnly, mode => mode == .released

/-- All issues, in the order in which they are listed. -/
def all : List Issue :=
  [.addedPackage, .addedClass, .addedInterface, .addedMethod, .addedField, .addedAbstractMethod,
   .addedFinal, .addedSealed, .removedPackage, .removedClass, .removedDeprecatedClass,
   .removedInterface, .removedMethod, .removedDeprecatedMethod, .removedField, .removedFinal,
   .changedClass, .changedScope, .changedStatic, .changedAbstract, .changedDeprecated,
   .changedSuperclass, .changedType, .changedThrows, .changedValue, .changedDefaultValue,
   .changedTransient, .changedVolatile, .parameterNameChanged, .varargRemoval,
   .newlyAnnotatedNullability, .nullabilityUnderMigration, .invalidNullConversion,
   .compatibleNullChange, .unresolvedReference]

def name : Issue → String
  | .addedPackage => "AddedPackage"
  | .addedClass => "AddedClass"
  | .addedInterface => "AddedInterface"
  | .addedMethod => "AddedMethod"
  | .addedField => "AddedField"
  | .addedAbstractMethod => "AddedAbstractMethod"
  | .addedFinal => "AddedFinal"
  | .addedSealed => "AddedSealed"
  | .removedPackage => "RemovedPackage"
  | .removedClass => "RemovedClass"
  | .removedDeprecatedClass => "RemovedDeprecatedClass"
  | .removedInterface => "RemovedInterface"
  | .removedMethod => "RemovedMethod"
  | .removedDeprecatedMethod => "RemovedDeprecatedMethod"
  | .removedField => "RemovedField"
  | .removedFinal => "RemovedFinal"
  | .changedClass => "ChangedClass"
  | .changedScope => "ChangedScope"
  | .changedStatic => "ChangedStatic"
  | .changedAbstract => "ChangedAbstract"
  | .changedDeprecated => "ChangedDeprecated"
  | .changedSuperclass => "ChangedSuperclass"
  | .changedType => "ChangedType"
  | .changedThrows => "ChangedThrows"
  | .changedValue => "ChangedValue"
  | .changedDefaultValue => "ChangedDefaultValue"
  | .changedTransient => "ChangedTransient"
  | .changedVolatile => "ChangedVolatile"
  | .parameterNameChanged => "ParameterNameChanged"
  | .varargRemoval => "VarargRemoval"
  | .newlyAnnotatedNullability => "NewlyAnnotatedNullability"
  | .nullabilityUnderMigration => "NullabilityUnderMigration"
  | .invalidNullConversion => "InvalidNullConversion"
  | .compatibleNullChange => "CompatibleNullChange"
  | .unresolvedReference => "UnresolvedReference"

/-- The severity of an issue unless told otherwise: additions and harmless changes inform, changes
that may be meant warn, all else breaks something. -/
def defaultSeverity : Issue → Severity
  | .addedPackage => .info
  | .addedClass => .info
  | .addedInterface => .info
  | .addedMethod => .info
  | .addedField => .info
  | .removedFinal => .info
  | .compatibleNullChange => .info
  | .changedDeprecated => .warning
  | .changedDefaultValue => .warning
  | .changedTransient => .warning
  | .changedVolatile => .warning
  | .unresolvedReference => .warning
  | .nullabilityUnderMigration => .migration
  | _ => .error

def category : Issue → Category
  | .newlyAnnotatedNullability => .nullness
  | .nullabilityUnderMigration => .nullness
  | .invalidNullConversion => .nullness
  | .compatibleNullChange => .nullness
  | .unresolvedReference => .resolution
  | _ => .compatibility

def enablement : Issue → Enablement
  | .addedPackage => .currentOnly
  | .addedClass => .currentOnly
  | .addedInterface => .currentOnly
  | .addedMethod => .currentOnly
  | .addedField => .currentOnly
  | .changedDeprecated => .releasedOnly
  | .parameterNameChanged => .releasedOnly
  | _ => .always

def isEnabled (issue : Issue) (mode : Mode) : Bool :=
  issue.enablement.allows mode

/-- The lower case of a character, as far as names of issues can tell: of the characters beyond
ASCII only the Kelvin sign has an ASCII letter as its lower case. -/
def lower (c : Char) : Char :=
  if c = '\u212a' then 'k' else c.toLower

/-- What matters in the spelling of a name: neither case nor hyphens nor underscores. -/
def spelling (name : String) : List Char :=
  (name.toList.filter fun c => c != '_' && c != '-').map lower

/-- The issue named by a word, in any spelling. -/
def ofWord (word : String) : Except Fault Issue :=
  match all.find? fun issue => spelling issue.name == spelling word with
  | some issue => .ok issue
  | none => .error (.unknownIssue word)

end Issue

end ApiSurface
