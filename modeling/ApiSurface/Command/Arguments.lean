import ApiSurface.Text.Basic

/-!
# Command line arguments

Options are written `--name`, `--name value`, `--name=value`, or with a single letter as `-x`,
`-x value`, `-xvalue` and `-x=value`; letters of options without a value may be joined.  Behind `--`
nothing is an option.  What takes a value takes the next argument only if that does not look like an
option.
-/

namespace ApiSurface
namespace Command

/-- An option that a command knows. -/
structure OptionRule where
  name : String
  letter : Option Char := none
  takesValue : Bool := true
  repeats : Bool := false
  deriving DecidableEq, Repr

/-- Arguments sorted into options, in the order given, and the rest. -/
structure Arguments where
  options : List (String × String) := []
  positional : List String := []
  deriving DecidableEq, Repr

namespace Arguments

/-- The arguments with one more option in front; an option without a value has an empty one. -/
def addOption (name value : String) (a : Arguments) : Arguments :=
  { a with options := (name, value) :: a.options }

/-- The arguments with one more that is no option in front. -/
def addPositional (value : String) (a : Arguments) : Arguments :=
  { a with positional := value :: a.positional }

def values (a : Arguments) (name : String) : List String :=
  (a.options.filter fun o => o.1 == name).map Prod.snd

def value? (a : Arguments) (name : String) : Option String :=
  (a.values name).head?

def has (a : Arguments) (name : String) : Bool :=
  a.options.any fun o => o.1 == name

/-- Whether no option that must not repeat is given twice. -/
def respects (a : Arguments) (rules : List OptionRule) : Bool :=
  rules.all fun rule => rule.repeats || (a.values rule.name).length ≤ 1

end Arguments

/-- What an argument looks like. -/
inductive Shape where
  /-- Ends the options. -/
  | escape
  /-- An option by name, with a value if one is attached. -/
  | long (name : String) (value : Option String)
  /-- Options by letters. -/
  | short (letters : List Char)
  | plain
  deriving DecidableEq, Repr

/-- What an argument looks like; a single hyphen is no option. -/
def shape (argument : String) : Shape :=
  match argument.toList with
  | ['-', '-'] => .escape
  | '-' :: '-' :: rest =>
    match rest.span (· != '=') with
    | (name, []) => .long (String.ofList name) none
    | (name, _ :: value) => .long (String.ofList name) (some (String.ofList value))
  | ['-'] => .plain
  | '-' :: letters => .short letters
  | _ => .plain

/-- The options in a group of letters, and the one whose value is the next argument. -/
def readLetters (rules : List OptionRule) :
    List Char → Option (List (String × String) × Option String)
  | [] => some ([], none)
  | c :: letters => do
    let rule ← rules.find? fun rule => rule.letter == some c
    if rule.takesValue then
      match letters with
      | [] => some ([], some rule.name)
      | '=' :: value => some ([(rule.name, String.ofList value)], none)
      | value => some ([(rule.name, String.ofList value)], none)
    else
      let (options, awaiting) ← readLetters rules letters
      return ((rule.name, "") :: options, awaiting)

/-- Sort arguments by the rules of a command; `awaiting` is the option whose value comes next. -/
def sortArguments (rules : List OptionRule) : (awaiting : Option String) → List String →
    Option Arguments
  | none, [] => some {}
  | some _, [] => none
  | awaiting, argument :: rest =>
    match shape argument, awaiting with
    | .plain, some name => (sortArguments rules none rest).map (·.addOption name argument)
    | _, some _ => none
    | .plain, none => (sortArguments rules none rest).map (·.addPositional argument)
    | .escape, none => some { positional := rest }
    | .long name value, none => do
      let rule ← rules.find? fun rule => rule.name == name
      match rule.takesValue, value with
      | true, some value => (sortArguments rules none rest).map (·.addOption name value)
      | true, none => sortArguments rules (some name) rest
      | false, none => (sortArguments rules none rest).map (·.addOption name "")
      | false, some _ => none
    | .short letters, none => do
      let (options, awaiting) ← readLetters rules letters
      (sortArguments rules awaiting rest).map fun a => { a with options := options ++ a.options }

def readArguments (rules : List OptionRule) (arguments : List String) : Option Arguments :=
  (sortArguments rules none arguments).filter fun a => a.respects rules

end Command
end ApiSurface
