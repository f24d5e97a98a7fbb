import ApiSurface.Toml.Value

/-!
# Building a document

A document is built line by line.  What is defined once cannot be defined again: a value never, a
table not by a second header, and neither a table with a header by dotted names nor one that dotted
names made by a header.
-/

namespace ApiSurface
namespace Toml

/-- How a table came about. -/
structure Origin where
  /-- Only names below it were given so far. -/
  implicit : Bool
  /-- It was made by a dotted name. -/
  dotted : Bool
  deriving DecidableEq, Repr

/-- Part of a document. -/
inductive Node where
  | value (value : Value)
  | table (origin : Origin) (fields : List (String × Node))
  /-- Tables under one name, each with its own header; the last is being filled. -/
  | tables (elements : List (List (String × Node)))

/-- The fields of a table under construction. -/
abbrev Fields : Type :=
  List (String × Node)

namespace Node

def find? (fields : Fields) (name : String) : Option Node :=
  (fields.find? fun f => f.1 == name).map Prod.snd

/-- The fields with the part under a name set. -/
def put (fields : Fields) (name : String) (node : Node) : Fields :=
  if fields.any fun f => f.1 == name then
    fields.map fun f => if f.1 == name then (name, node) else f
  else fields ++ [(name, node)]

/-- Change the table at the end of a path.  Tables on the way are made if need be; `dotted` tells
whether the path is that of a dotted name, which does not lead through tables with headers.  The
change is told whether the table was made by a dotted name. -/
def change (dotted : Bool) (f : Bool → Fields → Option Fields) :
    (path : List String) → (isDotted : Bool) → Fields → Option Fields
  | [], isDotted, fields => f isDotted fields
  | name :: path, _, fields =>
    match find? fields name with
    | none => do
      let sub ← change dotted f path dotted []
      return put fields name (.table { implicit := true, dotted } sub)
    | some (.value _) => none
    | some (.tables elements) =>
      match elements.reverse with
      | [] => none
      | last :: before => do
        let sub ← change dotted f path false last
        return put fields name (.tables (sub :: before).reverse)
    | some (.table origin sub) =>
      if dotted && !origin.implicit then none
      else do
        let sub ← change dotted f path origin.dotted sub
        return put fields name (.table origin sub)

/-- Define the value of a name, whose last part is new in a table made for such names. -/
def define (path : List String) (value : Value) (fields : Fields) : Option Fields :=
  match path.reverse with
  | [] => none
  | name :: before =>
    change true
      (fun isDotted fields =>
        if isDotted == before.isEmpty || (find? fields name).isSome then none
        else some (fields ++ [(name, .value value)]))
      before.reverse false fields

def openTable (path : List String) (fields : Fields) : Option Fields :=
  match path.reverse with
  | [] => none
  | name :: before =>
    change false
      (fun _ fields =>
        let origin : Origin := { implicit := false, dotted := false }
        match find? fields name with
        | none => some (fields ++ [(name, .table origin [])])
        | some (.table old sub) =>
          if old.implicit && !old.dotted then some (put fields name (.table origin sub)) else none
        | some _ => none)
      before.reverse false fields

/-- Open one more table under the name of a header in double brackets. -/
def openElement (path : List String) (fields : Fields) : Option Fields :=
  match path.reverse with
  | [] => none
  | name :: before =>
    change false
      (fun _ fields =>
        match find? fields name with
        | none => some (fields ++ [(name, .tables [[]])])
        | some (.tables elements) => some (put fields name (.tables (elements ++ [[]])))
        | some _ => none)
      before.reverse false fields

mutual

def toValue : Node → Value
  | .value v => v
  | .table _ fields => .table (toFields fields)
  | .tables elements => .array (toTables elements)

def toFields : List (String × Node) → List (String × Value)
  | [] => []
  | (name, node) :: fields => (name, toValue node) :: toFields fields

/-- The values of tables under one name. -/
def toTables : List (List (String × Node)) → List Value
  | [] => []
  | fields :: others => .table (toFields fields) :: toTables others

end

end Node

end Toml
end ApiSurface
