import ApiSurface.Toml.Document
import ApiSurface.Toml.Quoted
import ApiSurface.Toml.Scalar

/-!
# Reading settings files

Readers take the characters that are left and give back what follows; nothing is said about why a
text is refused.  Lists and tables on one line nest only so deep, and a dotted name has only so many
parts.
-/

namespace ApiSurface
namespace Toml

/-- A reader of something from characters. -/
abbrev Reader (α : Type) : Type :=
  List Char → Option (α × List Char)

/-- A text without blanks in front of it. -/
def dropBlanks (cs : List Char) : List Char :=
  cs.dropWhile fun c => c == ' ' || c == '\t'

/-- A text without a comment in front of it. -/
def dropComment : List Char → List Char
  | '#' :: cs => cs.dropWhile isPlain
  | cs => cs

/-- What follows the line, of which nothing but blanks and a comment are left. -/
def endLine (cs : List Char) : Option (List Char) :=
  let rest := dropComment (dropBlanks cs)
  if rest.isEmpty then some [] else newline? rest

/-- A text without the blanks, line breaks and comments in front of it. -/
def dropFill (inComment : Bool) : List Char → List Char
  | [] => []
  | '\n' :: cs => dropFill false cs
  | '\r' :: '\n' :: cs => dropFill false cs
  | c :: cs =>
    if inComment then if isPlain c then dropFill true cs else c :: cs
    else if c = ' ' || c = '\t' then dropFill false cs
    else if c = '#' then dropFill true cs
    else c :: cs

/-- How deep lists and tables on one line may nest, and how many parts a name may have. -/
def nestingLimit : Nat :=
  79

/-! ## Names -/

/-- Characters of names without quotes. -/
def isNameChar (c : Char) : Bool :=
  c.isAlphanum || c == '_' || c == '-'

/-- A part of a name, with quotes or without. -/
def readName : Reader String
  | '"' :: cs => (basic cs.length cs).map fun r => (String.ofList r.1, r.2)
  | '\'' :: cs => (literal cs).map fun r => (String.ofList r.1, r.2)
  | cs =>
    let (name, rest) := cs.span isNameChar
    if name.isEmpty then none else some (String.ofList name, rest)

/-- A name of one part or more with dots between them. -/
def readPath : (rounds : Nat) → Reader (List String)
  | 0, _ => none
  | rounds + 1, cs => do
    let (name, cs) ← readName cs
    match dropBlanks cs with
    | '.' :: rest =>
      let (names, rest) ← readPath rounds (dropBlanks rest)
      return (name :: names, rest)
    | _ => return ([name], cs)

/-- A name whose number of parts is within the limit. -/
def readDottedName : Reader (List String) := fun cs =>
  (readPath cs.length cs).filter fun r => r.1.length ≤ nestingLimit

/-! ## Values -/

/-- The items of a list up to its closing bracket; a comma may follow the last one. -/
def readItems (value : Reader Value) : (rounds : Nat) → Reader (List Value)
  | 0, _ => none
  | rounds + 1, cs =>
    match dropFill false cs with
    | ']' :: rest => some ([], rest)
    | cs => do
      let (v, cs) ← value cs
      match dropFill false cs with
      | ',' :: rest =>
        let (vs, rest) ← readItems value rounds rest
        return (v :: vs, rest)
      | ']' :: rest => return ([v], rest)
      | _ => none

def readPair (value : Reader Value) : Reader (List String × Value) := fun cs => do
  let (path, cs) ← readDottedName cs
  match dropBlanks cs with
  | '=' :: rest =>
    let (v, rest) ← value (dropBlanks rest)
    return ((path, v), rest)
  | _ => none

/-- The fields of a table on one line up to its closing brace. -/
def readPairs (value : Reader Value) : (rounds : Nat) → Reader (List (List String × Value))
  | 0, _ => none
  | rounds + 1, cs => do
    let (pair, cs) ← readPair value (dropBlanks cs)
    match dropBlanks cs with
    | ',' :: rest =>
      let (pairs, rest) ← readPairs value rounds rest
      return (pair :: pairs, rest)
    | '\x7d' :: rest => return ([pair], rest)
    | _ => none

/-- The table with the given fields, if no two contradict each other. -/
def tableOf? (pairs : List (List String × Value)) : Option Value :=
  (pairs.foldlM (fun fields p => Node.define p.1 p.2 fields) []).map fun fields =>
    .table (Node.toFields fields)

/-- The value of a text that starts neither a list nor a table. -/
def readScalar : Reader Value
  | [] => none
  | c :: cs =>
    if c = '"' || c = '\'' then
      (string? (c :: cs)).map fun r => (.string (String.ofList r.1), r.2)
    else
      let (word, rest) := splitWord (c :: cs)
      (scalar? word).map fun value => (value, rest)

/-- The rest of a list behind its opening bracket, given a reader for the values in it. -/
def readList (value : Reader Value) : Reader Value := fun cs => do
  let (items, rest) ← readItems value (cs.length + 1) cs
  return (.array items, rest)

/-- The rest of a table on one line behind its opening brace, given a reader for the values in
it. -/
def readTable (value : Reader Value) : Reader Value := fun cs =>
  match dropBlanks cs with
  | '\x7d' :: rest => some (.table [], rest)
  | cs => do
    let (pairs, rest) ← readPairs value (cs.length + 1) cs
    let table ← tableOf? pairs
    return (table, rest)

/-- A value in which lists and tables nest at most `depth` deep. -/
def readValue : (depth : Nat) → Reader Value
  | 0, cs => if cs.head? = some '[' ∨ cs.head? = some '\x7b' then none else readScalar cs
  | depth + 1, '[' :: cs => readList (readValue depth) cs
  | depth + 1, '\x7b' :: cs => readTable (readValue depth) cs
  | _ + 1, cs => readScalar cs

/-! ## Lines -/

/-- A document so far, with the path of the table being filled. -/
structure State where
  fields : Fields := []
  path : List String := []

namespace State

/-- The document with a value defined in the table being filled. -/
def define (s : State) (path : List String) (value : Value) : Option State := do
  let fields ←
    Node.change false (fun _ fields => Node.define path value fields) s.path false s.fields
  return { s with fields }

/-- The document with the table of a header opened. -/
def openTable (s : State) (path : List String) : Option State := do
  let fields ← Node.openTable path s.fields
  return { fields, path }

/-- The document with one more table opened under the name of a header. -/
def openElement (s : State) (path : List String) : Option State := do
  let fields ← Node.openElement path s.fields
  return { fields, path }

end State

/-- The path in a header, up to its closing brackets. -/
def readHeader (close : List Char) : Reader (List String) := fun cs => do
  let cs := dropBlanks cs
  let (path, cs) ← readDottedName cs
  let rest ← Text.after? close (dropBlanks cs)
  return (path, rest)

/-- What a line without its end adds to a document. -/
def readLine (s : State) (cs : List Char) : Option (State × List Char) :=
  match cs with
  | '[' :: '[' :: rest => do
    let (path, rest) ← readHeader [']', ']'] rest
    return (← s.openElement path, rest)
  | '[' :: rest => do
    let (path, rest) ← readHeader [']'] rest
    return (← s.openTable path, rest)
  | _ =>
    if (endLine cs).isSome then some (s, cs)
    else do
      let ((path, value), rest) ← readPair (readValue nestingLimit) cs
      return (← s.define path value, rest)

def readLines : (rounds : Nat) → State → List Char → Option State
  | _, s, [] => some s
  | 0, _, _ :: _ => none
  | rounds + 1, s, c :: cs => do
    let (s, rest) ← readLine s (dropBlanks (c :: cs))
    let rest ← endLine rest
    readLines rounds s rest

/-- Read a settings file; a mark of byte order may stand in front. -/
def read? (text : String) : Option Value :=
  let cs := match text.toList with
    | '\ufeff' :: cs => cs
    | cs => cs
  (readLines cs.length {} cs).map fun s => .table (Node.toFields s.fields)

end Toml
end ApiSurface
