import ApiSurface.Fault
import ApiSurface.Text.Basic

/-!
# Directories

Access to files by paths, as far as the commands need it, and a directory kept in memory that offers
it.  Paths are relative; `.` stays, `..` goes up, and what is walked through must be a directory.
Names and paths are limited in length, counted in bytes; a name is measured only where it is looked
up.
-/

namespace ApiSurface

/-- Access to files by their paths. -/
class FileAccess (m : Type → Type) where
  /-- The text of a file. -/
  readFile : String → m (Except AccessError String)
  /-- Create a file, or replace its text. -/
  writeFile : (path text : String) → m (Except AccessError Unit)
  /-- Whether a path leads to a file or a directory. -/
  exists? : String → m Bool
  /-- Whether a path leads to a directory. -/
  isDirectory : String → m Bool
  /-- The files at and below a path, by the names that lead to them from there. -/
  filesBelow : String → m (List (List String))

namespace FileAccess

/-- The most bytes of a name. -/
def nameLimit : Nat :=
  255

/-- The most bytes of a path. -/
def pathLimit : Nat :=
  4095

/-- What is wrong with a path before any of its names is looked up. -/
def pathError? (path : String) : Option AccessError :=
  if path.toList.contains '\x00' then some .nulInName
  else if path = "" then some .notFound
  else if pathLimit < path.utf8ByteSize then some .nameTooLong
  else none

end FileAccess

/-- A file with its bytes, or a directory with what it holds. -/
inductive FileTree where
  | file (bytes : ByteArray)
  | directory (entries : List (String × FileTree))

namespace FileTree

def child? (entries : List (String × FileTree)) (name : String) : Option FileTree :=
  (entries.find? fun e => e.1 == name).map Prod.snd

/-- What stands at the end of a sequence of names. -/
def get? : (names : List String) → FileTree → Option FileTree
  | [], tree => some tree
  | _ :: _, .file _ => none
  | name :: names, .directory entries => do
    let tree ← child? entries name
    get? names tree

/-- The tree with a part put at the end of a sequence of names; directories on the way are made. -/
def put : (tree : FileTree) → (names : List String) → (part : FileTree) → FileTree
  | _, [], part => part
  | tree, name :: names, part =>
    let entries := match tree with
      | .directory entries => entries
      | .file _ => []
    let inner := put ((child? entries name).getD (.directory [])) names part
    .directory <|
      if entries.any fun e => e.1 == name then
        entries.map fun e => if e.1 == name then (name, inner) else e
      else entries ++ [(name, inner)]

mutual

/-- The files of a tree, by the names that lead to them. -/
def files : FileTree → List (List String)
  | .file _ => [[]]
  | .directory entries => filesIn entries

/-- The files of a directory, by the names that lead to them. -/
def filesIn : List (String × FileTree) → List (List String)
  | [] => []
  | (name, tree) :: entries => (files tree).map (name :: ·) ++ filesIn entries

end

end FileTree

/-- A directory kept in memory. -/
structure Directory where
  root : FileTree := .directory []

namespace Directory

def piecesOf (path : String) : List String :=
  (Text.pieces '/' path.toList).map String.ofList

/-- Follow the pieces of a path from a place, which is given by its names from the end. -/
def follow (d : Directory) : (here : List String) → (pieces : List String) →
    Except AccessError (List String)
  | here, [] => .ok here
  | here, piece :: pieces =>
    match d.root.get? here.reverse with
    | some (.directory entries) =>
      if piece = "" ∨ piece = "." then d.follow here pieces
      else if piece = ".." then d.follow here.tail pieces
      else if FileAccess.nameLimit < piece.utf8ByteSize then .error .nameTooLong
      else if (FileTree.child? entries piece).isSome then d.follow (piece :: here) pieces
      else .error .notFound
    | some (.file _) => .error .notDirectory
    | none => .error .notFound

/-- The names that lead to the end of a path. -/
def locate (d : Directory) (path : String) : Except AccessError (List String) :=
  match FileAccess.pathError? path with
  | some cause => .error cause
  | none => (d.follow [] (piecesOf path)).map List.reverse

/-- What stands at the end of a path. -/
def at? (d : Directory) (path : String) : Except AccessError FileTree := do
  let names ← d.locate path
  match d.root.get? names with
  | some tree => .ok tree
  | none => .error .notFound

def contents (d : Directory) (path : String) : Except AccessError String := do
  match ← d.at? path with
  | .directory _ => .error .isDirectory
  | .file bytes =>
    match String.fromUTF8? bytes with
    | some text => .ok text
    | none => .error .notText

/-- The directory with a file created or replaced.  A path with a slash behind it names a directory,
whether it exists or not. -/
def store (d : Directory) (path text : String) : Except AccessError Directory := do
  if let some cause := FileAccess.pathError? path then throw cause
  let named := ((piecesOf path).reverse.dropWhile (· == "")).reverse
  if named.isEmpty then throw .notFound
  let parent ← d.follow [] named.dropLast
  match d.root.get? parent.reverse, named.getLast? with
  | some (.directory entries), some name =>
    if name ∈ [".", ".."] ∨ path.toList.getLast? = some '/' then throw .isDirectory
    if FileAccess.nameLimit < name.utf8ByteSize then throw .nameTooLong
    match FileTree.child? entries name with
    | some (.directory _) => throw .isDirectory
    | _ => return ⟨d.root.put (name :: parent).reverse (.file text.toUTF8)⟩
  | some (.file _), _ => throw .notDirectory
  | _, _ => throw .notFound

instance : FileAccess (StateM Directory) where
  readFile path := do return (← get).contents path
  writeFile path text := do
    match (← get).store path text with
    | .ok d =>
      set d
      return .ok ()
    | .error cause => return .error cause
  exists? path := do return ((← get).locate path).isOk
  isDirectory path := do
    match (← get).at? path with
    | .ok (.directory _) => return true
    | _ => return false
  filesBelow path := do
    match (← get).at? path with
    | .ok tree => return tree.files
    | .error _ => return []

end Directory

end ApiSurface
