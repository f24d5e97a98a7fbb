import ApiSurface.Directory
import ApiSurface.Signature.Reader.Codebase

/-!
# Loading signature files

A codebase may be spread over several files.  Of a directory, all files with the extension `txt`
are read, in the order of the names that lead to them.
-/

namespace ApiSurface

/-- Fold another codebase into this one, or stop at the first class whose name is taken. -/
def Codebase.merged (cb other : Codebase) : Except Fault Codebase :=
  match cb.merge other with
  | (cb, none) => .ok cb
  | (_, some fault) => .error fault

namespace Signature
namespace Load

variable {m : Type → Type} [Monad m] [FileAccess m]

/-- Compare sequences of names, name by name. -/
def compareNames : List String → List String → Ordering
  | [], [] => .eq
  | [], _ :: _ => .lt
  | _ :: _, [] => .gt
  | a :: as, b :: bs => (compare a b).then (compareNames as bs)

/-- Whether a file name has the extension of signature files, with something in front of it. -/
def isSignatureName (name : String) : Bool :=
  match Text.splitLast '.' name.toList with
  | some (stem, extension) => !stem.isEmpty && extension == ['t', 'x', 't']
  | none => false

def extend (path name : String) : String :=
  if path = "" ∨ path.toList.getLast? = some '/' then path ++ name else path ++ "/" ++ name

def lastPiece (path : String) : String :=
  match Text.splitLast '/' path.toList with
  | some (_, name) => String.ofList name
  | none => path

/-- The paths of the signature files among the given files below a path, in order. -/
def signaturePaths (path : String) (files : List (List String)) : List String :=
  let chosen := files.filter fun names => isSignatureName (names.getLastD (lastPiece path))
  (chosen.mergeSort fun a b => (compareNames a b).isLE).map fun names => names.foldl extend path

/-- Read one file; messages name its path. -/
def file (options : ReadOptions) (path : String) : ExceptT Fault m Codebase := do
  match ← (FileAccess.readFile path : m _) with
  | .ok text => MonadExcept.ofExcept (read { options with file := path } text)
  | .error cause => throw (.unreadable path cause)

def files (options : ReadOptions) (paths : List String) : ExceptT Fault m Codebase :=
  paths.foldlM (fun cb path => do
    let part ← file options path
    MonadExcept.ofExcept (cb.merged part)) ∅

/-- Read the signature files below a path. -/
def directory (options : ReadOptions) (path : String) : ExceptT Fault m Codebase := do
  let below ← (FileAccess.filesBelow path : m _)
  files options (signaturePaths path below)

/-- Read a file, or the signature files of a directory. -/
def path (options : ReadOptions) (path : String) : ExceptT Fault m Codebase := do
  if ← (FileAccess.isDirectory path : m _) then directory options path else file options path

end Load
end Signature
end ApiSurface
