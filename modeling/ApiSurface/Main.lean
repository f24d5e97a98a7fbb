import ApiSurface.Command.Run

/-!
# The command line
-/

namespace ApiSurface
namespace Command

/-- The reason behind a failed access. -/
def causeOf (isDirectory : Bool) : IO.Error → AccessError
  | .noFileOrDirectory .. => .notFound
  | .invalidArgument .. => .nameTooLong
  | .inappropriateType .. => if isDirectory then .isDirectory else .notDirectory
  | _ => if isDirectory then .isDirectory else .notFound

def diskDirectory (path : String) : IO Bool := do
  if (FileAccess.pathError? path).isSome then return false
  ((← IO.currentDir) / path).isDir

/-- The files at and below a path on disk, by the names that lead to them from there. -/
partial def diskFiles (path : String) : IO (List (List String)) := do
  if (FileAccess.pathError? path).isSome then return []
  let place := (← IO.currentDir) / path
  if ← place.isDir then
    let entries ← place.readDir
    let below ← entries.toList.mapM fun entry => do
      let files ← diskFiles entry.path.toString
      return files.map (entry.fileName :: ·)
    return below.flatten
  else if ← place.pathExists then return [[]]
  else return []

instance : FileAccess IO where
  readFile path := do
    if let some cause := FileAccess.pathError? path then return .error cause
    try
      let bytes ← IO.FS.readBinFile path
      match String.fromUTF8? bytes with
      | some text => return .ok text
      | none => return .error .notText
    catch e => return .error (causeOf (← diskDirectory path) e)
  writeFile path text := do
    if let some cause := FileAccess.pathError? path then return .error cause
    try
      IO.FS.writeFile path text
      return .ok ()
    catch e => return .error (causeOf (← diskDirectory path) e)
  exists? path := do
    if (FileAccess.pathError? path).isSome then return false
    ((← IO.currentDir) / path).pathExists
  isDirectory := diskDirectory
  filesBelow := diskFiles

end Command
end ApiSurface

/-- Run the command line: print what it gives, and exit with its code. -/
def main (arguments : List String) : IO UInt32 := do
  let outcome ← ApiSurface.Command.run arguments
  IO.print outcome.output
  match outcome.failure with
  | some message => IO.eprintln message
  | none => pure ()
  return outcome.exit.toUInt32
