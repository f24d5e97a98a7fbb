import ApiSurface.Codebase
import ApiSurface.Signature.Writer.Declaration

/-!
# Writing a codebase

Packages without a class in the view are not written.
-/

namespace ApiSurface
namespace Signature

namespace WriteSettings

/-- A package with the classes that the view shows, if there are any. -/
def packageText (s : WriteSettings) (cb : Codebase) (p : Package) : String :=
  match (cb.classesIn p).filter s.view.showsClass with
  | [] => ""
  | classes =>
    "package " ++ p.name ++ " " ++ Token.openBrace ++ "\n\n" ++
      String.join (classes.map s.classText) ++ Token.closeBrace ++ "\n\n"

def headerText (s : WriteSettings) : String :=
  match s.header with
  | some header => header ++ "\n"
  | none => ""

def codebaseText (s : WriteSettings) (cb : Codebase) : String :=
  s.headerText ++ String.join (cb.packages.items.map (s.packageText cb))

end WriteSettings

def write (options : WriteOptions) (cb : Codebase) : Except Fault String := do
  let settings ← options.resolve
  return settings.codebaseText cb

end Signature
end ApiSurface
