import ApiSurface.TypeRef

/-!
# Renaming type variables

A declaration may rename its type variables without changing what it means.  Variables correspond
by position; of two variables with one name the later decides.
-/

namespace ApiSurface

/-- New names for type variables; the first entry for a name decides. -/
abbrev Renaming : Type :=
  List (String × String)

namespace Renaming

/-- The renaming that takes the variables of one list to those of another by position. -/
def between (old new : List TypeParameter) : Renaming :=
  (((old.zip new).map fun p => (p.1.name, p.2.name)).filter fun p => p.1 != p.2).reverse

/-- A renaming extended by that of an inner scope, whose entries take precedence. -/
def within (outer inner : Renaming) : Renaming :=
  inner ++ outer

/-- The new name of a variable; all other names stay. -/
def apply (r : Renaming) (name : String) : String :=
  ((r.find? fun p => p.1 == name).map Prod.snd).getD name

/-- Whether a type is the same as another once its variables are renamed. -/
def sameType (r : Renaming) (old new : TypeRef) : Bool :=
  (old.mapNames r.apply).sameType new

end Renaming

end ApiSurface
