import ApiSurface.Codebase

/-!
# Lineage

The supertypes of a class, followed through a codebase by name.  Hierarchies may be incomplete, may
meet again and may be circular; every name is met at most once.  Superclasses are followed before
interfaces, and a supertype before what stands behind it in the list.
-/

namespace ApiSurface

/-- A supertype that is not declared. -/
structure Unresolved where
  /-- Qualified name of the class that names the supertype. -/
  owner : String
  reference : String
  deriving DecidableEq, Repr

namespace Lineage

/-- Roots that no codebase needs to declare. -/
def implicitRoots : List String :=
  ["java.lang.Object", "java.lang.Enum", "java.lang.Record", "java.lang.annotation.Annotation"]

/-- What a walk meets under a name. -/
inductive Encounter where
  | declared (c : ClassDecl)
  | root (name : String)
  | missing (reference : Unresolved)

namespace Encounter

/-- The name under which something is met. -/
def name : Encounter → String
  | .declared c => c.qualifiedName
  | .root name => name
  | .missing reference => reference.reference

def class? : Encounter → Option ClassDecl
  | .declared c => some c
  | .root _ => none
  | .missing _ => none

/-- The reference that leads nowhere. -/
def unresolved? : Encounter → Option Unresolved
  | .declared _ => none
  | .root _ => none
  | .missing reference => some reference

end Encounter

/-- Declared classes whose name has not been met yet. -/
def unmet (cb : Codebase) (met : List String) : List ClassDecl :=
  cb.classes.items.filter fun c => !met.contains c.qualifiedName

theorem length_unmet_lt {cb : Codebase} {met : List String} {name : String} {c : ClassDecl}
    (h : cb.class? name = some c) (hn : met.contains name = false) :
    (unmet cb (name :: met)).length < (unmet cb met).length := by
  have hkey : c.qualifiedName = name := Catalog.key_of_find? h
  have hsub : unmet cb (name :: met) =
      (unmet cb met).filter fun c => !(c.qualifiedName == name) := by
    simp only [unmet, List.filter_filter]
    congr 1
    funext c
    simp only [List.contains_cons, Bool.not_or]
  have hmem : c ∈ unmet cb met := by
    refine List.mem_filter.mpr ⟨Catalog.mem_of_find? h, ?_⟩
    rw [hkey, hn]
    rfl
  rw [hsub]
  refine List.length_filter_lt_length_iff_exists.mpr ⟨c, hmem, by simp [hkey]⟩

theorem unmet_cons_of_undeclared {cb : Codebase} {met : List String} {name : String}
    (h : cb.class? name = none) : unmet cb (name :: met) = unmet cb met := by
  refine List.filter_congr fun c hc => ?_
  have hne : c.qualifiedName ≠ name := by
    have := List.find?_eq_none.mp h c hc
    simpa using this
  simp [hne]

/-- Walk along links between classes.  Each pending name comes with the class that names it; names
met before are passed over, and the links of a class come before what is still pending. -/
def walk (cb : Codebase) (links : ClassDecl → List String) (met : List String) :
    (pending : List (String × String)) → List Encounter
  | [] => []
  | (owner, name) :: pending =>
    if hm : met.contains name then walk cb links met pending
    else
      match hc : cb.class? name with
      | some c =>
        .declared c ::
          walk cb links (name :: met)
            ((links c).map (fun link => (c.qualifiedName, link)) ++ pending)
      | none =>
        (if implicitRoots.contains name then .root name else .missing ⟨owner, name⟩) ::
          walk cb links (name :: met) pending
termination_by pending => ((unmet cb met).length, pending.length)
decreasing_by
  · exact Prod.Lex.right _ (by simp)
  · exact Prod.Lex.left _ _ (length_unmet_lt hc (by simpa using hm))
  · rw [unmet_cons_of_undeclared hc]
    exact Prod.Lex.right _ (by simp)

/-- Walk along links from a class, which is never met itself. -/
def walkFrom (cb : Codebase) (links : ClassDecl → List String) (c : ClassDecl) : List Encounter :=
  walk cb links [c.qualifiedName] ((links c).map fun link => (c.qualifiedName, link))

end Lineage

namespace Codebase

open Lineage

/-- Everything met above a class: superclasses before interfaces, depth first. -/
def lineage (cb : Codebase) (c : ClassDecl) : List Encounter :=
  walkFrom cb ClassDecl.supertypeNames c

/-- The declared classes above a class, in the order of the walk. -/
def supertypes (cb : Codebase) (c : ClassDecl) : List ClassDecl :=
  (cb.lineage c).filterMap Encounter.class?

/-- The supertypes above a class that are not declared. -/
def unresolved (cb : Codebase) (c : ClassDecl) : List Unresolved :=
  (cb.lineage c).filterMap Encounter.unresolved?

/-- Everything met above a class along superclasses alone, nearest first. -/
def superclasses (cb : Codebase) (c : ClassDecl) : List Encounter :=
  walkFrom cb (fun c => c.superclass.toList.map TypeRef.name) c

/-- The names of the superclasses, nearest first; a name that is not declared ends the chain. -/
def superclassChain (cb : Codebase) (c : ClassDecl) : List String :=
  (cb.superclasses c).map Encounter.name

/-- The superclass that is not declared, if the chain ends in one. -/
def unresolvedSuperclasses (cb : Codebase) (c : ClassDecl) : List Unresolved :=
  (cb.superclasses c).filterMap Encounter.unresolved?

/-- Every interface that a class implements, directly or through its supertypes. -/
def allInterfaces (cb : Codebase) (c : ClassDecl) : NameSet :=
  Catalog.ofList <|
    c.interfaces.map TypeRef.name ++
      (cb.supertypes c).flatMap fun s =>
        s.interfaces.map TypeRef.name ++ if s.kind = .interface then [s.qualifiedName] else []

end Codebase

end ApiSurface
