import ApiSurface.Codebase.Enclosing
import ApiSurface.Proofs.ErasureRenamed
import ApiSurface.Proofs.Lineage
import ApiSurface.Proofs.Reversal

/-!
# New names for type variables

Type variables of classes and of methods get new names wherever they are in scope.  The
comparison reads a member with the variables of the member and of its class, renames parameter,
result and field types, and pairs members by their written types first.  Where that is all there
is to see, new names show as nothing.  They do show where a type names a variable of a class
further out, where a thrown type names a variable, where a method keeps a variable that it hides
from its class, and where one overload comes to be written as another was.
-/

namespace ApiSurface

open TypeParameter (Declares boundNames)

/-! ## Replacing names in declarations -/

/-- The supertype with the names in its arguments replaced; its own name is that of a class. -/
def TypeRef.mapArguments (f : String → String) (t : TypeRef) : TypeRef :=
  { t with arguments := mapNamesList f t.arguments }

/-- The method with all names in its types replaced. -/
def Method.mapNames (f : String → String) (m : Method) : Method :=
  { m with
    returnType := m.returnType.map (TypeRef.mapNames f)
    typeParameters := m.typeParameters.map (TypeParameter.mapNames f)
    parameters := m.parameters.map fun p => { p with type := p.type.mapNames f }
    throws := m.throws.map (TypeRef.mapNames f) }

/-- The field with all names in its type replaced. -/
def Field.mapNames (f : String → String) (x : Field) : Field :=
  { x with type := x.type.mapNames f }

/-- A declaration that may have type variables. -/
inductive VariableSite where
  | ofClass (name : String)
  | ofConstructor (owner signature : String)
  | ofMethod (owner signature : String)
  deriving DecidableEq

/-- New names for type variables, by the declaration that has them. -/
abbrev VariableNames : Type :=
  VariableSite → String → String

namespace VariableNames

/-- The new name that a name has in a class: the innermost of the class and the classes around it
that declares it as a variable decides. -/
def inClass (ρ : VariableNames) (cb : Codebase) (c : ClassDecl) (name : String) : String :=
  match (c :: cb.enclosing c).find? fun d => decide (Declares d.typeParameters name) with
  | some d => ρ (.ofClass d.qualifiedName) name
  | none => name

/-- The new name that a name has in a member: its own variables come before those of the class. -/
def inMember (ρ : VariableNames) (site : VariableSite) (ps : List TypeParameter)
    (outer : String → String) (name : String) : String :=
  if Declares ps name then ρ site name else outer name

end VariableNames

namespace ClassDecl

/-- The new name that a name has in a constructor or a method of the class. -/
def memberNames (c : ClassDecl) (ρ : VariableNames) (outer : String → String)
    (site : String → String → VariableSite) (m : Method) : String → String :=
  ρ.inMember (site c.qualifiedName (c.signatureOf m)) m.typeParameters outer

/-- A constructor or a method of the class with its new names. -/
def renamedMember (c : ClassDecl) (ρ : VariableNames) (outer : String → String)
    (site : String → String → VariableSite) (m : Method) : Method :=
  m.mapNames (c.memberNames ρ outer site m)

/-- The class with new names for its variables, `outer`, and for those of its members. -/
def renamed (c : ClassDecl) (ρ : VariableNames) (outer : String → String) : ClassDecl :=
  { c with
    typeParameters := c.typeParameters.map (TypeParameter.mapNames outer)
    superclass := c.superclass.map (TypeRef.mapArguments outer)
    interfaces := c.interfaces.map (TypeRef.mapArguments outer)
    constructors := c.constructors.map (c.renamedMember ρ outer .ofConstructor)
    methods := c.methods.map (c.renamedMember ρ outer .ofMethod)
    fields := c.fields.map (Field.mapNames outer) }

end ClassDecl

/-- The codebase with new names for the variables of its classes and methods. -/
def Codebase.renamed (cb : Codebase) (ρ : VariableNames) : Codebase :=
  { cb with classes := cb.classes.map (fun c => c.renamed ρ (ρ.inClass cb c)) fun _ => rfl }

/-! ## Names that are new -/

/-- The names in the types of the result and the parameters of a method. -/
def Method.typeNames (m : Method) : List String :=
  TypeRef.namesList (m.returnType.toList ++ m.parameters.map Parameter.type)

def Method.names (m : Method) : List String :=
  m.typeParameters.map TypeParameter.name ++ boundNames m.typeParameters ++ m.typeNames ++
    TypeRef.namesList m.throws

def ClassDecl.names (c : ClassDecl) : List String :=
  c.qualifiedName :: c.typeParameters.map TypeParameter.name ++ boundNames c.typeParameters ++
    TypeRef.namesList (c.superclass.toList ++ c.interfaces ++ c.fields.map Field.type) ++
    (c.constructors ++ c.methods).flatMap Method.names

def Codebase.names (cb : Codebase) : List String :=
  cb.classes.items.flatMap ClassDecl.names

namespace VariableNames

/-- Names that replace others occur nowhere in the codebase, and no two names are replaced by
one. -/
structure IsFresh (ρ : VariableNames) (cb : Codebase) : Prop where
  /-- The mark of wildcards is no variable. -/
  wildcard : ∀ site, ρ site "?" = "?"
  fresh : ∀ site, ∀ name ∈ cb.names, ρ site name ≠ name → ρ site name ∉ "?" :: cb.names
  distinct : ∀ site site', ∀ name ∈ cb.names, ∀ name' ∈ cb.names,
    ρ site name ≠ name → ρ site' name' ≠ name' → ρ site name = ρ site' name' → name = name'

/-- Every name is kept or gets the new name of some declaration. -/
def Serves (ρ : VariableNames) (f : String → String) : Prop :=
  ∀ name, f name = name ∨ ∃ site, f name = ρ site name

theorem serves_inClass (ρ : VariableNames) (cb : Codebase) (c : ClassDecl) :
    ρ.Serves (ρ.inClass cb c) := by
  intro name
  rw [inClass]
  split
  · exact .inr ⟨_, rfl⟩
  · exact .inl rfl

theorem serves_inMember
    (ρ : VariableNames) (site : VariableSite) (ps : List TypeParameter) {outer : String → String}
    (h : ρ.Serves outer) : ρ.Serves (ρ.inMember site ps outer) := by
  intro name
  rw [inMember]
  split
  · exact .inr ⟨site, rfl⟩
  · exact h name

namespace IsFresh

variable {ρ : VariableNames} {cb : Codebase} {f : String → String}

theorem eq_of_eq
    (h : ρ.IsFresh cb) (hf : ρ.Serves f) {name name' : String} (hname : name ∈ cb.names)
    (hname' : name' ∈ cb.names) (heq : f name = f name') : name = name' := by
  by_cases hkept : f name = name
  · by_cases hkept' : f name' = name'
    · rw [← hkept, heq, hkept']
    · obtain ⟨site', hsite'⟩ := (hf name').resolve_left hkept'
      have hfresh := h.fresh site' name' hname' (hsite' ▸ hkept')
      rw [← hsite', ← heq, hkept] at hfresh
      exact absurd (List.mem_cons_of_mem _ hname) hfresh
  · obtain ⟨site, hsite⟩ := (hf name).resolve_left hkept
    have hfresh := h.fresh site name hname (hsite ▸ hkept)
    by_cases hkept' : f name' = name'
    · rw [← hsite, heq, hkept'] at hfresh
      exact absurd (List.mem_cons_of_mem _ hname') hfresh
    · obtain ⟨site', hsite'⟩ := (hf name').resolve_left hkept'
      exact h.distinct site site' name hname name' hname' (hsite ▸ hkept) (hsite' ▸ hkept')
        (by rw [← hsite, ← hsite', heq])

theorem eq_wildcard_iff
    (h : ρ.IsFresh cb) (hf : ρ.Serves f) {name : String} (hname : name ∈ cb.names) :
    f name = "?" ↔ name = "?" := by
  constructor
  · intro heq
    by_contra hne
    obtain ⟨site, hsite⟩ := (hf name).resolve_left fun hkept => hne (hkept ▸ heq)
    have hfresh := h.fresh site name hname (hsite ▸ heq ▸ Ne.symm hne)
    rw [← hsite, heq] at hfresh
    exact hfresh List.mem_cons_self
  · rintro rfl
    rcases hf "?" with hkept | ⟨site, hsite⟩
    · exact hkept
    · rw [hsite, h.wildcard]

end IsFresh

end VariableNames

theorem Codebase.mem_names
    {cb : Codebase} {c : ClassDecl} (hc : c ∈ cb.classes.items) {name : String}
    (hname : name ∈ c.names) : name ∈ cb.names :=
  List.mem_flatMap.mpr ⟨c, hc, hname⟩

/-! ## What the comparison follows -/

/-- The names that are looked up to compare a method of a class: those in its types and those in
the bounds of all variables that are in sight. -/
def Method.lookedUp (c : ClassDecl) (m : Method) : List String :=
  m.typeNames ++ boundNames m.typeParameters ++ boundNames c.typeParameters

/-- New names in a method, `inner`, and in its class, `outer`, that the comparison follows. -/
structure Method.Follows (outer inner : String → String) (c : ClassDecl) (m : Method) : Prop where
  /-- A variable of a class further out keeps its name. -/
  outside : ∀ name ∈ m.lookedUp c, ¬ Declares m.typeParameters name →
    ¬ Declares c.typeParameters name → inner name = name
  /-- A variable of the class keeps its name if the method has one of that name and keeps it. -/
  hidden : ∀ name ∈ m.typeNames, Declares m.typeParameters name → Declares c.typeParameters name →
    inner name = name → outer name = name
  /-- The bounds of the variables of the class read the same in the method. -/
  bounds : ∀ name ∈ boundNames c.typeParameters, inner name = outer name
  /-- Thrown types keep their names. -/
  thrown : ∀ name ∈ TypeRef.namesList m.throws, inner name = name

namespace Pairing

/-- A method that comes to be written as one was is written as before, and so is the other. -/
def KeepsWriting (f : Method → Method) (ms : List Method) : Prop :=
  ∀ m ∈ ms, ∀ n ∈ ms, m.exactSignature = (f n).exactSignature →
    (f m).exactSignature = m.exactSignature ∧ (f n).exactSignature = n.exactSignature

end Pairing

/-- New names in a class that the comparison follows. -/
structure ClassDecl.Follows (c : ClassDecl) (ρ : VariableNames) (outer : String → String) :
    Prop where
  constructors : ∀ m ∈ c.constructors, m.isVisible = true →
    m.Follows outer (c.memberNames ρ outer .ofConstructor m) c
  methods : ∀ m ∈ c.methods, m.isVisible = true →
    m.Follows outer (c.memberNames ρ outer .ofMethod m) c
  fields : ∀ x ∈ c.fields, x.isVisible = true → ∀ name ∈ x.type.names,
    ¬ Declares c.typeParameters name → outer name = name
  writtenConstructors : Pairing.KeepsWriting (c.renamedMember ρ outer .ofConstructor)
    (c.constructors.filter Method.isVisible)
  writtenMethods : Pairing.KeepsWriting (c.renamedMember ρ outer .ofMethod)
    (c.methods.filter Method.isVisible)

/-- New names in a codebase that the comparison follows in all classes on the surface. -/
def Codebase.Follows (cb : Codebase) (ρ : VariableNames) : Prop :=
  ∀ c ∈ cb.classes.items, c.isVisible = true → c.Follows ρ (ρ.inClass cb c)

/-! ## Renaming by position -/

namespace Renaming

/-- A variable is renamed if it has a new name. -/
theorem find?_between (f : String → String) (ps : List TypeParameter) (name : String) :
    (between ps (ps.map (TypeParameter.mapNames f))).find? (fun p => p.1 == name) =
      if Declares ps name ∧ f name ≠ name then some (name, f name) else none := by
  have hzip : (ps.zip (ps.map (TypeParameter.mapNames f))).map (fun p => (p.1.name, p.2.name)) =
      ps.map fun p => (p.name, f p.name) := by
    rw [List.zip_map_right, List.zip, List.zipWith_self, List.map_map, List.map_map]
    rfl
  have hmem : ∀ x, x ∈ between ps (ps.map (TypeParameter.mapNames f)) ↔
      Declares ps x.1 ∧ f x.1 ≠ x.1 ∧ x.2 = f x.1 := by
    rintro ⟨a, b⟩
    simp only [between, hzip, List.mem_reverse, List.mem_filter, List.mem_map, Declares, bne_iff_ne,
      Prod.mk.injEq]
    constructor
    · rintro ⟨⟨p, hp, rfl, rfl⟩, hne⟩
      exact ⟨⟨p, hp, rfl⟩, Ne.symm hne, rfl⟩
    · rintro ⟨⟨p, hp, rfl⟩, hne, rfl⟩
      exact ⟨⟨p, hp, rfl, rfl⟩, Ne.symm hne⟩
  cases hfind : (between ps (ps.map (TypeParameter.mapNames f))).find? fun p => p.1 == name with
  | none =>
    rw [if_neg]
    rintro ⟨hdeclared, hne⟩
    have hno := List.find?_eq_none.mp hfind (name, f name) ((hmem _).mpr ⟨hdeclared, hne, rfl⟩)
    simp at hno
  | some x =>
    have hkey : x.1 = name := by simpa using List.find?_some hfind
    obtain ⟨hdeclared, hne, hvalue⟩ := (hmem x).mp (List.mem_of_find?_eq_some hfind)
    rw [hkey] at hdeclared hne hvalue
    rw [if_pos ⟨hdeclared, hne⟩, ← hvalue, ← hkey]

theorem apply_between
    (f : String → String) (ps : List TypeParameter) {name : String}
    (h : ¬ Declares ps name → f name = name) :
    apply (between ps (ps.map (TypeParameter.mapNames f))) name = f name := by
  rw [apply, find?_between]
  split
  · rfl
  · rename_i hno
    by_cases hdeclared : Declares ps name
    · exact (not_not.mp fun hne => hno ⟨hdeclared, hne⟩).symm
    · exact (h hdeclared).symm

/-- The renaming of a method within that of its class gives every name its new name in the method,
if no variable of the class shows through one that the method keeps. -/
theorem apply_within
    {inner outer : String → String} {ms cs : List TypeParameter} {name : String}
    (hpassed : ¬ Declares ms name → inner name = outer name)
    (houtside : ¬ Declares ms name → ¬ Declares cs name → inner name = name)
    (hhidden : Declares ms name → Declares cs name → inner name = name → outer name = name) :
    apply ((between cs (cs.map (TypeParameter.mapNames outer))).within
      (between ms (ms.map (TypeParameter.mapNames inner)))) name = inner name := by
  rw [apply, within, List.find?_append, find?_between, find?_between]
  by_cases hms : Declares ms name
  · by_cases hkept : inner name = name
    · by_cases hcs : Declares cs name
      · simp [hkept, hhidden hms hcs hkept]
      · simp [hkept, hcs]
    · simp [hms, hkept]
  · by_cases hcs : Declares cs name
    · by_cases hkept : outer name = name
      · simp [hms, hkept, hpassed hms]
      · simp [hms, hcs, hkept, hpassed hms]
    · simp [hms, hcs, houtside hms hcs]

theorem keeps_mapNames
    {r : Renaming} {f : String → String} {t : TypeRef}
    (h : ∀ name ∈ t.names, r.apply name = f name) :
    r.Keeps t (t.mapNames f) := by
  refine ⟨?_, (t.mapNames_nullability f).symm⟩
  rw [sameType, TypeRef.mapNames_congr t h]
  exact beq_self_eq_true _

end Renaming

/-! ## Pairing with what has new names -/

namespace Pairing

/-- The methods that come to be written otherwise. -/
def rewritten (f : Method → Method) (ms : List Method) : List Method :=
  ms.filter fun m => (f m).exactSignature != m.exactSignature

theorem mem_rewritten_iff {f : Method → Method} {ms : List Method} {m : Method} :
    m ∈ rewritten f ms ↔ m ∈ ms ∧ (f m).exactSignature ≠ m.exactSignature := by
  simp [rewritten]

/-- Methods that keep their writing are paired with themselves, and the others are left over.  The
methods of `before` have been passed without a partner. -/
theorem exact_map_append
    (f : Method → Method) (before ms : List Method)
    (hwriting : ∀ m ∈ ms, ∀ n ∈ before ++ ms, m.exactSignature = (f n).exactSignature →
      (f m).exactSignature = m.exactSignature ∧ (f n).exactSignature = n.exactSignature)
    (hbefore : ∀ n ∈ before, (f n).exactSignature ≠ n.exactSignature) :
    exact ms (before.map f ++ ms.map f) =
      { pairs := (ms.filter fun m => (f m).exactSignature == m.exactSignature).map fun m => (m, f m)
        pending := rewritten f ms
        free := before.map f ++ (rewritten f ms).map f } := by
  induction ms generalizing before with
  | nil => simp [exact, rewritten]
  | cons m ms ih =>
    by_cases hkept : (f m).exactSignature = m.exactSignature
    · have hpassed : ∀ n ∈ before, ¬ (f n).exactSignature = m.exactSignature := fun n hn heq =>
        hbefore n hn (hwriting m List.mem_cons_self n (List.mem_append_left _ hn) heq.symm).2
      have hfind : (before.map f ++ f m :: ms.map f).find?
          (fun n => n.exactSignature == m.exactSignature) = some (f m) := by
        rw [List.find?_append, List.find?_eq_none.mpr (by simpa using hpassed), Option.none_or]
        exact List.find?_cons_of_pos (beq_iff_eq.mpr hkept)
      have herase : (before.map f ++ f m :: ms.map f).eraseP
          (fun n => n.exactSignature == m.exactSignature) = before.map f ++ ms.map f := by
        rw [List.eraseP_append_right _ (by simpa using hpassed),
          List.eraseP_cons_of_pos (by simpa using hkept)]
      have hrest := ih before
        (fun x hx n hn => hwriting x (List.mem_cons_of_mem _ hx) n (by
          rcases List.mem_append.mp hn with hn | hn
          · exact List.mem_append_left _ hn
          · exact List.mem_append_right _ (List.mem_cons_of_mem _ hn))) hbefore
      simp only [exact, List.map_cons, hfind, herase, hrest]
      simp [rewritten, hkept]
    · have hfind : (before.map f ++ f m :: ms.map f).find?
          (fun n => n.exactSignature == m.exactSignature) = none := by
        rw [← List.map_cons, ← List.map_append, List.find?_eq_none]
        intro x hx
        obtain ⟨n, hn, rfl⟩ := List.mem_map.mp hx
        intro heq
        exact hkept (hwriting m List.mem_cons_self n hn (beq_iff_eq.mp heq).symm).1
      have hrest := ih (before ++ [m])
        (fun x hx n hn => hwriting x (List.mem_cons_of_mem _ hx) n (by simpa using hn))
        (fun n hn => by
          rcases List.mem_append.mp hn with hn | hn
          · exact hbefore n hn
          · cases List.mem_singleton.mp hn
            exact hkept)
      rw [List.map_append, List.map_singleton, List.append_assoc, List.singleton_append] at hrest
      simp only [exact, List.map_cons, hfind, hrest]
      simp [rewritten, hkept]

theorem exact_map
    {f : Method → Method} {ms : List Method} (hwriting : KeepsWriting f ms) :
    exact ms (ms.map f) =
      { pairs := (ms.filter fun m => (f m).exactSignature == m.exactSignature).map fun m => (m, f m)
        pending := rewritten f ms
        free := (rewritten f ms).map f } := by
  have h := exact_map_append f [] ms hwriting (by simp)
  rwa [List.map_nil, List.nil_append] at h

/-- Where erased signatures are unique and kept, every method is paired with itself. -/
theorem between_map
    {a b : ClassDecl} {f : Method → Method} {ms : List Method} (hwriting : KeepsWriting f ms)
    (hsignature : ∀ m ∈ ms, b.signatureOf (f m) = a.signatureOf m)
    (hunique : (ms.map a.signatureOf).Nodup) :
    (∀ x ∈ (between a ms b (ms.map f)).matched, x.1 ∈ ms ∧ ∀ n ∈ x.2, n = f x.1) ∧
      (between a ms b (ms.map f)).removed = [] ∧ (between a ms b (ms.map f)).added = [] := by
  have hsame : ∀ m ∈ ms, ∀ n ∈ ms, b.signatureOf (f n) = a.signatureOf m → n = m := by
    intro m hm n hn heq
    rw [hsignature n hn] at heq
    exact List.inj_on_of_nodup_map hunique hn hm heq
  have hnew : (((rewritten f ms).map f).map b.signatureOf).Nodup := by
    have heq : ((rewritten f ms).map f).map b.signatureOf = (rewritten f ms).map a.signatureOf := by
      rw [List.map_map]
      exact List.map_congr_left fun m hm => hsignature m (mem_rewritten_iff.mp hm).1
    rw [heq]
    exact hunique.sublist (List.filter_sublist.map _)
  have hclosest : ∀ m ∈ rewritten f ms, f m ∈ closest a b ((rewritten f ms).map f) m :=
    fun m hm => (mem_closest_iff hnew (List.mem_map_of_mem hm)).mpr
      (hsignature m (mem_rewritten_iff.mp hm).1)
  simp only [between, exact_map hwriting]
  refine ⟨?_, ?_, ?_⟩
  · rintro ⟨m, partners⟩ hx
    rcases List.mem_append.mp hx with hx | hx
    · obtain ⟨p, hp, heq⟩ := List.mem_map.mp hx
      obtain ⟨n, hn, rfl⟩ := List.mem_map.mp hp
      cases heq
      exact ⟨(List.mem_filter.mp hn).1, fun x hx => List.mem_singleton.mp hx⟩
    · obtain ⟨n, hn, heq⟩ := List.mem_map.mp hx
      cases heq
      have hm := (mem_rewritten_iff.mp (List.mem_filter.mp hn).1).1
      refine ⟨hm, fun x hx => ?_⟩
      obtain ⟨hfree, heq⟩ := mem_closest hx
      obtain ⟨k, hk, rfl⟩ := List.mem_map.mp hfree
      rw [hsame _ hm k (mem_rewritten_iff.mp hk).1 heq]
  · rw [List.filter_eq_nil_iff]
    intro m hm hempty
    have hmem := hclosest m hm
    rw [List.isEmpty_iff.mp hempty] at hmem
    cases hmem
  · rw [List.filter_eq_nil_iff]
    intro x hx
    obtain ⟨m, hm, rfl⟩ := List.mem_map.mp hx
    have hany : (rewritten f ms).any
        (fun n => (closest a b ((rewritten f ms).map f) n).contains (f m)) = true :=
      List.any_eq_true.mpr ⟨m, hm, List.contains_iff_mem.mpr (hclosest m hm)⟩
    rw [hany]
    exact Bool.false_ne_true

end Pairing

/-! ## Members with new names -/

section Member

variable {ρ : VariableNames} {cb : Codebase} {c : ClassDecl} {outer : String → String}
  {site : String → String → VariableSite} {m : Method}

theorem Method.mem_names_of_lookedUp
    (hm : m ∈ c.constructors ++ c.methods) {name : String} (hname : name ∈ m.lookedUp c) :
    name ∈ c.names := by
  rw [lookedUp, List.mem_append, List.mem_append] at hname
  rcases hname with (hname | hname) | hname
  · exact List.mem_append_right _ (List.mem_flatMap.mpr ⟨m, hm, by simp [names, hname]⟩)
  · exact List.mem_append_right _ (List.mem_flatMap.mpr ⟨m, hm, by simp [names, hname]⟩)
  · simp [ClassDecl.names, hname]

/-- New names that the comparison follows are looked up as the old ones were. -/
theorem Method.Follows.keepsLookup
    (h : m.Follows outer (c.memberNames ρ outer site m) c) (hfresh : ρ.IsFresh cb)
    (houter : ρ.Serves outer) (hc : c ∈ cb.classes.items) (hm : m ∈ c.constructors ++ c.methods) :
    KeepsLookup (c.memberNames ρ outer site m) outer m.typeParameters c.typeParameters
      (m.lookedUp c) := by
  have hinner : ρ.Serves (c.memberNames ρ outer site m) := ρ.serves_inMember _ _ houter
  have hnames : ∀ name ∈ m.lookedUp c, name ∈ cb.names := fun name hname =>
    Codebase.mem_names hc (mem_names_of_lookedUp hm hname)
  constructor
  case wildcard => exact fun name hname => hfresh.eq_wildcard_iff hinner (hnames name hname)
  case own =>
    intro name hname p hp
    have hvariable : p.name ∈ cb.names := by
      refine Codebase.mem_names hc (List.mem_append_right _ (List.mem_flatMap.mpr ⟨m, hm, ?_⟩))
      simpa [names] using .inl ⟨p, hp, rfl⟩
    exact ⟨hfresh.eq_of_eq hinner hvariable (hnames name hname), congrArg _⟩
  case passed =>
    intro name hname hundeclared p hp
    have hvariable : p.name ∈ cb.names := by
      refine Codebase.mem_names hc ?_
      simpa [ClassDecl.names] using .inr (.inl ⟨p, hp, rfl⟩)
    have hpassed : c.memberNames ρ outer site m name = outer name := if_neg hundeclared
    rw [hpassed]
    exact ⟨hfresh.eq_of_eq houter hvariable (hnames name hname), congrArg _⟩
  case free => exact h.outside
  case bounds =>
    rintro name (hname | hname)
    · simp [lookedUp, hname]
    · simp [lookedUp, hname]
  case outerBounds => exact h.bounds

theorem Method.mem_typeNames_of_parameter
    {p : Parameter} (hp : p ∈ m.parameters) {name : String} (hname : name ∈ p.type.names) :
    name ∈ m.typeNames :=
  TypeRef.mem_namesList_of_mem (List.mem_append_right _ (List.mem_map_of_mem hp)) hname

/-- A member keeps its erased signature. -/
theorem ClassDecl.signatureOf_renamedMember
    (h : KeepsLookup (c.memberNames ρ outer site m) outer m.typeParameters c.typeParameters
      (m.lookedUp c)) :
    (c.renamed ρ outer).signatureOf (c.renamedMember ρ outer site m) = c.signatureOf m := by
  have hparameters : m.parameters.map (fun p =>
        (p.type.mapNames (c.memberNames ρ outer site m)).erased (KeepsLookup.renamedScope
          (c.memberNames ρ outer site m) outer m.typeParameters c.typeParameters)) =
      m.parameters.map fun p => p.type.erased (m.typeParameters ++ c.typeParameters) :=
    List.map_congr_left fun p hp => h.erased_eq fun name hname => by
      simp [Method.lookedUp, Method.mem_typeNames_of_parameter hp hname]
  rw [signatureOf, signatureOf, Method.signatureIn, Method.signatureIn, ← hparameters]
  simp only [renamedMember, Method.mapNames, List.map_map]
  rfl

/-- A member is the same once the variables of its class and its own are renamed by position. -/
theorem Method.Follows.keptAs
    (h : m.Follows outer (c.memberNames ρ outer site m) c) :
    m.KeptAs ((Renaming.between c.typeParameters (c.renamed ρ outer).typeParameters).within
      (Renaming.between m.typeParameters (c.renamedMember ρ outer site m).typeParameters))
      (c.renamedMember ρ outer site m) := by
  have happly : ∀ name ∈ m.typeNames,
      Renaming.apply ((Renaming.between c.typeParameters (c.renamed ρ outer).typeParameters).within
        (Renaming.between m.typeParameters (c.renamedMember ρ outer site m).typeParameters)) name =
      c.memberNames ρ outer site m name := fun name hname =>
    Renaming.apply_within (fun hno => if_neg hno) (h.outside name (by simp [lookedUp, hname]))
      (h.hidden name hname)
  constructor
  case modifiers => rfl
  case returnType =>
    intro s hs t ht
    obtain ⟨s', hs', rfl⟩ := Option.map_eq_some_iff.mp ht
    cases Option.mem_unique hs hs'
    exact Renaming.keeps_mapNames fun name hname => happly name
      (TypeRef.mem_namesList_of_mem (List.mem_append_left _ (Option.mem_toList.mpr hs)) hname)
  case parameters =>
    intro x hx
    have hzip : m.parameters.zip (c.renamedMember ρ outer site m).parameters =
        m.parameters.map fun p =>
          (p, { p with type := p.type.mapNames (c.memberNames ρ outer site m) }) := by
      simp only [ClassDecl.renamedMember, Method.mapNames]
      rw [List.zip_map_right, List.zip, List.zipWith_self, List.map_map]
      rfl
    rw [hzip] at hx
    obtain ⟨p, hp, rfl⟩ := List.mem_map.mp hx
    exact ⟨Renaming.keeps_mapNames fun name hname =>
      happly name (mem_typeNames_of_parameter hp hname), rfl, rfl, rfl⟩
  case throws =>
    simp only [ClassDecl.renamedMember, Method.mapNames, List.map_map]
    refine List.map_congr_left fun t ht => congrArg TypeRef.canonical ?_
    exact TypeRef.mapNames_eq_self fun name hname =>
      h.thrown name (TypeRef.mem_namesList_of_mem ht hname)
  case defaultValue => rfl

end Member

namespace Comparison

section Class

variable {ρ : VariableNames} {cb : Codebase} {c : ClassDecl} {outer : String → String}

theorem filter_isVisible_renamed (site : String → String → VariableSite) (ms : List Method) :
    (ms.map (c.renamedMember ρ outer site)).filter Method.isVisible =
      (ms.filter Method.isVisible).map (c.renamedMember ρ outer site) :=
  List.filter_map

/-- Members with new names are paired with themselves, and compare as the same. -/
theorem between_renamed
    (cmp : Comparison) {site : String → String → VariableSite} {ms : List Method}
    (hfresh : ρ.IsFresh cb) (houter : ρ.Serves outer) (hc : c ∈ cb.classes.items)
    (hms : ∀ m ∈ ms, m ∈ c.constructors ++ c.methods)
    (hfollows : ∀ m ∈ ms, m.Follows outer (c.memberNames ρ outer site m) c)
    (hwriting : Pairing.KeepsWriting (c.renamedMember ρ outer site) ms)
    (hunique : (ms.map c.signatureOf).Nodup) :
    let pairing := Pairing.between c ms (c.renamed ρ outer) (ms.map (c.renamedMember ρ outer site))
    cmp.pairFindings c (c.renamed ρ outer) pairing = [] ∧ pairing.removed = [] ∧
      pairing.added = [] := by
  intro pairing
  obtain ⟨hmatched, hremoved, hadded⟩ := Pairing.between_map (b := c.renamed ρ outer) hwriting
    (fun m hm => ClassDecl.signatureOf_renamedMember
      ((hfollows m hm).keepsLookup hfresh houter hc (hms m hm))) hunique
  refine ⟨?_, hremoved, hadded⟩
  rw [pairFindings, List.flatMap_eq_nil_iff]
  rintro ⟨m, partners⟩ hx
  rw [List.flatMap_eq_nil_iff]
  intro n hn
  obtain ⟨hm, hpartner⟩ := hmatched _ hx
  rw [hpartner n hn]
  exact cmp.compareMethods_of_keptAs (hfollows m hm).keptAs

theorem constructorFindings_renamed
    (cmp : Comparison) (h : c.Follows ρ outer) (hfresh : ρ.IsFresh cb) (houter : ρ.Serves outer)
    (hc : c ∈ cb.classes.items) (hunique : (c.constructors.map c.signatureOf).Nodup) :
    cmp.constructorFindings c (c.renamed ρ outer) = [] := by
  obtain ⟨hpairs, hremoved, hadded⟩ := cmp.between_renamed hfresh houter hc
    (fun m hm => List.mem_append_left _ (List.mem_filter.mp hm).1)
    (fun m hm => h.constructors m (List.mem_filter.mp hm).1 (List.mem_filter.mp hm).2)
    h.writtenConstructors (hunique.sublist (List.filter_sublist.map _))
  have hnew : (c.renamed ρ outer).constructors.filter Method.isVisible =
      (c.constructors.filter Method.isVisible).map (c.renamedMember ρ outer .ofConstructor) :=
    filter_isVisible_renamed _ _
  simp only [constructorFindings, hnew, hpairs, hremoved, hadded, List.map_nil, List.flatMap_nil,
    List.append_nil]

theorem methodFindings_renamed
    (cmp : Comparison) (h : c.Follows ρ outer) (hfresh : ρ.IsFresh cb) (houter : ρ.Serves outer)
    (hc : c ∈ cb.classes.items) (hunique : (c.methods.map c.signatureOf).Nodup) :
    cmp.methodFindings c (c.renamed ρ outer) = [] := by
  obtain ⟨hpairs, hremoved, hadded⟩ := cmp.between_renamed hfresh houter hc
    (fun m hm => List.mem_append_right _ (List.mem_filter.mp hm).1)
    (fun m hm => h.methods m (List.mem_filter.mp hm).1 (List.mem_filter.mp hm).2)
    h.writtenMethods (hunique.sublist (List.filter_sublist.map _))
  have hnew : (c.renamed ρ outer).methods.filter Method.isVisible =
      (c.methods.filter Method.isVisible).map (c.renamedMember ρ outer .ofMethod) :=
    filter_isVisible_renamed _ _
  simp only [methodFindings, hnew, hpairs, hremoved, hadded, List.filter_nil, List.map_nil,
    List.flatMap_nil, List.append_nil]

theorem fieldFindings_renamed
    (cmp : Comparison) (h : c.Follows ρ outer) (hunique : (c.fields.map Field.name).Nodup) :
    cmp.fieldFindings c (c.renamed ρ outer) = [] := by
  have hvisible : ((c.fields.filter Field.isVisible).map Field.name).Nodup :=
    hunique.sublist (List.filter_sublist.map _)
  have hnew : (c.renamed ρ outer).fields.filter Field.isVisible =
      (c.fields.filter Field.isVisible).map (Field.mapNames outer) :=
    List.filter_map
  simp only [fieldFindings, hnew, List.append_eq_nil_iff, List.flatMap_eq_nil_iff,
    List.map_eq_nil_iff, List.filter_eq_nil_iff]
  constructor
  · intro x hx
    have hfind : ((c.fields.filter Field.isVisible).map (Field.mapNames outer)).find?
        (fun g => g.name == x.name) = some (x.mapNames outer) := by
      rw [List.find?_map]
      exact congrArg (Option.map _) (find?_eq_some_of_nodup hvisible hx)
    obtain ⟨hmem, hshown⟩ := List.mem_filter.mp hx
    rw [hfind]
    refine cmp.compareFields_of_keptAs ⟨rfl, Renaming.keeps_mapNames fun name hname => ?_, rfl⟩
    exact Renaming.apply_between outer c.typeParameters (h.fields x hmem hshown name hname)
  · intro y hy
    obtain ⟨x, hx, rfl⟩ := List.mem_map.mp hy
    have hany : (c.fields.filter Field.isVisible).any
        (fun g => g.name == (x.mapNames outer).name) = true :=
      List.any_eq_true.mpr ⟨x, hx, beq_self_eq_true _⟩
    simp [hany]

end Class

end Comparison

/-! ## Codebases with new names -/

namespace Codebase

variable {ρ : VariableNames} {cb : Codebase}

theorem class?_renamed (name : String) :
    (cb.renamed ρ).class? name = (cb.class? name).map fun c => c.renamed ρ (ρ.inClass cb c) := by
  simp only [class?, Catalog.find?, renamed, Catalog.map, List.find?_map]
  rfl

/-- Links that new names leave alone lead to the same names. -/
theorem reached_renamed_iff
    {links : ClassDecl → List String} (hlinks : ∀ c outer, links (c.renamed ρ outer) = links c)
    {met starts : List String} {name : String} :
    Lineage.Reached (cb.renamed ρ) links met starts name ↔
      Lineage.Reached cb links met starts name := by
  constructor
  · intro h
    refine h.mono fun n c hc => ?_
    rw [class?_renamed, Option.map_eq_some_iff] at hc
    obtain ⟨d, hd, rfl⟩ := hc
    exact ⟨d, hd, fun link hlink => hlinks d _ ▸ hlink⟩
  · intro h
    refine h.mono fun n c hc => ?_
    exact ⟨_, by rw [class?_renamed, hc]; rfl, fun link hlink => (hlinks c _).symm ▸ hlink⟩

theorem superclass_names_renamed (c : ClassDecl) (outer : String → String) :
    (c.renamed ρ outer).superclass.toList.map TypeRef.name =
      c.superclass.toList.map TypeRef.name := by
  cases hsuper : c.superclass <;> simp [ClassDecl.renamed, hsuper, TypeRef.mapArguments]

theorem interface_names_renamed (c : ClassDecl) (outer : String → String) :
    (c.renamed ρ outer).interfaces.map TypeRef.name = c.interfaces.map TypeRef.name := by
  simp [ClassDecl.renamed, TypeRef.mapArguments]

theorem supertypeNames_renamed (c : ClassDecl) (outer : String → String) :
    (c.renamed ρ outer).supertypeNames = c.supertypeNames := by
  rw [ClassDecl.supertypeNames, List.map_append, superclass_names_renamed, interface_names_renamed,
    ← List.map_append]
  rfl

theorem mem_superclassChain_renamed
    (c : ClassDecl) (outer : String → String) {name : String} :
    name ∈ (cb.renamed ρ).superclassChain (c.renamed ρ outer) ↔ name ∈ cb.superclassChain c := by
  rw [superclassChain, superclasses, superclassChain, superclasses, mem_map_name_walkFrom_iff,
    mem_map_name_walkFrom_iff, superclass_names_renamed,
    reached_renamed_iff superclass_names_renamed]
  rfl

theorem mem_supertypes_renamed
    (c : ClassDecl) (outer : String → String) {s : ClassDecl} :
    s ∈ (cb.renamed ρ).supertypes (c.renamed ρ outer) ↔
      ∃ d ∈ cb.supertypes c, d.renamed ρ (ρ.inClass cb d) = s := by
  simp only [mem_supertypes_iff, supertypeNames_renamed, class?_renamed, Option.map_eq_some_iff,
    reached_renamed_iff supertypeNames_renamed]
  constructor
  · rintro ⟨name, hreached, d, hd, rfl⟩
    exact ⟨d, ⟨name, hreached, hd⟩, rfl⟩
  · rintro ⟨d, ⟨name, hreached, hd⟩, rfl⟩
    exact ⟨name, hreached, d, hd, rfl⟩

theorem mem_allInterfaces_renamed
    (c : ClassDecl) (outer : String → String) {name : String} :
    name ∈ ((cb.renamed ρ).allInterfaces (c.renamed ρ outer)).items ↔
      name ∈ (cb.allInterfaces c).items := by
  simp only [mem_allInterfaces_iff, mem_supertypes_renamed, interface_names_renamed]
  refine or_congr_right ⟨?_, ?_⟩
  · rintro ⟨s, ⟨d, hd, rfl⟩, hname⟩
    rw [interface_names_renamed] at hname
    exact ⟨d, hd, hname⟩
  · rintro ⟨d, hd, hname⟩
    refine ⟨_, ⟨d, hd, rfl⟩, ?_⟩
    rw [interface_names_renamed]
    exact hname

theorem filter_isVisible_class?_renamed (name : String) :
    ((cb.renamed ρ).class? name).filter ClassDecl.isVisible =
      ((cb.class? name).filter ClassDecl.isVisible).map fun c => c.renamed ρ (ρ.inClass cb c) := by
  rw [class?_renamed]
  cases cb.class? name with
  | none => rfl
  | some c =>
    have hvisible : (c.renamed ρ (ρ.inClass cb c)).isVisible = c.isVisible := rfl
    cases hc : c.isVisible <;> simp [Option.filter, hvisible, hc]

theorem mem_visiblePackages_renamed {name : String} :
    name ∈ (Comparison.visiblePackages (cb.renamed ρ)).items ↔
      name ∈ (Comparison.visiblePackages cb).items := by
  simp only [Comparison.mem_visiblePackages_iff, classesIn, List.mem_filterMap, class?_renamed,
    Option.map_eq_some_iff]
  refine exists_congr fun p => and_congr_right fun _ => and_congr_right fun _ =>
    and_congr_right fun _ => ?_
  constructor
  · rintro ⟨_, ⟨n, hn, c, hc, rfl⟩, hvisible⟩
    exact ⟨c, ⟨n, hn, hc⟩, hvisible⟩
  · rintro ⟨c, ⟨n, hn, hc⟩, hvisible⟩
    exact ⟨_, ⟨n, hn, c, hc, rfl⟩, hvisible⟩

end Codebase

namespace Comparison

/-- A class with new names shows nothing but references that are not resolved. -/
theorem unresolved_of_mem_compareClasses_renamed
    {ρ : VariableNames} {cb : Codebase} (hfresh : ρ.IsFresh cb)
    (hsignatures : cb.HasUniqueSignatures)
    (hfields : cb.HasUniqueFields) (reference : Option Codebase) {c : ClassDecl}
    (hc : c ∈ cb.classes.items) (h : c.Follows ρ (ρ.inClass cb c)) {f : Finding}
    (hf : f ∈ compareClasses { old := cb, new := cb.renamed ρ, reference } c
      (c.renamed ρ (ρ.inClass cb c))) :
    f.issue = .unresolvedReference := by
  have hserves := ρ.serves_inClass cb c
  have hdeclaration : declarationChanges c (c.renamed ρ (ρ.inClass cb c)) = [] :=
    declarationChanges_of_eq rfl rfl
  have hchain : superclassChanges { old := cb, new := cb.renamed ρ, reference } c
      (c.renamed ρ (ρ.inClass cb c)) = [] :=
    superclassChanges_eq_nil_iff.mpr fun _ => (Codebase.mem_superclassChain_renamed c _).mpr
  have hinterfaces : interfaceChanges { old := cb, new := cb.renamed ρ, reference } c
      (c.renamed ρ (ρ.inClass cb c)) = [] := by
    rw [interfaceChanges, NameSet.without_eq_nil_iff.mpr fun _ =>
        (Codebase.mem_allInterfaces_renamed c _).mpr,
      NameSet.without_eq_nil_iff.mpr fun _ => (Codebase.mem_allInterfaces_renamed c _).mp]
    rfl
  rw [compareClasses, hdeclaration, hchain, hinterfaces,
    constructorFindings_renamed _ h hfresh hserves hc (hsignatures c hc).1,
    methodFindings_renamed _ h hfresh hserves hc (hsignatures c hc).2,
    fieldFindings_renamed _ h (hfields c hc)] at hf
  simp only [List.nil_append, List.append_nil, List.mem_map, List.mem_append] at hf
  obtain ⟨change, hchange, rfl⟩ := hf
  rcases hchange with ⟨reference, -, rfl⟩ | ⟨reference, -, rfl⟩
  · rfl
  · rfl

/-- New names for type variables that the comparison follows show nothing but references that are
not resolved. -/
theorem renamed_report_unresolved
    (cb : Codebase) (hsignatures : cb.HasUniqueSignatures) (hfields : cb.HasUniqueFields)
    (ρ : VariableNames) (hfresh : ρ.IsFresh cb) (hfollows : cb.Follows ρ)
    (reference : Option Codebase) (registry : Registry) (mode : Mode) :
    ∀ e ∈ (report { old := cb, new := cb.renamed ρ, reference } registry mode).entries,
      e.issue = .unresolvedReference := by
  intro e he
  obtain ⟨f, hf, -, rfl⟩ := mem_report_iff.mp he
  cases origin_of_mem_findings hf with
  | removedPackage old new => exact absurd (Codebase.mem_visiblePackages_renamed.mpr old) new
  | addedPackage old new => exact absurd (Codebase.mem_visiblePackages_renamed.mp new) old
  | removedClass _ old new =>
    rw [Codebase.filter_isVisible_class?_renamed, old] at new
    cases new
  | addedClass _ old new =>
    rw [Codebase.filter_isVisible_class?_renamed, old] at new
    cases new
  | compared _ old new found =>
    rw [Codebase.filter_isVisible_class?_renamed, old] at new
    cases new
    obtain ⟨hclass, hvisible⟩ := Option.filter_eq_some_iff.mp old
    have hc := Catalog.mem_of_find? hclass
    exact unresolved_of_mem_compareClasses_renamed hfresh hsignatures hfields reference hc
      (hfollows _ hc hvisible) found

/-! ## New names that show, and new names that do not -/

/-- New names that do not depend on where a variable is declared. -/
def letters : VariableNames := fun _ name =>
  if name = "T" then "E" else if name = "S" then "R" else if name = "K" then "L" else name

/-- The method `<S extends T> S pick(T, S)`. -/
def pickMethod : Method :=
  { name := "pick", owner := "a.Box", modifiers := { access := .pub }
    returnType := some (TypeRef.named "S")
    typeParameters := [{ name := "S", bounds := [TypeRef.named "T"] }]
    parameters := [{ type := TypeRef.named "T" }, { type := TypeRef.named "S" }] }

/-- The class `Box<T extends java.lang.Number>`. -/
def genericBox : ClassDecl :=
  { package := "a", name := "Box", kind := .ordinary
    typeParameters := [{ name := "T", bounds := [TypeRef.named "java.lang.Number"] }]
    constructors := [{ pickMethod with name := "Box", returnType := none }]
    methods := [pickMethod]
    fields := [{ name := "value", owner := "a.Box", modifiers := {}, type := TypeRef.named "T" }] }

/-- The class `Entry<K>` inside `Box`. -/
def genericEntry : ClassDecl :=
  { package := "a", name := "Box.Entry", kind := .ordinary
    typeParameters := [{ name := "K" }]
    fields :=
      [{ name := "key", owner := "a.Box.Entry", modifiers := {}, type := TypeRef.named "K" }] }

def genericOnly : Codebase :=
  { packages := ⟨[{ name := "a", classNames := ⟨["a.Box", "a.Box.Entry"], by decide⟩ }], by decide⟩
    classes := ⟨[genericBox, genericEntry], by decide⟩ }

theorem enclosing_genericBox : genericOnly.enclosing genericBox = [] := by
  rw [Codebase.enclosing]
  rfl

theorem enclosing_genericEntry : genericOnly.enclosing genericEntry = [genericBox] := by
  rw [Codebase.enclosing]
  exact congrArg (List.cons genericBox) enclosing_genericBox

theorem letters_isFresh : letters.IsFresh genericOnly where
  wildcard _ := rfl
  fresh site := by
    simp only [letters]
    decide
  distinct site site' := by
    simp only [letters]
    decide

theorem inClass_genericBox :
    letters.inClass genericOnly genericBox = fun name => if name = "T" then "E" else name := by
  funext name
  rw [VariableNames.inClass, enclosing_genericBox]
  by_cases h : name = "T"
  · subst h
    rfl
  · have hno : ¬ Declares genericBox.typeParameters name := by
      simpa [Declares, genericBox] using Ne.symm h
    simp [hno, h]

theorem inClass_genericEntry :
    letters.inClass genericOnly genericEntry = fun name =>
      if name = "K" then "L" else if name = "T" then "E" else name := by
  funext name
  rw [VariableNames.inClass, enclosing_genericEntry]
  by_cases hk : name = "K"
  · subst hk
    rfl
  · have hentry : ¬ Declares genericEntry.typeParameters name := by
      simpa [Declares, genericEntry] using Ne.symm hk
    by_cases ht : name = "T"
    · subst ht
      rfl
    · have hbox : ¬ Declares genericBox.typeParameters name := by
        simpa [Declares, genericBox] using Ne.symm ht
      simp [hentry, hbox, hk, ht]

theorem letters_follows : genericOnly.Follows letters := by
  intro c hc _
  rcases List.mem_cons.mp hc with rfl | hc
  · rw [inClass_genericBox]
    constructor
    case constructors =>
      intro m hm _
      cases List.mem_singleton.mp hm
      exact ⟨by decide, by decide, by decide, by decide⟩
    case methods =>
      intro m hm _
      cases List.mem_singleton.mp hm
      exact ⟨by decide, by decide, by decide, by decide⟩
    case fields => decide
    case writtenConstructors =>
      unfold Pairing.KeepsWriting
      decide
    case writtenMethods =>
      unfold Pairing.KeepsWriting
      decide
  · cases List.mem_singleton.mp hc
    rw [inClass_genericEntry]
    have hnone : ∀ m, m ∉ ([] : List Method) := fun _ => List.not_mem_nil
    exact ⟨fun m hm => absurd hm (hnone m), fun m hm => absurd hm (hnone m), by decide,
      fun m hm => absurd hm (hnone m), fun m hm => absurd hm (hnone m)⟩

theorem genericOnly_unique : genericOnly.HasUniqueSignatures ∧ genericOnly.HasUniqueFields := by
  unfold Codebase.HasUniqueSignatures Codebase.HasUniqueFields
  decide

theorem genericOnly_renamed_unresolved :
    letters.IsFresh genericOnly ∧ genericOnly.Follows letters ∧
      ∀ e ∈ (report { old := genericOnly, new := genericOnly.renamed letters } {} .current).entries,
        e.issue = .unresolvedReference :=
  ⟨letters_isFresh, letters_follows,
    renamed_report_unresolved genericOnly genericOnly_unique.1 genericOnly_unique.2 letters
      letters_isFresh letters_follows none {} .current⟩

/-- The method `<T extends java.lang.Throwable> void run() throws T`. -/
def throwingMethod : Method :=
  { name := "run", owner := "a.Job", modifiers := { access := .pub }
    returnType := some (TypeRef.named "void")
    typeParameters := [{ name := "T", bounds := [TypeRef.named "java.lang.Throwable"] }]
    throws := [TypeRef.named "T"] }

def jobClass : ClassDecl :=
  { package := "a", name := "Job", kind := .ordinary, methods := [throwingMethod] }

def jobOnly : Codebase :=
  { packages := ⟨[{ name := "a", classNames := ⟨["a.Job"], by decide⟩ }], by decide⟩
    classes := ⟨[jobClass], List.pairwise_singleton _ _⟩ }

/-- Thrown types are compared as written, so a new name for the variable that a method throws shows
as a change. -/
theorem jobOnly_renamed_changedThrows :
    jobOnly.HasUniqueSignatures ∧ jobOnly.HasUniqueFields ∧ letters.IsFresh jobOnly ∧
      ∃ e ∈ (report { old := jobOnly, new := jobOnly.renamed letters } {} .current).entries,
        e.issue = .changedThrows := by
  refine ⟨?_, ?_, ⟨fun _ => rfl, ?_, ?_⟩, ?_⟩
  · unfold Codebase.HasUniqueSignatures
    decide
  · unfold Codebase.HasUniqueFields
    decide
  · intro site
    simp only [letters]
    decide
  · intro site site'
    simp only [letters]
    decide
  · let f : Finding :=
      ⟨Location.ofMember jobClass throwingMethod.exactSignature, .method, .addedThrows "E"⟩
    refine ⟨_, mem_report_iff.mpr ⟨f, ?_, rfl, rfl⟩, rfl⟩
    have hlisted : IsListed { old := jobOnly, new := jobOnly.renamed letters } "a.Job" :=
      ⟨"a", by decide, Codebase.mem_visiblePackages_renamed.mpr (by decide), .inl (by decide)⟩
    refine mem_findings_of_isListed hlisted rfl ?_
    have hnames : letters.inClass jobOnly jobClass = id := by
      funext name
      rw [VariableNames.inClass, Codebase.enclosing]
      rfl
    have hpairs : f ∈ pairFindings { old := jobOnly, new := jobOnly.renamed letters } jobClass
        (jobClass.renamed letters id) (Pairing.between jobClass [throwingMethod]
          (jobClass.renamed letters id) (jobClass.renamed letters id).methods) := by
      decide
    have hfound : (jobOnly.class? "a.Job").filter ClassDecl.isVisible = some jobClass := rfl
    rw [classFindings, Codebase.filter_isVisible_class?_renamed, hfound, Option.map_some, hnames]
    simp only [compareClasses, methodFindings, List.mem_append]
    exact .inl (.inr (.inl (.inl hpairs)))

end Comparison

end ApiSurface
