import ApiSurface.Proofs.FirstBounds
import ApiSurface.Proofs.RenamedVariables

/-!
# Type variables in their scopes

A method is read in one list of type variables, its own in front of those of its class, and so are
the bounds of either.  New names for the variables of the method take their old names out of the way
of those bounds: the erased signature of the method with new names is that of the method with every
bound read where it was declared.  It is the signature of the method with its old names unless the
bound of a variable of the class is taken for a variable of the method.
-/

namespace ApiSurface

open TypeParameter (Declares boundNames)

namespace TypeRef

/-! ## Bounds that are read in the right scope -/

/-- The erased name of a type in a method with type variables of its own, inside of a class with
others, following at most `steps` bounds.  The bounds of the method are read in the method, those of
the class in the class. -/
def lexicalName (own outer : List TypeParameter) : (steps : Nat) → TypeRef → String
  | steps, t =>
    if t.IsFree own then erasedName outer steps t
    else
      match t.firstBound? own, steps with
      | some bound, steps + 1 => lexicalName own outer steps bound
      | _, _ => object

/-- The erasure of a type in a method, with every bound read where it was declared. -/
def lexicallyErased (own outer : List TypeParameter) (t : TypeRef) : String :=
  lexicalName own outer erasureSteps t ++ Text.repeated "[]" t.dimensions

/-- The type, or what a wildcard comes to through its upper bounds, is no variable of the list. -/
inductive Unshadowed (own : List TypeParameter) : TypeRef → Prop where
  | free {t : TypeRef} (ht : t.IsFree own) : Unshadowed own t
  | wildcard {t : TypeRef} (ht : t.isWildcard = true)
      (hbound : ∀ bound, t.firstBound? own = some bound → Unshadowed own bound) :
      Unshadowed own t

/-- No first bound of the outer variables is a variable of the inner ones. -/
def Uncaptured (own outer : List TypeParameter) : Prop :=
  ∀ p ∈ outer, ∀ bound ∈ p.bounds.head?, Unshadowed own bound

variable {own outer : List TypeParameter} {t u : TypeRef}

theorem firstBound?_of_isWildcard (ht : t.isWildcard = true) (scope scope' : List TypeParameter) :
    t.firstBound? scope = t.firstBound? scope' := by
  rw [firstBound?, firstBound?, if_pos ht, if_pos ht]

theorem declares_append {name : String} :
    Declares (own ++ outer) name ↔ Declares own name ∨ Declares outer name := by
  simp [Declares, or_and_right, exists_or]

theorem isFree_append : t.IsFree (own ++ outer) ↔ t.IsFree own ∧ t.IsFree outer := by
  simp only [IsFree, declares_append, not_or]
  tauto

/-- A type that is no variable of the inner list is looked up in the outer one. -/
theorem IsFree.firstBound?_append (ht : t.IsFree own) :
    t.firstBound? (own ++ outer) = t.firstBound? outer := by
  rw [firstBound?, firstBound?, if_neg (by simp [ht.1]), if_neg (by simp [ht.1]),
    List.find?_append, TypeParameter.find?_eq_none_iff.mpr ht.2, Option.none_or]

/-- A wildcard or a variable of the inner list has the bound that it has there. -/
theorem firstBound?_append_of_not_isFree (ht : ¬ t.IsFree own) :
    t.firstBound? (own ++ outer) = t.firstBound? own := by
  cases hwildcard : t.isWildcard with
  | true => exact firstBound?_of_isWildcard hwildcard _ _
  | false =>
    cases hfind : own.find? fun p => p.name == t.name with
    | none => exact absurd ⟨hwildcard, TypeParameter.find?_eq_none_iff.mp hfind⟩ ht
    | some p =>
      rw [firstBound?, firstBound?, if_neg (by simp [hwildcard]), if_neg (by simp [hwildcard]),
        List.find?_append, hfind, Option.some_or]

/-- What a type erases to depends on its name, on whether it is free, and on its bound. -/
theorem erasedName_congr
    {scope scope' : List TypeParameter} (hname : t.name = u.name)
    (hfree : t.IsFree scope ↔ u.IsFree scope')
    (hbounds : t.firstBound? scope = u.firstBound? scope') {steps : Nat}
    (hnext : ∀ bound ∈ t.firstBound? scope, ∀ n < steps,
      erasedName scope n bound = erasedName scope' n bound) :
    erasedName scope steps t = erasedName scope' steps u := by
  cases hbound : t.firstBound? scope with
  | none =>
    rw [erasedName_of_firstBound?_eq_none hbound,
      erasedName_of_firstBound?_eq_none (hbounds.symm.trans hbound), hname]
    simp only [hfree]
  | some bound =>
    have hold := erasedName_of_firstBound?_eq_some hbound
    have hnew := erasedName_of_firstBound?_eq_some (hbounds.symm.trans hbound)
    cases steps with
    | zero => rw [hold.1, hnew.1]
    | succ steps => rw [hold.2, hnew.2, hnext bound hbound steps (Nat.lt_succ_self steps)]

namespace Unshadowed

theorem firstBound?_append (ht : Unshadowed own t) :
    t.firstBound? (own ++ outer) = t.firstBound? outer := by
  cases ht with
  | free ht => exact ht.firstBound?_append
  | wildcard ht _ => exact firstBound?_of_isWildcard ht _ _

theorem isFree_append_iff (ht : Unshadowed own t) : t.IsFree (own ++ outer) ↔ t.IsFree outer := by
  cases ht with
  | free ht => exact isFree_append.trans (and_iff_right ht)
  | wildcard ht _ =>
    exact iff_of_false (not_isFree_of_isWildcard ht _) (not_isFree_of_isWildcard ht _)

/-- The bound that stands for the type is none of the variables either. -/
theorem of_firstBound? (ht : Unshadowed own t) (h : Uncaptured own outer)
    (hu : t.firstBound? outer = some u) : Unshadowed own u := by
  cases ht with
  | free ht =>
    rw [firstBound?, if_neg (by simp [ht.1])] at hu
    obtain ⟨p, hp, hbound⟩ := Option.bind_eq_some_iff.mp hu
    exact h p (List.mem_of_find?_eq_some hp) u hbound
  | wildcard ht hbound => exact hbound u ((firstBound?_of_isWildcard ht _ _).trans hu)

/-- Variables in front of others do not matter to a type that never comes to one of them. -/
theorem erasedName_append (ht : Unshadowed own t) (h : Uncaptured own outer) (steps : Nat) :
    erasedName (own ++ outer) steps t = erasedName outer steps t := by
  induction steps using Nat.strong_induction_on generalizing t with
  | _ steps ih =>
    refine erasedName_congr rfl ht.isFree_append_iff ht.firstBound?_append ?_
    intro bound hbound n hn
    have hnext : t.firstBound? outer = some bound := ht.firstBound?_append.symm.trans hbound
    exact ih n hn (ht.of_firstBound? h hnext)

end Unshadowed

theorem lexicalName_of_isFree (ht : t.IsFree own) (steps : Nat) :
    lexicalName own outer steps t = erasedName outer steps t := by
  rw [lexicalName.eq_def]
  exact if_pos ht

theorem lexicalName_of_not_isFree (ht : ¬ t.IsFree own) (steps : Nat) :
    lexicalName own outer steps t =
      match t.firstBound? own, steps with
      | some bound, steps + 1 => lexicalName own outer steps bound
      | _, _ => object := by
  rw [lexicalName.eq_def]
  exact if_neg ht

/-- Types of a kind and their images are alike to two lists of variables: what is no variable keeps
its name, and bounds go along. -/
structure Mirrors (own own' : List TypeParameter) (image : TypeRef → TypeRef)
    (kind : TypeRef → Prop) : Prop where
  free : ∀ t, kind t → t.IsFree own → (image t).IsFree own' ∧ (image t).name = t.name
  bound : ∀ t, kind t → ¬ t.IsFree own →
    ¬ (image t).IsFree own' ∧ (image t).firstBound? own' = (t.firstBound? own).map image
  closed : ∀ t u, kind t → t.firstBound? own = some u → kind u

/-- If no bound of the outer variables comes to an image of the inner ones, following bounds from
the image of a type reads all bounds in the right scope. -/
theorem Mirrors.erasedName_eq
    {own' : List TypeParameter} {image : TypeRef → TypeRef} {kind : TypeRef → Prop}
    (hmirrors : Mirrors own own' image kind) (h : Uncaptured own' outer) (steps : Nat)
    {t : TypeRef} (ht : kind t) :
    erasedName (own' ++ outer) steps (image t) = lexicalName own outer steps t := by
  by_cases hfree : t.IsFree own
  · -- From here on only the outer variables are left to come to.
    obtain ⟨hfree', hname⟩ := hmirrors.free t ht hfree
    rw [(Unshadowed.free hfree').erasedName_append h, lexicalName_of_isFree hfree]
    exact erasedName_congr hname (isFree_congr hname) (firstBound?_congr hfree'.1 hname)
      fun _ _ _ _ => rfl
  · obtain ⟨hfree', hbounds⟩ := hmirrors.bound t ht hfree
    have hboth : ¬ (image t).IsFree (own' ++ outer) := fun hall => hfree' (isFree_append.mp hall).1
    have himage : (image t).firstBound? (own' ++ outer) = (t.firstBound? own).map image :=
      (firstBound?_append_of_not_isFree hfree').trans hbounds
    rw [lexicalName_of_not_isFree hfree]
    cases hbound : t.firstBound? own with
    | none =>
      rw [hbound] at himage
      exact erasedName_of_isUnbounded ⟨hboth, himage⟩ steps
    | some bound =>
      rw [hbound] at himage
      cases steps with
      | zero => exact (erasedName_of_firstBound?_eq_some himage).1
      | succ steps =>
        rw [(erasedName_of_firstBound?_eq_some himage).2]
        exact hmirrors.erasedName_eq h steps (hmirrors.closed t bound ht hbound)

/-- Bounds are read in the right scope if none of the class comes to a variable of the method. -/
theorem lexicalName_of_uncaptured (h : Uncaptured own outer) (steps : Nat) (t : TypeRef) :
    lexicalName own outer steps t = erasedName (own ++ outer) steps t := by
  have hmirrors : Mirrors own own id fun _ => True :=
    { free := fun t _ hfree => ⟨hfree, rfl⟩
      bound := fun t _ hbound => ⟨hbound, by simp⟩
      closed := fun _ _ _ _ => trivial }
  exact (hmirrors.erasedName_eq h steps trivial).symm

/-! ## New names for the variables of a method -/

/-- A type in which no variable of the list occurs does not come to one. -/
theorem unshadowed_of_names :
    (t : TypeRef) → (∀ name ∈ t.names, name = "?" ∨ ¬ Declares own name) → Unshadowed own t
  | ⟨name, arguments, dimensions, bound, nullability, annotations⟩, h => by
    by_cases hname : name = "?"
    · refine .wildcard (by simp [isWildcard, hname]) fun u hu => ?_
      rcases bound with _ | ⟨⟨u'⟩ | ⟨u'⟩⟩
      · simp [firstBound?, isWildcard, hname] at hu
      · obtain rfl : u' = u := by simpa [firstBound?, isWildcard, hname] using hu
        exact unshadowed_of_names u' fun n hn => h n (by simp [names, namesBound, hn])
      · simp [firstBound?, isWildcard, hname] at hu
    · have hfree := (h name (by simp [names])).resolve_left hname
      exact .free ⟨by simp [isWildcard, hname], hfree⟩

end TypeRef

namespace Method

/-- Name and erased parameter types, for a method of a class with the given type variables, with
every bound read where it was declared. -/
def lexicalSignatureIn (scope : List TypeParameter) (m : Method) : String :=
  m.name ++ "(" ++
    Text.join "," (m.parameters.map fun p => p.type.lexicallyErased m.typeParameters scope) ++ ")"

/-- What becomes of a name in a method when its type variables are renamed; the mark of wildcards is
no variable. -/
def ownNames (f : String → String) (m : Method) (name : String) : String :=
  if name ≠ "?" ∧ Declares m.typeParameters name then f name else name

/-- The method with its own type variables renamed throughout: where they are declared, in their
bounds, and in the types of parameters, result and exceptions. -/
def renamedBy (f : String → String) (m : Method) : Method :=
  m.mapNames (m.ownNames f)

theorem renamedBy_typeParameters (f : String → String) (m : Method) :
    (m.renamedBy f).typeParameters =
      m.typeParameters.map (TypeParameter.mapNames (m.ownNames f)) :=
  rfl

/-- New names for the type variables of a method in a class with the given type variables: no two
are alike, and none occurs in the method or in the variables of the class, or is the mark of
wildcards. -/
structure IsFreshNaming (f : String → String) (m : Method) (scope : List TypeParameter) : Prop where
  fresh : ∀ p ∈ m.typeParameters,
    f p.name ∉ "?" :: m.names ++ scope.map TypeParameter.name ++ boundNames scope
  distinct : ∀ p ∈ m.typeParameters, ∀ q ∈ m.typeParameters, f p.name = f q.name → p.name = q.name

theorem name_mem_names (m : Method) {p : TypeParameter} (hp : p ∈ m.typeParameters) :
    p.name ∈ m.names := by
  simp only [names, List.mem_append]
  exact .inl (.inl (.inl (List.mem_map_of_mem hp)))

theorem mem_names_of_bound (m : Method) {p : TypeParameter} (hp : p ∈ m.typeParameters)
    {bound : TypeRef} (hbound : bound ∈ p.bounds) {name : String} (hname : name ∈ bound.names) :
    name ∈ m.names := by
  simp only [names, List.mem_append]
  exact .inl (.inl (.inr (TypeParameter.mem_boundNames hp hbound hname)))

theorem mem_names_of_parameter (m : Method) {p : Parameter} (hp : p ∈ m.parameters) {name : String}
    (hname : name ∈ p.type.names) : name ∈ m.names := by
  have htypes : p.type ∈ m.returnType.toList ++ m.parameters.map Parameter.type :=
    List.mem_append_right _ (List.mem_map_of_mem hp)
  simp only [names, List.mem_append]
  exact .inl (.inr (TypeRef.mem_namesList_of_mem htypes hname))

namespace IsFreshNaming

variable {f : String → String} {m : Method} {scope : List TypeParameter}

/-- A name is kept, or is the old name of a variable that gets a fresh one. -/
theorem ownNames_cases (h : m.IsFreshNaming f scope) (name : String) :
    (m.ownNames f name = name ∧ (name = "?" ∨ ¬ Declares m.typeParameters name)) ∨
      ∃ p ∈ m.typeParameters, p.name = name ∧ name ≠ "?" ∧ m.ownNames f name = f p.name ∧
        f p.name ≠ "?" ∧ f p.name ∉ m.names ∧ f p.name ∉ boundNames scope := by
  by_cases hrenamed : name ≠ "?" ∧ Declares m.typeParameters name
  · obtain ⟨hne, p, hp, rfl⟩ := hrenamed
    have hfresh := h.fresh p hp
    simp only [List.mem_append, List.mem_cons, not_or] at hfresh
    obtain ⟨⟨⟨hmark, hnames⟩, -⟩, hbounds⟩ := hfresh
    exact .inr ⟨p, hp, rfl, hne, if_pos ⟨hne, p, hp, rfl⟩, hmark, hnames, hbounds⟩
  · refine .inl ⟨if_neg hrenamed, ?_⟩
    by_contra hnone
    push Not at hnone
    exact hrenamed hnone

theorem ownNames_eq_wildcard_iff (h : m.IsFreshNaming f scope) (name : String) :
    m.ownNames f name = "?" ↔ name = "?" := by
  rcases h.ownNames_cases name with ⟨hkept, -⟩ | ⟨p, -, -, hne, hnew, hmark, -⟩
  · rw [hkept]
  · rw [hnew]
    exact iff_of_false hmark hne

/-- No two names of the method become alike. -/
theorem eq_of_ownNames_eq
    (h : m.IsFreshNaming f scope) {name name' : String} (hname : name ∈ m.names)
    (hname' : name' ∈ m.names) (heq : m.ownNames f name = m.ownNames f name') : name = name' := by
  rcases h.ownNames_cases name with ⟨hkept, -⟩ | ⟨p, hp, rfl, -, hnew, -, hfresh, -⟩ <;>
    rcases h.ownNames_cases name' with ⟨hkept', -⟩ | ⟨q, hq, rfl, -, hnew', -, hfresh', -⟩
  · rw [← hkept, heq, hkept']
  · rw [hkept, hnew'] at heq
    exact absurd (heq ▸ hname) hfresh'
  · rw [hkept', hnew] at heq
    exact absurd (heq ▸ hname') hfresh
  · rw [hnew, hnew'] at heq
    exact h.distinct p hp q hq heq

/-- The new name of a variable is declared where the old one was. -/
theorem declares_ownNames_iff
    (h : m.IsFreshNaming f scope) {name : String} (hname : name ∈ m.names) :
    Declares (m.renamedBy f).typeParameters (m.ownNames f name) ↔
      Declares m.typeParameters name := by
  rw [renamedBy_typeParameters]
  constructor
  · rintro ⟨q, hq, heq⟩
    obtain ⟨p, hp, rfl⟩ := List.mem_map.mp hq
    exact ⟨p, hp, h.eq_of_ownNames_eq (m.name_mem_names hp) hname heq⟩
  · rintro ⟨p, hp, rfl⟩
    exact ⟨_, List.mem_map_of_mem hp, rfl⟩

theorem isWildcard_mapNames (h : m.IsFreshNaming f scope) (t : TypeRef) :
    (t.mapNames (m.ownNames f)).isWildcard = t.isWildcard := by
  rw [Bool.eq_iff_iff]
  simpa [TypeRef.isWildcard] using h.ownNames_eq_wildcard_iff t.name

theorem isFree_mapNames_iff (h : m.IsFreshNaming f scope) {t : TypeRef} (ht : t.name ∈ m.names) :
    (t.mapNames (m.ownNames f)).IsFree (m.renamedBy f).typeParameters ↔
      t.IsFree m.typeParameters := by
  rw [TypeRef.IsFree, TypeRef.IsFree, h.isWildcard_mapNames, TypeRef.mapNames_name,
    h.declares_ownNames_iff ht]

/-- Looking up the new name of a variable finds the variable that the old one finds. -/
theorem find?_ownNames (h : m.IsFreshNaming f scope) {name : String} (hname : name ∈ m.names) :
    (m.renamedBy f).typeParameters.find? (fun p => p.name == m.ownNames f name) =
      (m.typeParameters.find? fun p => p.name == name).map
        (TypeParameter.mapNames (m.ownNames f)) := by
  rw [renamedBy_typeParameters, List.find?_map]
  refine congrArg _ (KeepsLookup.find?_eq_of_forall fun p hp => ?_)
  rw [Bool.eq_iff_iff]
  simpa [TypeParameter.mapNames] using
    ⟨fun heq => h.eq_of_ownNames_eq (m.name_mem_names hp) hname heq, congrArg _⟩

theorem firstBound?_mapNames (h : m.IsFreshNaming f scope) {t : TypeRef} (ht : t.name ∈ m.names) :
    (t.mapNames (m.ownNames f)).firstBound? (m.renamedBy f).typeParameters =
      (t.firstBound? m.typeParameters).map (TypeRef.mapNames (m.ownNames f)) := by
  rw [TypeRef.firstBound?, TypeRef.firstBound?, h.isWildcard_mapNames, TypeRef.mapNames_name,
    TypeRef.mapNames_bound, h.find?_ownNames ht]
  split
  · rcases t.bound with _ | ⟨⟨bound⟩ | ⟨bound⟩⟩ <;> rfl
  · cases m.typeParameters.find? fun p => p.name == t.name with
    | none => rfl
    | some p => simp [TypeParameter.mapNames]

/-- The types of the method under new names are alike to those under the old ones. -/
theorem mirrors (h : m.IsFreshNaming f scope) :
    TypeRef.Mirrors m.typeParameters (m.renamedBy f).typeParameters
      (TypeRef.mapNames (m.ownNames f)) fun t => ∀ name ∈ t.names, name ∈ m.names where
  free := by
    intro t ht hfree
    have hname := ht t.name t.name_mem_names
    refine ⟨(h.isFree_mapNames_iff hname).mpr hfree, ?_⟩
    rw [TypeRef.mapNames_name]
    exact if_neg fun hrenamed => hfree.2 hrenamed.2
  bound := by
    intro t ht hbound
    have hname := ht t.name t.name_mem_names
    refine ⟨fun hfree => ?_, h.firstBound?_mapNames hname⟩
    exact hbound ((h.isFree_mapNames_iff hname).mp hfree)
  closed := by
    intro t u ht hu name hname
    rw [TypeRef.firstBound?] at hu
    split at hu
    · split at hu
      · rename_i hupper
        cases hu
        exact ht name (t.mem_names_of_upper hupper hname)
      · cases hu
    · obtain ⟨p, hp, hbound⟩ := Option.bind_eq_some_iff.mp hu
      exact m.mem_names_of_bound (List.mem_of_find?_eq_some hp) (List.mem_of_mem_head? hbound) hname

/-- No bound of the class comes to a variable with a new name. -/
theorem uncaptured (h : m.IsFreshNaming f scope) :
    TypeRef.Uncaptured (m.renamedBy f).typeParameters scope := by
  intro p hp bound hbound
  refine TypeRef.unshadowed_of_names bound fun name hname => ?_
  have hused : name ∈ boundNames scope :=
    TypeParameter.mem_boundNames hp (List.mem_of_mem_head? hbound) hname
  by_contra hnone
  push Not at hnone
  obtain ⟨hne, q, hq, heq⟩ := hnone
  rw [renamedBy_typeParameters] at hq
  obtain ⟨v, hv, rfl⟩ := List.mem_map.mp hq
  -- Only the mark of wildcards can be declared and kept, and it is never looked up.
  rcases h.ownNames_cases v.name with ⟨hkept, hmark⟩ | ⟨w, -, -, -, hnew, -, -, hfresh⟩
  · have hname : v.name = name := hkept.symm.trans heq
    rcases hmark with hmark | hundeclared
    · exact hne (hname.symm.trans hmark)
    · exact hundeclared ⟨v, hv, rfl⟩
  · exact hfresh (hnew.symm.trans heq ▸ hused)

/-- The signature under new names is that with every bound read where it was declared. -/
theorem signatureIn_renamedBy (h : m.IsFreshNaming f scope) :
    (m.renamedBy f).signatureIn scope = m.lexicalSignatureIn scope := by
  have hparameters : ∀ p ∈ m.parameters,
      (p.type.mapNames (m.ownNames f)).erased ((m.renamedBy f).typeParameters ++ scope) =
        p.type.lexicallyErased m.typeParameters scope := by
    intro p hp
    have hnames : ∀ name ∈ p.type.names, name ∈ m.names := fun name => m.mem_names_of_parameter hp
    rw [TypeRef.erased, TypeRef.lexicallyErased, h.mirrors.erasedName_eq h.uncaptured _ hnames,
      TypeRef.mapNames_dimensions]
  have htypes : ((m.renamedBy f).parameters.map fun p =>
      p.type.erased ((m.renamedBy f).typeParameters ++ scope)) =
        m.parameters.map fun p => p.type.lexicallyErased m.typeParameters scope := by
    rw [← List.map_congr_left hparameters, renamedBy, mapNames, List.map_map]
    rfl
  rw [signatureIn, lexicalSignatureIn, htypes]
  rfl

end IsFreshNaming

/-- No bound of the class comes to a variable of the method. -/
theorem lexicalSignatureIn_of_uncaptured {m : Method} {scope : List TypeParameter}
    (h : TypeRef.Uncaptured m.typeParameters scope) :
    m.lexicalSignatureIn scope = m.signatureIn scope := by
  simp only [lexicalSignatureIn, signatureIn, TypeRef.lexicallyErased, TypeRef.erased,
    TypeRef.lexicalName_of_uncaptured h]

/-- The erased signature of a method does not change with the names of its type variables exactly
if reading every bound where it was declared does not change it.  It does not change if no first
bound of the class is a variable of the method. -/
theorem signatureIn_renamedBy_eq_iff
    {f : String → String} {m : Method} {scope : List TypeParameter} (h : m.IsFreshNaming f scope) :
    ((m.renamedBy f).signatureIn scope = m.signatureIn scope ↔
        m.lexicalSignatureIn scope = m.signatureIn scope) ∧
      (TypeRef.Uncaptured m.typeParameters scope →
        (m.renamedBy f).signatureIn scope = m.signatureIn scope) := by
  rw [h.signatureIn_renamedBy]
  exact ⟨Iff.rfl, lexicalSignatureIn_of_uncaptured⟩

/-- A method `<T extends U> void sort(T, U[])`, which hides a variable of its class. -/
def sorter : Method where
  name := "sort"
  owner := "a.Sieve"
  modifiers := {}
  returnType := some (TypeRef.named "void")
  typeParameters := [{ name := "T", bounds := [TypeRef.named "U"] }]
  parameters := [{ type := TypeRef.named "T" }, { type := (TypeRef.named "U").array 1 }]

/-- Variables `T extends java.lang.Comparable<T>` and `U extends java.lang.Number` of a class. -/
def sieveVariables : List TypeParameter :=
  [{ name := "T"
     bounds := [{ name := "java.lang.Comparable", arguments := [TypeRef.named "T"] }] },
    { name := "U", bounds := [TypeRef.named "java.lang.Number"] }]

theorem sorter_signatureIn_renamedBy :
    sorter.IsFreshNaming (fun _ => "X") sieveVariables ∧
      TypeRef.Uncaptured sorter.typeParameters sieveVariables ∧
      (sorter.renamedBy fun _ => "X").signatureIn sieveVariables =
        "sort(java.lang.Number,java.lang.Number[])" := by
  have hfresh : sorter.IsFreshNaming (fun _ => "X") sieveVariables := ⟨by decide, by decide⟩
  have huncaptured : TypeRef.Uncaptured sorter.typeParameters sieveVariables := by
    intro p hp bound hbound
    simp only [sieveVariables, List.mem_cons, List.not_mem_nil, or_false] at hp
    rcases hp with rfl | rfl <;> cases hbound <;> exact .free (by decide)
  have hsignature : sorter.signatureIn sieveVariables =
      "sort(java.lang.Number,java.lang.Number[])" := by decide
  exact ⟨hfresh, huncaptured,
    ((signatureIn_renamedBy_eq_iff hfresh).2 huncaptured).trans hsignature⟩

/-- A method `<S extends java.lang.String> void fill(T)`. -/
def filler : Method where
  name := "fill"
  owner := "a.Bin"
  modifiers := {}
  returnType := some (TypeRef.named "void")
  typeParameters := [{ name := "S", bounds := [TypeRef.named "java.lang.String"] }]
  parameters := [{ type := TypeRef.named "T" }]

/-- Variables `S extends java.lang.Number` and `T extends S` of a class. -/
def binVariables : List TypeParameter :=
  [{ name := "S", bounds := [TypeRef.named "java.lang.Number"] },
    { name := "T", bounds := [TypeRef.named "S"] }]

/-- The bound of `T` is taken for the variable of the method, until that has another name. -/
theorem filler_captures :
    filler.IsFreshNaming (fun _ => "X") binVariables ∧
      filler.signatureIn binVariables = "fill(java.lang.String)" ∧
      (filler.renamedBy fun _ => "X").signatureIn binVariables = "fill(java.lang.Number)" := by
  exact ⟨⟨by decide, by decide⟩, by decide, by decide⟩

end Method
end ApiSurface
