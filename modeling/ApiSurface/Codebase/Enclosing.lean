import ApiSurface.Codebase

/-!
# Enclosing classes

The classes around a nested class, as far as they are declared.  The name of a class around another
is shorter, so the chain is finite.
-/

namespace ApiSurface

/-- The name of the class around a class is shorter than its own. -/
theorem ClassDecl.length_of_containingClass {c : ClassDecl} {name : String}
    (h : c.containingClass = some name) : name.length < c.qualifiedName.length := by
  obtain ⟨⟨before, behind⟩, hs, rfl⟩ := Option.map_eq_some_iff.mp h
  have hlt := Text.length_of_splitLast hs
  rw [String.length_toList] at hlt
  simp only [ClassDecl.qualifiedName, qualify]
  split
  · simpa using hlt
  · simpa [String.length_append] using hlt

namespace Codebase

/-- The declared classes around a class, innermost first, up to the first that is not declared. -/
def enclosing (cb : Codebase) (c : ClassDecl) : List ClassDecl :=
  match h : c.containingClass with
  | none => []
  | some name =>
    match h' : cb.class? name with
    | none => []
    | some outer => outer :: cb.enclosing outer
termination_by c.qualifiedName.length
decreasing_by
  have hkey : outer.qualifiedName = name := Catalog.key_of_find? h'
  rw [hkey]
  exact ClassDecl.length_of_containingClass h

/-- The class directly around a nested class, if it is declared. -/
def around? (cb : Codebase) (c : ClassDecl) : Option ClassDecl :=
  c.containingClass.bind cb.class?

section

variable {cb : Codebase} {c d e : ClassDecl}

theorem around?_congr (hpackage : c.package = d.package) (hname : c.name = d.name) :
    cb.around? c = cb.around? d := by
  rw [around?, around?, ClassDecl.containingClass, ClassDecl.containingClass, hpackage, hname]

theorem enclosing_eq_nil (h : cb.around? c = none) : cb.enclosing c = [] := by
  rw [enclosing]
  split
  · rfl
  · rename_i name hname
    rw [around?, hname, Option.bind_some] at h
    split
    · rfl
    · rename_i e he
      rw [h] at he
      cases he

theorem enclosing_eq_cons (h : cb.around? c = some e) :
    cb.enclosing c = e :: cb.enclosing e := by
  obtain ⟨name, hname, he⟩ := Option.bind_eq_some_iff.mp h
  rw [enclosing]
  split
  · rename_i hnone
    rw [hnone] at hname
    cases hname
  · rename_i name' hname'
    rw [hname'] at hname
    cases hname
    split
    · rename_i hnone
      rw [hnone] at he
      cases he
    · rename_i e' he'
      rw [he'] at he
      cases he
      rfl

theorem enclosing_congr (hpackage : c.package = d.package) (hname : c.name = d.name) :
    cb.enclosing c = cb.enclosing d := by
  have hsame : cb.around? c = cb.around? d := around?_congr hpackage hname
  cases haround : cb.around? d with
  | none => rw [enclosing_eq_nil haround, enclosing_eq_nil (hsame.trans haround)]
  | some e => rw [enclosing_eq_cons haround, enclosing_eq_cons (hsame.trans haround)]

theorem mem_classes_of_around? (h : cb.around? c = some e) : e ∈ cb.classes.items := by
  obtain ⟨name, -, he⟩ := Option.bind_eq_some_iff.mp h
  exact Catalog.mem_of_find? he

/-- What follows for a class from the class around it holds of every class. -/
theorem around?_induction
    {P : ClassDecl → Prop} (cb : Codebase)
    (step : ∀ c, (∀ e, cb.around? c = some e → P e) → P c) (c : ClassDecl) : P c := by
  induction hlength : c.qualifiedName.length using Nat.strongRecOn generalizing c with
  | _ n ih =>
    refine step c fun e he => ?_
    obtain ⟨name, hname, hclass⟩ := Option.bind_eq_some_iff.mp he
    have hlt := ClassDecl.length_of_containingClass hname
    have hkey : e.qualifiedName = name := Catalog.key_of_find? hclass
    rw [← hkey, hlength] at hlt
    exact ih _ hlt e rfl

/-- Changing classes under their names changes those around a class likewise. -/
theorem enclosing_map
    {cb' : Codebase} {f : ClassDecl → ClassDecl}
    (hf : ∀ c, (f c).package = c.package ∧ (f c).name = c.name)
    (h : ∀ name, cb'.class? name = (cb.class? name).map f) (c : ClassDecl) :
    cb'.enclosing c = (cb.enclosing c).map f := by
  induction c using cb.around?_induction with
  | step c ih =>
    have hmap : cb'.around? c = (cb.around? c).map f := by
      rw [around?, around?, Option.map_bind]
      exact congrArg c.containingClass.bind (funext h)
    cases haround : cb.around? c with
    | none =>
      rw [haround] at hmap
      rw [enclosing_eq_nil haround, enclosing_eq_nil hmap]
      rfl
    | some e =>
      rw [haround] at hmap
      rw [enclosing_eq_cons haround, enclosing_eq_cons hmap, List.map_cons, ← ih e haround]
      rw [enclosing_congr (hf e).1 (hf e).2]

end

end Codebase

end ApiSurface
