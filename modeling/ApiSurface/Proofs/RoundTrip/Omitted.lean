import ApiSurface.Proofs.RoundTrip.Lossless

/-!
# Packages that are left off names

A name is written without its package if the package can be put back in front of what is left.
Reading puts it back unless what is left is a primitive or a type variable in scope.  So a text
from which packages are left off is read back exactly if, at each place, what is left of a name is
neither, and a name without a package is one of them.
-/

namespace ApiSurface
namespace Signature

instance (s : WriteSettings) (scope : List String) (name : String) :
    Decidable (s.Keeps scope name) :=
  inferInstanceAs (Decidable (∀ common ∈ s.omitted, _))

instance (s : WriteSettings) (cb : Codebase) (c : ClassDecl) : Decidable (s.KeepsClass cb c) :=
  inferInstanceAs (Decidable (∀ p ∈ s.scopedTypes (s.scopeIn cb c) c, ∀ name ∈ p.2.names, _))

instance (s : WriteSettings) (annotations : List Annotation) :
    Decidable (s.SetsApartAnnotations annotations) :=
  inferInstanceAs (Decidable (∀ a ∈ annotations, _))

instance (s : WriteSettings) (c : ClassDecl) : Decidable (s.SetsApart c) :=
  decidable_of_iff
    (s.SetsApartAnnotations c.annotations ∧
      (∀ m ∈ c.constructors, s.SetsApartAnnotations m.annotations) ∧
      (∀ m ∈ c.methods, s.SetsApartAnnotations m.annotations ∧
        (m.typeParameters = [] → ∀ t ∈ m.returnType,
          Modifiers.isKeyword (s.typeName t.name) = false)) ∧
      ∀ x ∈ c.fields, s.SetsApartAnnotations x.annotations ∧
        Modifiers.isKeyword (s.typeName x.type.name) = false)
    ⟨fun ⟨h₁, h₂, h₃, h₄⟩ => ⟨h₁, h₂, h₃, h₄⟩, fun ⟨h₁, h₂, h₃, h₄⟩ => ⟨h₁, h₂, h₃, h₄⟩⟩

/-- A codebase that was read with packages put back is read back from a text that leaves them off
exactly if each type name is kept where it stands, provided that its classes have nothing that a
text cannot tell and that no name is shortened to a keyword. -/
theorem read_write_omitting_eq_published_iff
    {common : CommonPackages} (hproper : common.IsProper) {options : ReadOptions}
    (hcommon : options.common = some common) {text : String} {origin cb : Codebase}
    (hread : read options text = .ok origin) (hstates : cb.bare = origin.bare)
    (hexpressible : ∀ c ∈ cb.classes.items, IsExpressible c) {format : Format}
    (hformat : format ≠ .v1) (view : View) (order : MemberOrder)
    (hapart : ∀ c ∈ (format.settings (some common) view order).writtenClasses cb,
      (format.settings (some common) view order).SetsApart c) :
    (∃ written, write { format, omitCommon := true, common, view, order } cb = .ok written ∧
        read { common := some common } written = .ok (cb.published view order)) ↔
      ∀ c ∈ (format.settings (some common) view order).writtenClasses cb,
        (format.settings (some common) view order).KeepsClass cb c := by
  have hproper : ∀ packages ∈ some common, packages.IsProper := by
    simpa using hproper
  have hcb : IsReadCodebase (some common) cb := by
    rw [← hcommon]
    exact isReadCodebase_of_states (by rwa [hcommon]) hread hstates
  have hplain := isPlainClass_of_mem_writtenClasses hcb hexpressible hapart
  rw [← read_codebaseText_eq_published_iff hformat hproper hcb view order hplain
    fun c hc => (hexpressible c hc).root, write_omitting_eq hformat]
  simp only [Except.ok.injEq, exists_eq_left']

/-- A class with a type variable, which its nested class uses next to one of a common package. -/
def pageText (letter : String) : String :=
  "package a \x7b class Page<" ++ letter ++ "> \x7b \x7d class Page.Row \x7b method <R> R cell(" ++
    letter ++ ", java.lang.Text); \x7d \x7d"

def pageOnly (letter : String) : Codebase :=
  let cell : Method :=
    { name := "cell", owner := "a.Page.Row", modifiers := {}, returnType := some (.named "R")
      typeParameters := [{ name := "R" }]
      parameters := [{ type := .named letter }, { type := .named "java.lang.Text" }] }
  { packages := ⟨[{ name := "a", classNames := ⟨["a.Page", "a.Page.Row"], by decide⟩ }], by decide⟩
    classes :=
      ⟨[{ ClassDecl.declare "a" "Page" .ordinary with typeParameters := [{ name := letter }] },
        { ClassDecl.declare "a" "Page.Row" .ordinary with methods := [cell] }],
        List.pairwise_pair.mpr (show "a.Page" < "a.Page.Row" by decide)⟩ }

theorem isProper_default : CommonPackages.IsProper {} :=
  ⟨by decide, by decide, by decide, by decide⟩

theorem pageOnly_read_write :
    read { common := some {} } (pageText "T") = .ok (pageOnly "T") ∧
      (∀ c ∈ (pageOnly "T").classes.items, IsExpressible c) ∧
      ∃ written, write { format := .v3, omitCommon := true } (pageOnly "T") = .ok written ∧
        read { common := some {} } written =
          .ok ((pageOnly "T").published .live .accessThenName) := by
  have hread : read { common := some {} } (pageText "T") = .ok (pageOnly "T") := by decide +kernel
  have hexpressible : ∀ c ∈ (pageOnly "T").classes.items, IsExpressible c := by decide +kernel
  exact ⟨hread, hexpressible, (read_write_omitting_eq_published_iff isProper_default rfl hread rfl
    hexpressible (by decide) .live .accessThenName (by decide +kernel)).mpr (by decide +kernel)⟩

/-- A class that is shortened to the name of a type variable in scope is read as the variable. -/
theorem pageOnly_not_read_write :
    read { common := some {} } (pageText "Text") = .ok (pageOnly "Text") ∧
      (∀ c ∈ (pageOnly "Text").classes.items, IsExpressible c) ∧
      ¬ ∃ written, write { format := .v3, omitCommon := true } (pageOnly "Text") = .ok written ∧
        read { common := some {} } written =
          .ok ((pageOnly "Text").published .live .accessThenName) := by
  refine ⟨by decide +kernel, by decide +kernel, ?_⟩
  rw [← bind_eq_ok]
  decide +kernel

end Signature
end ApiSurface
