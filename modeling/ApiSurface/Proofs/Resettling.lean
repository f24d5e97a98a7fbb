import ApiSurface.Proofs.Decisions

/-!
# Settling a codebase again

Settling decides about packages, classes and members and leaves the rest of a codebase alone.  An
item is decided from its declaration and from the decisions about what it is inside of, never from
what was decided about it before.  Hence a codebase whose decisions are taken back is settled in the
same way, and of several settlements in a row only the last one counts.
-/

namespace ApiSurface

/-! ## Taking decisions back -/

/-- The package with the decision about it taken back; whether it is shown is not decided. -/
def Package.undecided (p : Package) : Package :=
  { p with exposure := { p.exposure with lifecycle := .visible } }

/-- The method with the decision about it taken back. -/
def Method.undecided (m : Method) : Method :=
  { m with exposure := {} }

/-- The field with the decision about it taken back. -/
def Field.undecided (f : Field) : Field :=
  { f with exposure := {} }

/-- The class with the decisions about it and its members taken back. -/
def ClassDecl.undecided (c : ClassDecl) : ClassDecl :=
  { c with
    constructors := c.constructors.map Method.undecided
    methods := c.methods.map Method.undecided
    fields := c.fields.map Field.undecided
    exposure := {} }

/-- The codebase with all decisions taken back.  Codebases that agree in this differ at most in the
lifecycles of packages and in the exposures of classes and members. -/
def Codebase.undecided (cb : Codebase) : Codebase :=
  { packages := cb.packages.map Package.undecided fun _ => rfl
    classes := cb.classes.map ClassDecl.undecided fun _ => rfl }

namespace Surface

variable {rules : SurfaceRules} {cb : Codebase}

theorem undecided_settleClass (c : ClassDecl) :
    (settleClass rules cb c).undecided = c.undecided := by
  simp only [settleClass, ClassDecl.undecided, List.map_map]
  rfl

/-- Settling changes nothing but decisions. -/
theorem undecided_settle (cb : Codebase) (rules : SurfaceRules) :
    (cb.settle rules).undecided = cb.undecided := by
  refine (Codebase.mk.injEq ..).mpr ⟨?_, ?_⟩
  · exact Catalog.map_map cb.packages (settlePackage rules) _ (fun _ => rfl) _
  · refine (Catalog.map_map cb.classes (settleClass rules cb) _ (fun _ => rfl) _).trans ?_
    exact Catalog.map_congr undecided_settleClass

/-! ## Earlier decisions do not matter -/

theorem around?_undecided (cb : Codebase) (c : ClassDecl) :
    cb.undecided.around? c.undecided = (cb.around? c).map ClassDecl.undecided := by
  have hsame : cb.undecided.around? c.undecided = cb.undecided.around? c :=
    Codebase.around?_congr rfl rfl
  rw [hsame, Codebase.around?, Codebase.around?]
  cases c.containingClass with
  | none => rfl
  | some name => exact Catalog.find?_map cb.classes ClassDecl.undecided (fun _ => rfl) name

theorem packageContext_undecided (name : String) :
    packageContext rules cb.undecided name = packageContext rules cb name := by
  have hfound : cb.undecided.package? name = (cb.package? name).map Package.undecided :=
    Catalog.find?_map cb.packages Package.undecided (fun _ => rfl) name
  rw [packageContext, packageContext, hfound]
  cases cb.package? name with
  | none => rfl
  | some p => rfl

theorem decision_undecided (c : ClassDecl) :
    decision rules cb.undecided c.undecided = decision rules cb c := by
  refine decision_eq_of_judgeClass_eq (around?_undecided cb) (fun outer c => ?_) c
  have hpackage : packageContext rules cb.undecided c.undecided.package =
      packageContext rules cb c.package := packageContext_undecided c.package
  rw [judgeClass, judgeClass, hpackage]
  rfl

theorem settleClass_undecided (c : ClassDecl) :
    settleClass rules cb.undecided c.undecided = settleClass rules cb c := by
  simp only [settleClass, decision_undecided]
  simp only [ClassDecl.undecided, List.map_map]
  rfl

/-- Settling looks at no decision made before. -/
theorem settle_undecided (cb : Codebase) (rules : SurfaceRules) :
    cb.undecided.settle rules = cb.settle rules := by
  refine (Codebase.mk.injEq ..).mpr ⟨?_, ?_⟩
  · exact Catalog.map_map cb.packages Package.undecided _ (fun _ => rfl) _
  · refine (Catalog.map_map cb.classes ClassDecl.undecided _ (fun _ => rfl) _).trans ?_
    exact Catalog.map_congr settleClass_undecided

/-- Of two settlements in a row the second one counts.  Neither looks at decisions made before or
changes anything else. -/
theorem settle_settle_eq (cb : Codebase) (first second : SurfaceRules) :
    (cb.settle first).settle second = cb.settle second ∧
      cb.undecided.settle first = cb.settle first ∧
      (cb.settle first).undecided = cb.undecided := by
  refine ⟨?_, settle_undecided cb first, undecided_settle cb first⟩
  calc
    (cb.settle first).settle second
      = (cb.settle first).undecided.settle second := (settle_undecided _ second).symm
    _ = cb.undecided.settle second := by rw [undecided_settle]
    _ = cb.settle second := settle_undecided cb second

end Surface
end ApiSurface
