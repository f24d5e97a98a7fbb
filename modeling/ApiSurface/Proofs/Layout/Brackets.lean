import ApiSurface.Proofs.Reading.TypeRef

/-!
# Looking past brackets

The names that a list of type variables declares are looked up by counting angle brackets, before
the list is read.  What the readers of annotations and types take has balanced brackets, so the
look ends with the bracket that ends the list, whatever stands behind it.
-/

namespace ApiSurface
namespace Signature

/-- Inside a list, the look goes past the tokens, whatever follows them. -/
def IsPassed (ts : List Token) : Prop :=
  ∀ depth due, ∃ names due', ∀ others,
    declaredVariables (depth + 1) due (ts ++ others) =
      names ++ declaredVariables (depth + 1) due' others

theorem IsPassed.append {ts us : List Token} (hts : IsPassed ts) (hus : IsPassed us) :
    IsPassed (ts ++ us) := by
  intro depth due
  obtain ⟨names, due₁, hnames⟩ := hts depth due
  obtain ⟨names', due₂, hnames'⟩ := hus depth due₁
  refine ⟨names ++ names', due₂, fun others => ?_⟩
  rw [List.append_assoc, hnames, hnames', List.append_assoc]

theorem isPassed_singleton
    {t : Token} (hopen : t.isMark "<" = false) (hclose : t.isMark ">" = false) : IsPassed [t] := by
  intro depth due
  by_cases hcomma : (t.isMark "," && depth + 1 == 1) = true
  · refine ⟨[], true, fun others => ?_⟩
    simp only [List.cons_append, List.nil_append, declaredVariables, hopen, hclose, hcomma]
    rfl
  · by_cases hname : (t.kind == .identifier && due) = true
    · refine ⟨[t.text], false, fun others => ?_⟩
      simp only [List.cons_append, List.nil_append, declaredVariables, hopen, hclose, hcomma, hname]
      rfl
    · refine ⟨[], false, fun others => ?_⟩
      simp only [List.cons_append, List.nil_append, declaredVariables, hopen, hclose, hcomma, hname]
      rfl

theorem Balanced.isPassed {commas : Bool} {ts : List Token} (h : Balanced commas ts) :
    IsPassed ts := by
  induction h with
  | nil => exact fun _ due => ⟨[], due, fun _ => rfl⟩
  | @single _ t hangle _ _ =>
    rw [Brackets.change_angle] at hangle
    refine isPassed_singleton ?_ ?_
    · cases hopen : t.isMark "<" with
      | false => rfl
      | true => simp [hopen] at hangle
    · cases hclose : t.isMark ">" with
      | false => rfl
      | true => simp [hclose, isMark_of_isMark hclose (show ">" ≠ "<" by decide)] at hangle
  | append _ _ ih ih' => exact ih.append ih'
  | @angle _ t u ts hopen hclose _ ih =>
    intro depth due
    obtain ⟨names, due', hnames⟩ := ih (depth + 1) (depth + 1 == 0)
    have hnot : u.isMark "<" = false := isMark_of_isMark hclose (by decide)
    refine ⟨names, due', fun others => ?_⟩
    rw [List.cons_append, List.cons_append, List.append_assoc, declaredVariables, if_pos hopen,
      hnames]
    simp [declaredVariables, hnot, hclose]
  | @arguments _ t u ts mark close hmark hopen hmark' hclose _ ih =>
    have ht : IsPassed [t] :=
      isPassed_singleton (isMark_of_isMark hopen (by rintro rfl; revert hmark; decide))
        (isMark_of_isMark hopen (by rintro rfl; revert hmark; decide))
    have hu : IsPassed [u] :=
      isPassed_singleton (isMark_of_isMark hclose (by rintro rfl; revert hmark'; decide))
        (isMark_of_isMark hclose (by rintro rfl; revert hmark'; decide))
    exact (ht.append ih).append hu

/-- The look finds the same names in the tokens whether or not others follow. -/
theorem IsPassed.declaredVariables_append
    {ts : List Token} (h : IsPassed ts) (depth : Nat) (due : Bool) :
    ∃ due', ∀ others, declaredVariables (depth + 1) due (ts ++ others) =
      declaredVariables (depth + 1) due ts ++ declaredVariables (depth + 1) due' others := by
  obtain ⟨names, due', hnames⟩ := h depth due
  have halone : declaredVariables (depth + 1) due ts = names := by
    simpa [declaredVariables] using hnames []
  exact ⟨due', fun others => by rw [hnames, halone]⟩

/-- The look for type variables ends with the bracket that closes the list. -/
theorem Source.variablesAhead_angle
    {t u : Token} {ts : List Token} (hopen : t.isMark "<" = true) (hclose : u.isMark ">" = true)
    (hts : IsPassed ts) (others : List Token) :
    variablesAhead (t :: (ts ++ u :: others)) = declaredVariables 1 true ts := by
  have hnot : u.isMark "<" = false := isMark_of_isMark hclose (by decide)
  have hat : atMark "<" (t :: (ts ++ u :: others)) = true := hopen
  obtain ⟨due, hnames⟩ := hts.declaredVariables_append 0 true
  have hend : declaredVariables 1 due (u :: others) = [] := by
    simp [declaredVariables, hnot, hclose]
  rw [variablesAhead, if_pos hat, declaredVariables, if_pos hopen]
  exact (hnames (u :: others)).trans (by rw [hend, List.append_nil])

/-- The look for type variables ends with the list. -/
theorem Source.variablesAhead_append
    {src : Source} {ts others : List Token} {ps : List TypeParameter} (hat : atMark "<" ts = true)
    (h : src.readTypeParameters ts = .ok (ps, [])) :
    variablesAhead (ts ++ others) = variablesAhead ts := by
  rw [readTypeParameters, hat] at h
  obtain ⟨⟨xs, ts₁⟩, hitems, h⟩ := bind_eq_ok.mp h
  obtain ⟨ts₂, hclose, h⟩ := bind_eq_ok.mp h
  cases h
  have hparameter : Yields (Balanced true) src.readTypeParameter _ :=
    fun ts => (yields_typeParameter ts).loosen
  obtain ⟨used, hused, hbalanced, -⟩ :=
    yields_separated (fun _ => Balanced.comma) hparameter _ _ _ _ hitems
  obtain ⟨u, rfl, hu⟩ := exists_of_expectMark hclose
  cases ts with
  | nil => cases hat
  | cons t ts =>
    obtain rfl : ts = used ++ [u] := hused
    have hlook := variablesAhead_angle hat hu hbalanced.isPassed
    rw [List.cons_append, List.append_assoc]
    exact (hlook others).trans (hlook []).symm

end Signature
end ApiSurface
