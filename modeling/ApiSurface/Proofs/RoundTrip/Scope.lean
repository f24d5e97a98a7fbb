import ApiSurface.Proofs.RoundTrip.TypeList

/-!
# The variables that a list declares

The names that a list of type variables declares are looked up in the tokens ahead, by counting
angle brackets.  The brackets of what is written are balanced, so the look ends with the list, and
what it finds depends on the text of the list alone.
-/

namespace ApiSurface
namespace Signature

open Annotation (Value)
open Scan (IsName Spells Anything separated)

/-! ## Looking ahead in signs -/

/-- The names that a list of type variables declares, looked up ahead in its signs. -/
def declaredIn : (depth : Nat) → (due : Bool) → List Sign → List String
  | _, _, [] => []
  | depth, due, s :: signs =>
    if s.isMark "<" then declaredIn (depth + 1) (depth == 0) signs
    else if s.isMark ">" then
      if depth ≤ 1 then [] else declaredIn (depth - 1) due signs
    else if s.isMark "," && depth == 1 then declaredIn depth true signs
    else if s.isName && due then s.text :: declaredIn depth false signs
    else declaredIn depth false signs

theorem declaredVariables_of_renders
    {ts : List Token} {signs : List Sign} (h : Renders ts signs) (depth : Nat) (due : Bool) :
    declaredVariables depth due ts = declaredIn depth due signs := by
  induction h generalizing depth due with
  | nil => rfl
  | cons hs _ ih =>
    rw [declaredVariables, declaredIn, hs.isMark_eq, hs.isMark_eq, hs.isMark_eq, hs.kind, hs.text]
    simp only [ih, Sign.isName]
    rfl

/-- Inside a list, the look goes past the signs, whatever follows them. -/
def Passes (signs : List Sign) : Prop :=
  ∀ depth due, ∃ names due', ∀ others,
    declaredIn (depth + 1) due (signs ++ others) = names ++ declaredIn (depth + 1) due' others

namespace Passes

theorem nil : Passes [] :=
  fun _ due => ⟨[], due, fun _ => rfl⟩

theorem append {signs others : List Sign} (h : Passes signs) (h' : Passes others) :
    Passes (signs ++ others) := by
  intro depth due
  obtain ⟨names, due', hnames⟩ := h depth due
  obtain ⟨names', due'', hnames'⟩ := h' depth due'
  refine ⟨names ++ names', due'', fun more => ?_⟩
  rw [List.append_assoc, hnames, hnames', List.append_assoc]

theorem sign {s : Sign} (hopen : s.isMark "<" = false) (hclose : s.isMark ">" = false) :
    Passes [s] := by
  intro depth due
  by_cases hcomma : (s.isMark "," && depth + 1 == 1) = true
  · refine ⟨[], true, fun others => ?_⟩
    simp only [List.cons_append, List.nil_append, declaredIn, hopen, hclose, hcomma]
    rfl
  · by_cases hname : (s.isName && due) = true
    · refine ⟨[s.text], false, fun others => ?_⟩
      simp only [List.cons_append, List.nil_append, declaredIn, hopen, hclose, hcomma, hname]
      rfl
    · refine ⟨[], false, fun others => ?_⟩
      simp only [List.cons_append, List.nil_append, declaredIn, hopen, hclose, hcomma, hname]
      rfl

theorem word (text : String) : Passes [.word text] :=
  sign (by simp) (by simp)

theorem mark {text : String} (hopen : text ≠ "<") (hclose : text ≠ ">") : Passes [.mark text] :=
  sign (by simpa using hopen) (by simpa using hclose)

theorem cons {s : Sign} {signs : List Sign} (hs : Passes [s]) (h : Passes signs) :
    Passes (s :: signs) :=
  hs.append h

theorem flatMap
    {α : Type} {signs : α → List Sign} {xs : List α} (h : ∀ x ∈ xs, Passes (signs x)) :
    Passes (xs.flatMap signs) := by
  induction xs with
  | nil => exact nil
  | cons x xs ih =>
    rw [List.flatMap_cons]
    exact (h x List.mem_cons_self).append (ih fun y hy => h y (List.mem_cons_of_mem _ hy))

theorem separated
    {s : Sign} (hs : Passes [s]) {xs : List (List Sign)} (h : ∀ x ∈ xs, Passes x) :
    Passes (Scan.separated s xs) := by
  induction xs with
  | nil => exact nil
  | cons x xs ih =>
    cases xs with
    | nil => exact h x List.mem_cons_self
    | cons y ys =>
      rw [Scan.separated_cons_cons]
      exact (h x List.mem_cons_self).append
        (hs.cons (ih fun z hz => h z (List.mem_cons_of_mem _ hz)))

/-- The look goes past a list inside a list. -/
theorem angle {xs : List (List Sign)} (h : ∀ x ∈ xs, Passes x) : Passes (angleSigns xs) := by
  cases xs with
  | nil => exact nil
  | cons x xs =>
    have hinside := separated (mark (show "," ≠ "<" by decide) (by decide)) h
    intro depth due
    obtain ⟨names, due', hnames⟩ := hinside (depth + 1) false
    refine ⟨names, due', fun others => ?_⟩
    have hopen : declaredIn (depth + 1) due (angleSigns (x :: xs) ++ others) =
        declaredIn (depth + 2) false
          (Scan.separated (.mark ",") (x :: xs) ++ (.mark ">" :: others)) := by
      simp [angleSigns, declaredIn]
    have hclose : declaredIn (depth + 2) due' (.mark ">" :: others) =
        declaredIn (depth + 1) due' others := by
      simp [declaredIn]
    rw [hopen, hnames, hclose]

end Passes

/-! ## What is written is passed -/

namespace WriteSettings

variable (s : WriteSettings)

theorem passes_literal (l : Annotation.Literal) : Passes [literalSign l] := by
  cases l with
  | string _ => exact .sign rfl rfl
  | number _ => exact .sign rfl rfl
  | character _ => exact .sign rfl rfl
  | boolean _ => exact .word _
  | classLiteral _ => exact .word _
  | reference _ => exact .word _

theorem passes_arguments
    {attributes : List (String × List Sign)} (h : ∀ a ∈ attributes, Passes a.2) :
    Passes (argumentSigns attributes) := by
  have hopen : Passes [.mark "("] := .mark (by decide) (by decide)
  have hclose : Passes [.mark ")"] := .mark (by decide) (by decide)
  have hcomma : Passes [.mark ","] := .mark (by decide) (by decide)
  have hequals : Passes [.mark "="] := .mark (by decide) (by decide)
  rw [argumentSigns.eq_def]
  split
  · exact .nil
  · rename_i signs
    have hvalue : Passes signs := h _ List.mem_cons_self
    exact (hopen.cons hvalue).append hclose
  · refine (hopen.cons (.separated hcomma fun x hx => ?_)).append hclose
    obtain ⟨a, ha, rfl⟩ := List.mem_map.mp hx
    exact (Passes.word a.1).cons (hequals.cons (h a ha))

mutual

theorem passes_value : (v : Value) → Passes (s.valueSigns v)
  | .literal l => by
    rw [valueSigns]
    exact passes_literal l
  | .array values => by
    have hopen : Passes [.mark Token.openBrace] := .mark (by decide) (by decide)
    have hclose : Passes [.mark Token.closeBrace] := .mark (by decide) (by decide)
    have hcomma : Passes [.mark ","] := .mark (by decide) (by decide)
    rw [valueSigns]
    exact (hopen.cons (.separated hcomma (passes_values values))).append hclose
  | .nested name attributes => by
    have hat : Passes [.mark "@"] := .mark (by decide) (by decide)
    rw [valueSigns]
    exact hat.cons ((Passes.word _).cons (passes_arguments (passes_attributes attributes)))

theorem passes_values : (values : List Value) → ∀ x ∈ s.valuesSigns values, Passes x
  | [] => nofun
  | v :: vs => by
    rw [valuesSigns]
    exact List.forall_mem_cons.mpr ⟨passes_value v, passes_values vs⟩

theorem passes_attributes :
    (attributes : List (String × Value)) → ∀ x ∈ s.attributesSigns attributes, Passes x.2
  | [] => nofun
  | (name, v) :: rest => by
    rw [attributesSigns]
    exact List.forall_mem_cons.mpr ⟨passes_value v, passes_attributes rest⟩

end

theorem passes_annotations (annotations : List Annotation) :
    Passes (annotations.flatMap s.annotationSigns) := by
  have hat : Passes [.mark "@"] := .mark (by decide) (by decide)
  exact .flatMap fun a _ =>
    hat.cons ((Passes.word _).cons (passes_arguments (s.passes_attributes a.attributes)))

theorem passes_dimensions (dimensions : Nat) (varargs : Bool) :
    Passes (dimensionSigns dimensions varargs) := by
  have hopen : Passes [.mark "["] := .mark (by decide) (by decide)
  have hclose : Passes [.mark "]"] := .mark (by decide) (by decide)
  have hbrackets : ∀ n, Passes (bracketSigns n) := by
    intro n
    induction n with
    | zero => exact .nil
    | succ n ih => exact hopen.cons (hclose.cons ih)
  cases varargs with
  | false => exact hbrackets dimensions
  | true => exact (hbrackets (dimensions - 1)).append (.mark (by decide) (by decide))

theorem passes_suffix (n : Nullability) : Passes (suffixSigns n) := by
  cases n with
  | unknown => exact .mark (by decide) (by decide)
  | nullable => exact .mark (by decide) (by decide)
  | nonNull => exact .nil

mutual

theorem passes_type (varargs marked : Bool) :
    (t : TypeRef) → Passes (s.typeSignsWith varargs marked t)
  | ⟨name, arguments, dimensions, bound, nullability, annotations⟩ => by
    have hwildcard : Passes [.mark "?"] := .mark (by decide) (by decide)
    rw [typeSignsWith]
    split
    · exact (s.passes_annotations _).append (hwildcard.cons (passes_bound bound))
    · exact (s.passes_annotations _).append ((Passes.word _).cons
        ((Passes.angle (passes_types arguments)).append
          ((passes_dimensions dimensions varargs).append (passes_suffix _))))

theorem passes_types : (types : List TypeRef) → ∀ x ∈ s.typesSigns types, Passes x
  | [] => nofun
  | t :: ts => by
    rw [typesSigns]
    exact List.forall_mem_cons.mpr ⟨passes_type false true t, passes_types ts⟩

theorem passes_bound : (bound : Option (WildcardBound TypeRef)) → Passes (s.boundSigns bound)
  | none => by
    rw [boundSigns]
    exact .nil
  | some (.upper t) => by
    rw [boundSigns]
    exact (Passes.word _).cons (passes_type false true t)
  | some (.lower t) => by
    rw [boundSigns]
    exact (Passes.word _).cons (passes_type false true t)

end

theorem passes_typeParameter (p : TypeParameter) : Passes (s.typeParameterSigns p) := by
  have hand : Passes [.mark "&"] := .mark (by decide) (by decide)
  obtain ⟨name, bounds⟩ := p
  cases bounds with
  | nil => exact .word name
  | cons t ts =>
    refine (Passes.word name).cons ((Passes.word "extends").cons (.separated hand fun x hx => ?_))
    obtain ⟨u, -, rfl⟩ := List.mem_map.mp hx
    exact s.passes_type false true u

/-! ## The variables of a list -/

/-- The names that a list of type variables puts in scope where it is read: those of the variables,
and any other name behind a comma of the list. -/
def declaredBy (ps : List TypeParameter) : List String :=
  match scan "" (s.typeParametersText ps) with
  | .ok scanned => Source.variablesAhead scanned.tokens
  | .error _ => []

/-- The look ahead ends with the list. -/
theorem exists_variablesAhead (ps : List TypeParameter) :
    ∃ names, ∀ ts others, NotAt "<" others → Renders ts (s.typeParametersSigns ps ++ others) →
      Source.variablesAhead ts = names := by
  cases ps with
  | nil =>
    refine ⟨[], fun ts others hothers hts => ?_⟩
    rw [Source.variablesAhead, atMark_eq_false hts hothers]
    rfl
  | cons p ps =>
    have hinside : Passes (separated (.mark ",") ((p :: ps).map s.typeParameterSigns)) := by
      refine .separated (.mark (by decide) (by decide)) fun x hx => ?_
      obtain ⟨q, -, rfl⟩ := List.mem_map.mp hx
      exact s.passes_typeParameter q
    obtain ⟨names, due, hnames⟩ := hinside 0 true
    refine ⟨names, fun ts others _ hts => ?_⟩
    have hopen : declaredIn 0 false (s.typeParametersSigns (p :: ps) ++ others) =
        declaredIn 1 true (separated (.mark ",") ((p :: ps).map s.typeParameterSigns) ++
          (.mark ">" :: others)) := by
      simp [typeParametersSigns, angleSigns, declaredIn]
    have hclose : declaredIn 1 due (.mark ">" :: others) = [] := by
      simp [declaredIn]
    have hat : atMark "<" ts = true := atMark_of_renders hts "<"
    rw [Source.variablesAhead, if_pos hat, declaredVariables_of_renders hts, hopen, hnames, hclose,
      List.append_nil]

/-- The variables in scope behind a list depend on the list alone. -/
theorem variablesAhead_of_renders
    {common : Option CommonPackages} (hs : s.capabilities.annotations = true)
    {ps : List TypeParameter} (h : ∀ p ∈ ps, IsLegibleVariable common p) {ts : List Token}
    {others : List Sign} (hothers : NotAt "<" others)
    (hts : Renders ts (s.typeParametersSigns ps ++ others)) :
    Source.variablesAhead ts = s.declaredBy ps := by
  obtain ⟨names, hnames⟩ := s.exists_variablesAhead ps
  obtain ⟨scanned, hscan, hrenders⟩ := (spells_typeParameters hs h).scan_eq_ok ""
  rw [hnames ts others hothers hts, declaredBy, hscan]
  exact (hnames _ [] (notAt_nil "<") (by simpa using hrenders)).symm

end WriteSettings

end Signature
end ApiSurface
