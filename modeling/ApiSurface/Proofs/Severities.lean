import ApiSurface.Comparison.Registry
import ApiSurface.Proofs.Rendering
import Mathlib.Data.List.Nodup

/-!
# Severities after a history of changes

A registry is made from settings and then changed: severities of single issues are replaced, and the
promotion of warnings or lints is switched on or off.  What a registry says of an issue after any
such history can be read off the settings and the history.  Hiding an issue once is final; of all
other replacements the last one counts, and of the lists in the settings the last one that names the
issue.
-/

namespace ApiSurface

/-! ## Issues by name -/

namespace Issue

/-- One of the words names the issue, in any spelling. -/
def IsNamedIn (issue : Issue) (words : List String) : Prop :=
  ∃ word ∈ words, spelling word = spelling issue.name

instance (issue : Issue) (words : List String) : Decidable (issue.IsNamedIn words) :=
  inferInstanceAs (Decidable (∃ word ∈ words, spelling word = spelling issue.name))

theorem mem_all (issue : Issue) : issue ∈ all := by
  cases issue <;> decide

/-- No two issues have names that differ in spelling only. -/
theorem eq_of_spelling_eq {a b : Issue} (h : spelling a.name = spelling b.name) : a = b := by
  have hnodup : (all.map fun issue => spelling issue.name).Nodup := by decide +kernel
  exact List.inj_on_of_nodup_map hnodup (mem_all a) (mem_all b) h

theorem ofWord_eq_ok_iff
    {word : String} {issue : Issue} :
    ofWord word = .ok issue ↔ spelling word = spelling issue.name := by
  rw [ofWord]
  constructor
  · intro h
    split at h
    · rename_i found hfound
      cases h
      have hspelling := List.find?_some hfound
      exact (beq_iff_eq.mp hspelling).symm
    · cases h
  · intro h
    split
    · rename_i found hfound
      have hspelling := List.find?_some hfound
      rw [eq_of_spelling_eq ((beq_iff_eq.mp hspelling).trans h)]
    · rename_i hnone
      have hdiffers := List.find?_eq_none.mp hnone issue (mem_all issue)
      exact absurd (beq_iff_eq.mpr h.symm) hdiffers

theorem isNamedIn_cons_iff
    {issue other : Issue} {word : String} {words : List String} (h : ofWord word = .ok other) :
    issue.IsNamedIn (word :: words) ↔ issue = other ∨ issue.IsNamedIn words := by
  have hword : spelling word = spelling issue.name ↔ issue = other := by
    rw [← ofWord_eq_ok_iff, h, Except.ok.injEq, eq_comm]
  simp only [IsNamedIn, List.exists_mem_cons_iff, hword]

end Issue

/-! ## Registries from settings -/

/-- The severity of an issue by the lists of the settings, but for the list of hidden issues. -/
def IssueSettings.listed? (settings : IssueSettings) (issue : Issue) : Option Severity :=
  if issue.IsNamedIn settings.lint then some .lint
  else if issue.IsNamedIn settings.warning then some .warning
  else if issue.IsNamedIn settings.error then some .error
  else none

theorem IssueSettings.listed?_ne_hidden (settings : IssueSettings) (issue : Issue) :
    settings.listed? issue ≠ some .hidden := by
  rw [listed?]
  split
  · decide
  split
  · decide
  split
  · decide
  · decide

namespace Registry

variable {r q : Registry} {settings : IssueSettings}

/-- A list of names replaces the severities of the issues it names, and changes nothing else. -/
theorem assignAll_eq_ok
    {severity : Severity} {words : List String} (h : r.assignAll severity words = .ok q) :
    (∀ issue, q.overrides issue =
        if issue.IsNamedIn words then some severity else r.overrides issue) ∧
      q.warningsAsErrors = r.warningsAsErrors ∧ q.lintsAsErrors = r.lintsAsErrors := by
  induction words generalizing r with
  | nil =>
    cases h
    exact ⟨fun issue => by simp [Issue.IsNamedIn], rfl, rfl⟩
  | cons word words ih =>
    obtain ⟨other, hword, h⟩ := bind_eq_ok.mp h
    obtain ⟨hoverrides, hflags⟩ := ih h
    refine ⟨fun issue => ?_, hflags⟩
    rw [hoverrides, assign]
    simp only [Issue.isNamedIn_cons_iff hword]
    by_cases hsame : issue = other
    · simp [hsame]
    · simp [hsame]

theorem ofSettings_eq_ok (h : ofSettings settings = .ok r) :
    (∀ issue, r.overrides issue =
        if issue.IsNamedIn settings.hide then some .hidden else settings.listed? issue) ∧
      r.warningsAsErrors = settings.warningsAsErrors ∧
      r.lintsAsErrors = settings.lintsAsErrors := by
  obtain ⟨r₁, herror, h⟩ := bind_eq_ok.mp h
  obtain ⟨r₂, hwarning, h⟩ := bind_eq_ok.mp h
  obtain ⟨r₃, hlint, hhide⟩ := bind_eq_ok.mp h
  obtain ⟨herror, hwarnings₁, hlints₁⟩ := assignAll_eq_ok herror
  obtain ⟨hwarning, hwarnings₂, hlints₂⟩ := assignAll_eq_ok hwarning
  obtain ⟨hlint, hwarnings₃, hlints₃⟩ := assignAll_eq_ok hlint
  obtain ⟨hhide, hwarnings, hlints⟩ := assignAll_eq_ok hhide
  refine ⟨fun issue => ?_, ?_, ?_⟩
  · rw [hhide, hlint, hwarning, herror, IssueSettings.listed?]
  · rw [hwarnings, hwarnings₃, hwarnings₂, hwarnings₁]
  · rw [hlints, hlints₃, hlints₂, hlints₁]

/-! ## Histories -/

/-- A change to a registry. -/
inductive Change where
  /-- Replace the severity of an issue. -/
  | override (issue : Issue) (severity : Severity)
  /-- Tell whether warnings count as errors. -/
  | warnings (asErrors : Bool)
  /-- Tell whether lints count as errors. -/
  | lints (asErrors : Bool)
  deriving DecidableEq

namespace Change

def severityOf? (issue : Issue) : Change → Option Severity
  | override other severity => if other = issue then some severity else none
  | _ => none

def warnings? : Change → Option Bool
  | warnings asErrors => some asErrors
  | _ => none

def lints? : Change → Option Bool
  | lints asErrors => some asErrors
  | _ => none

end Change

def apply (r : Registry) : Change → Registry
  | .override issue severity => r.withOverride issue severity
  | .warnings asErrors => { r with warningsAsErrors := asErrors }
  | .lints asErrors => { r with lintsAsErrors := asErrors }

def after (r : Registry) (history : List Change) : Registry :=
  history.foldl apply r

@[simp]
theorem overrides_withOverride (r : Registry) (other : Issue) (severity : Severity)
    (issue : Issue) :
    (r.withOverride other severity).overrides issue =
      if other = issue ∧ r.overrides issue ≠ some .hidden then some severity
      else r.overrides issue := by
  rw [withOverride]
  by_cases hsame : other = issue
  · subst hsame
    split
    · rename_i hhidden
      simp [hhidden]
    · rename_i hshown
      simp [assign, hshown]
  · split
    · simp [hsame]
    · simp [assign, hsame, Ne.symm hsame]

@[simp]
theorem warningsAsErrors_withOverride (r : Registry) (issue : Issue) (severity : Severity) :
    (r.withOverride issue severity).warningsAsErrors = r.warningsAsErrors := by
  rw [withOverride]
  split <;> rfl

@[simp]
theorem lintsAsErrors_withOverride (r : Registry) (issue : Issue) (severity : Severity) :
    (r.withOverride issue severity).lintsAsErrors = r.lintsAsErrors := by
  rw [withOverride]
  split <;> rfl

/-- Registries that say the same of every issue and of promotion are equal. -/
theorem eq_of_overrides_eq
    (h : ∀ issue, r.overrides issue = q.overrides issue)
    (hwarnings : r.warningsAsErrors = q.warningsAsErrors)
    (hlints : r.lintsAsErrors = q.lintsAsErrors) : r = q := by
  cases r
  cases q
  simp only [mk.injEq]
  exact ⟨funext h, hwarnings, hlints⟩

/-- Replacing the severities of two issues gives the same registry in either order. -/
theorem withOverride_comm
    (r : Registry) {a b : Issue} (h : a ≠ b) (severity severity' : Severity) :
    (r.withOverride a severity).withOverride b severity' =
      (r.withOverride b severity').withOverride a severity := by
  refine eq_of_overrides_eq (fun issue => ?_) (by simp) (by simp)
  by_cases ha : a = issue
  · have hb : b ≠ issue := fun hb => h (ha.trans hb.symm)
    simp [ha, hb]
  · simp [ha]

/-- Something that a change either sets or leaves alone is after a history what the last change of
it set.  The step may rely on an invariant of the registries on the way. -/
theorem after_eq_last
    {α : Type} (value : Registry → α) (set? : Change → Option α) (P : Registry → Prop)
    {history : List Change}
    (hstep : ∀ r, P r → ∀ change ∈ history,
      P (r.apply change) ∧ value (r.apply change) = (set? change).getD (value r))
    {r : Registry} (hr : P r) :
    value (r.after history) = (history.filterMap set?).getLast?.getD (value r) := by
  induction history generalizing r with
  | nil => rfl
  | cons change history ih =>
    obtain ⟨hinvariant, hvalue⟩ := hstep r hr change List.mem_cons_self
    have hrest := ih (fun r hr c hc => hstep r hr c (List.mem_cons_of_mem _ hc)) hinvariant
    rw [after, List.foldl_cons, ← after, hrest, hvalue]
    cases hset : set? change with
    | none => rw [List.filterMap_cons_none hset, Option.getD_none]
    | some x => rw [List.filterMap_cons_some hset, List.getLast?_cons, Option.getD_some,
        Option.getD_some]

theorem warningsAsErrors_after (r : Registry) (history : List Change) :
    (r.after history).warningsAsErrors =
      (history.filterMap Change.warnings?).getLast?.getD r.warningsAsErrors := by
  refine after_eq_last warningsAsErrors Change.warnings? (fun _ => True)
    (fun r _ change _ => ⟨trivial, ?_⟩) trivial
  cases change with
  | override issue severity => exact warningsAsErrors_withOverride r issue severity
  | warnings asErrors => rfl
  | lints asErrors => rfl

theorem lintsAsErrors_after (r : Registry) (history : List Change) :
    (r.after history).lintsAsErrors =
      (history.filterMap Change.lints?).getLast?.getD r.lintsAsErrors := by
  refine after_eq_last lintsAsErrors Change.lints? (fun _ => True)
    (fun r _ change _ => ⟨trivial, ?_⟩) trivial
  cases change with
  | override issue severity => exact lintsAsErrors_withOverride r issue severity
  | warnings asErrors => rfl
  | lints asErrors => rfl

/-- The severity of an issue before promotion. -/
def base (r : Registry) (issue : Issue) : Severity :=
  (r.overrides issue).getD issue.defaultSeverity

theorem base_eq_hidden_iff {r : Registry} {issue : Issue} :
    r.base issue = .hidden ↔ r.overrides issue = some .hidden := by
  have hdefault : issue.defaultSeverity ≠ .hidden := by
    cases issue <;> decide
  rw [base]
  cases r.overrides issue with
  | none => simpa using hdefault
  | some severity => simp

/-- A change gives an issue the severity it names, unless the issue is hidden. -/
theorem base_apply
    (r : Registry) (change : Change) (issue : Issue) :
    (r.apply change).base issue =
      if r.base issue = .hidden then .hidden
      else (change.severityOf? issue).getD (r.base issue) := by
  by_cases hhidden : r.base issue = .hidden
  · have hoverride := base_eq_hidden_iff.mp hhidden
    rw [if_pos hhidden, base_eq_hidden_iff]
    cases change with
    | override other severity => simp [apply, hoverride]
    | warnings asErrors => exact hoverride
    | lints asErrors => exact hoverride
  · have hoverride : r.overrides issue ≠ some .hidden := fun h => hhidden (base_eq_hidden_iff.mpr h)
    rw [if_neg hhidden]
    cases change with
    | override other severity =>
      by_cases hsame : other = issue
      · simp [apply, base, Change.severityOf?, hsame, hoverride]
      · simp [apply, base, Change.severityOf?, hsame]
    | warnings asErrors => rfl
    | lints asErrors => rfl

/-- Once hidden, an issue stays hidden, and hiding it is the only way to get there. -/
theorem base_after_eq_hidden_iff (r : Registry) (history : List Change) (issue : Issue) :
    (r.after history).base issue = .hidden ↔
      r.base issue = .hidden ∨ .override issue .hidden ∈ history := by
  induction history generalizing r with
  | nil => simp [after]
  | cons change history ih =>
    rw [after, List.foldl_cons, ← after, ih, List.mem_cons, ← or_assoc]
    refine or_congr_left ?_
    rw [base_apply]
    by_cases hhidden : r.base issue = .hidden
    · simp [hhidden]
    · cases change with
      | override other severity =>
        by_cases hsame : other = issue
        · simp [hhidden, Change.severityOf?, hsame, eq_comm]
        · simp [hhidden, Change.severityOf?, hsame, Ne.symm hsame]
      | warnings asErrors => simp [hhidden, Change.severityOf?]
      | lints asErrors => simp [hhidden, Change.severityOf?]

/-- Of the severities given to an issue that is never hidden the last one counts. -/
theorem base_after
    {r : Registry} {history : List Change} {issue : Issue} (hshown : r.base issue ≠ .hidden)
    (hnever : .override issue .hidden ∉ history) :
    (r.after history).base issue =
      (history.filterMap (Change.severityOf? issue)).getLast?.getD (r.base issue) := by
  refine after_eq_last (fun r => r.base issue) (Change.severityOf? issue)
    (fun r => r.base issue ≠ .hidden) ?_ hshown
  intro r hr change hchange
  refine ⟨?_, by rw [base_apply, if_neg hr]⟩
  have hone := base_after_eq_hidden_iff r [change] issue
  rw [after, List.foldl_cons, List.foldl_nil, List.mem_singleton] at hone
  rw [ne_eq, hone]
  rintro (hhidden | rfl)
  · exact hr hhidden
  · exact hnever hchange

theorem severity_eq_promoted (r : Registry) (issue : Issue) :
    r.severity issue =
      if r.base issue = .warning ∧ r.warningsAsErrors = true ∨
          r.base issue = .lint ∧ r.lintsAsErrors = true then .error
      else r.base issue := by
  change r.promote (r.base issue) = _
  cases hbase : r.base issue <;> simp [promote]

/-- Promotion neither hides an issue nor shows one. -/
theorem severity_eq_hidden_iff {r : Registry} {issue : Issue} :
    r.severity issue = .hidden ↔ r.base issue = .hidden := by
  rw [severity_eq_promoted]
  split
  · rename_i hpromoted
    rcases hpromoted with ⟨hbase, -⟩ | ⟨hbase, -⟩ <;> simp [hbase]
  · rfl

end Registry

/-! ## Severities by settings and history -/

namespace IssueSettings

variable (settings : IssueSettings) (history : List Registry.Change)

/-- The settings or some change hide the issue. -/
def Hides (issue : Issue) : Prop :=
  issue.IsNamedIn settings.hide ∨ .override issue .hidden ∈ history

instance (issue : Issue) : Decidable (settings.Hides history issue) :=
  inferInstanceAs (Decidable (_ ∨ _))

/-- The severity before promotion of an issue that is not hidden: the last one that a change gave
it, else the one of the settings, else its own. -/
def baseAfter (issue : Issue) : Severity :=
  (history.filterMap (Registry.Change.severityOf? issue)).getLast?.getD
    ((settings.listed? issue).getD issue.defaultSeverity)

/-- Whether warnings count as errors, by the last change that says so or else by the settings. -/
def warningsAfter : Bool :=
  (history.filterMap Registry.Change.warnings?).getLast?.getD settings.warningsAsErrors

/-- Whether lints count as errors, by the last change that says so or else by the settings. -/
def lintsAfter : Bool :=
  (history.filterMap Registry.Change.lints?).getLast?.getD settings.lintsAsErrors

end IssueSettings

namespace Registry

variable {r : Registry} {settings : IssueSettings}

/-- After any history of changes an issue is hidden if and only if the settings or some change hide
it.  Otherwise it has the severity that settings and history give it, as an error where warnings or
lints count as errors in the end.  Changes to the severities of different issues commute. -/
theorem severity_after
    (hsettings : ofSettings settings = .ok r) (history : List Change) :
    (∀ issue,
      ((r.after history).severity issue = .hidden ↔ settings.Hides history issue) ∧
      (¬settings.Hides history issue →
        (r.after history).severity issue =
          if settings.baseAfter history issue = .warning ∧ settings.warningsAfter history = true ∨
            settings.baseAfter history issue = .lint ∧ settings.lintsAfter history = true
          then .error
          else settings.baseAfter history issue)) ∧
    ∀ (q : Registry) (a b : Issue) (severity severity' : Severity), a ≠ b →
      (q.withOverride a severity).withOverride b severity' =
        (q.withOverride b severity').withOverride a severity := by
  obtain ⟨hoverrides, hwarnings, hlints⟩ := ofSettings_eq_ok hsettings
  have hhides : ∀ issue,
      (r.after history).base issue = .hidden ↔ settings.Hides history issue := by
    intro issue
    rw [base_after_eq_hidden_iff, base_eq_hidden_iff, hoverrides, IssueSettings.Hides]
    refine or_congr_left ?_
    split
    · simpa
    · simpa [*] using settings.listed?_ne_hidden issue
  refine ⟨fun issue => ⟨severity_eq_hidden_iff.trans (hhides issue), fun hshown => ?_⟩,
    fun q a b s t h => q.withOverride_comm h s t⟩
  have hbase : (r.after history).base issue = settings.baseAfter history issue := by
    obtain ⟨hsettings, hnever⟩ := not_or.mp hshown
    have hstart : r.base issue = (settings.listed? issue).getD issue.defaultSeverity := by
      rw [base, hoverrides, if_neg hsettings]
    have hvisible : r.base issue ≠ .hidden := by
      rw [ne_eq, base_eq_hidden_iff, hoverrides, if_neg hsettings]
      exact settings.listed?_ne_hidden issue
    rw [base_after hvisible hnever, hstart, IssueSettings.baseAfter]
  rw [severity_eq_promoted, hbase, warningsAsErrors_after, lintsAsErrors_after, hwarnings, hlints]
  rfl

/-- Settings that name issues in several lists and spellings. -/
def mixedSettings : IssueSettings :=
  { warningsAsErrors := true
    error := ["Added-Method"]
    warning := ["added_method", "REMOVED-FIELD"]
    lint := ["addedMethod"]
    hide := ["unresolved-reference"] }

/-- A history that hides an issue, tries to bring two hidden ones back, and turns a promotion on. -/
def mixedHistory : List Change :=
  [.override .removedClass .hidden, .lints true, .override .removedClass .info,
   .override .unresolvedReference .error, .override .changedType .error,
   .override .changedType .warning, .warnings false]

/-- Hidden issues stay hidden; an issue in three lists is a lint, and lints count as errors; the
last change of the other issue makes it a warning, and warnings do not count as errors any more.
-/
theorem mixedSettings_severity_after :
    ∃ r, ofSettings mixedSettings = .ok r ∧
      (r.after mixedHistory).severity .removedClass = .hidden ∧
      (r.after mixedHistory).severity .unresolvedReference = .hidden ∧
      (r.after mixedHistory).severity .addedMethod = .error ∧
      (r.after mixedHistory).severity .removedField = .warning ∧
      (r.after mixedHistory).severity .changedType = .warning := by
  have hok : (ofSettings mixedSettings).isOk = true := by decide +kernel
  obtain ⟨r, hr⟩ : ∃ r, ofSettings mixedSettings = .ok r := by
    cases h : ofSettings mixedSettings with
    | ok r => exact ⟨r, rfl⟩
    | error fault =>
      rw [h] at hok
      cases hok
  have hsevere := (severity_after hr mixedHistory).1
  refine ⟨r, hr, (hsevere _).1.mpr ?_, (hsevere _).1.mpr ?_, ((hsevere _).2 ?_).trans ?_,
    ((hsevere _).2 ?_).trans ?_, ((hsevere _).2 ?_).trans ?_⟩
  all_goals decide +kernel

end Registry
end ApiSurface
