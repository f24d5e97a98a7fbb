import ApiSurface.Proofs.Reporting

/-!
# Registries and modes filter and label

A check asks the registry and the mode about every finding as it is raised, and goes on whatever the
answer is.  So they decide which findings are listed and how loud each one is, but neither what is
found nor which references are noted, and sorting by place keeps the findings of one place in the
order of the visit.  An issue that two registries and modes both let through is listed by both in
the same entries and in the same order, whatever else they suppress or promote.
-/

namespace ApiSurface

/-! ## Sorting some of the items -/

/-- A list whose items fail a test up to some point and pass it from there on can be split at that
point only. -/
theorem append_inj_of_test
    {α : Type} (test : α → Bool) {xs ys xs' ys' : List α} (h : xs ++ ys = xs' ++ ys')
    (hxs : ∀ x ∈ xs, test x = false) (hys : ∀ y ∈ ys, test y = true)
    (hxs' : ∀ x ∈ xs', test x = false) (hys' : ∀ y ∈ ys', test y = true) : ys = ys' := by
  have hpassing : ∀ {front back : List α}, (∀ x ∈ front, test x = false) →
      (∀ y ∈ back, test y = true) → (front ++ back).filter test = back := by
    intro front back hfront hback
    rw [List.filter_append, List.filter_eq_self.mpr hback, List.filter_eq_nil_iff.mpr,
      List.nil_append]
    exact fun x hx => Bool.eq_false_iff.mp (hfront x hx)
  rw [← hpassing hxs hys, h, hpassing hxs' hys']

/-- Sorting keeps the order of items that are equally placed, so the items that pass a test are
sorted in the same way with and without the others. -/
theorem filter_mergeSort
    {α : Type} {le : α → α → Bool} (htrans : ∀ a b c, le a b = true → le b c = true → le a c = true)
    (htotal : ∀ a b, (le a b || le b a) = true) (test : α → Bool) (xs : List α) :
    (xs.mergeSort le).filter test = (xs.filter test).mergeSort le := by
  -- Behind the place of an item there are only items that may follow it.
  have hbehind : ∀ {a : α} {ys front back : List α}, ys.mergeSort le = front ++ a :: back →
      ∀ b ∈ back, le a b = true := by
    intro a ys front back hys
    have hsorted := List.pairwise_mergeSort htrans htotal ys
    rw [hys] at hsorted
    exact (List.pairwise_cons.mp (List.pairwise_append.mp hsorted).2.1).1
  induction xs with
  | nil => simp
  | cons a xs ih =>
    obtain ⟨front, back, hcons, hrest, hfront⟩ := List.mergeSort_cons htrans htotal a xs
    by_cases ha : test a = true
    · obtain ⟨front', back', hcons', hrest', hfront'⟩ :=
        List.mergeSort_cons htrans htotal a (xs.filter test)
      have hsplit : front' ++ back' = front.filter test ++ back.filter test := by
        rw [← hrest', ← ih, hrest, List.filter_append]
      have hback : back' = back.filter test := by
        refine append_inj_of_test (le a) hsplit ?_ (hbehind hcons') ?_ ?_
        · simpa using hfront'
        · intro b hb
          simpa using hfront b (List.mem_of_mem_filter hb)
        · exact fun b hb => hbehind hcons b (List.mem_of_mem_filter hb)
      rw [hback, List.append_cancel_right_eq] at hsplit
      rw [hcons, List.filter_cons_of_pos ha, hcons', hsplit, hback, List.filter_append,
        List.filter_cons_of_pos ha]
    · rw [hcons, List.filter_cons_of_neg ha, List.filter_append, List.filter_cons_of_neg ha, ← ih,
        hrest, List.filter_append]

namespace Location

theorem compareName_eq : compareName = compare := by
  funext a b
  cases a <;> cases b <;> rfl

instance : Std.TransCmp Location.compare := by
  have hlex : Location.compare =
      compareLex (compareLex (compareOn package) (compareOn owner)) (compareOn member) := by
    funext a b
    simp only [Location.compare, compareName_eq]
    rfl
  rw [hlex]
  infer_instance

theorem isLE_total (a b : Location) : ((a.compare b).isLE || (b.compare a).isLE) = true := by
  rw [@Std.OrientedCmp.eq_swap _ Location.compare _ b a]
  cases a.compare b <;> rfl

variable {α : Type} (place : α → Location) (xs : List α)

theorem pairwise_mergeSort :
    (xs.mergeSort fun a b => ((place a).compare (place b)).isLE).Pairwise fun a b =>
      ((place a).compare (place b)).isLE = true := by
  apply List.pairwise_mergeSort
  · exact fun a b c hab hbc => Std.TransCmp.isLE_trans hab hbc
  · exact fun a b => isLE_total (place a) (place b)

theorem filter_mergeSort (test : α → Bool) :
    (xs.mergeSort fun a b => ((place a).compare (place b)).isLE).filter test =
      (xs.filter test).mergeSort fun a b => ((place a).compare (place b)).isLE := by
  apply ApiSurface.filter_mergeSort
  · exact fun a b c hab hbc => Std.TransCmp.isLE_trans hab hbc
  · exact fun a b => isLE_total (place a) (place b)

end Location

/-! ## Entries without their severity -/

/-- The entry with its severity left out. -/
def Entry.unlabelled (e : Entry) : Entry :=
  { e with severity := .hidden }

/-- The entries of a report are let through by the mode and labelled by the registry, they stand in
the order of their places, and the counts are theirs. -/
structure Report.Conforms (r : Report) (registry : Registry) (mode : Mode) : Prop where
  enabled : ∀ e ∈ r.entries, e.issue.isEnabled mode = true
  labelled : ∀ e ∈ r.entries, e.severity = registry.severity e.issue ∧ e.severity ≠ .hidden
  sorted : r.entries.Pairwise fun a b => (a.location.compare b.location).isLE = true
  errors : r.errors = r.entries.countP fun e => e.severity == .error
  warnings : r.warnings = r.entries.countP fun e => e.severity == .warning
  migrations : r.migrations = r.entries.countP fun e => e.severity == .migration
  lints : r.lints = r.entries.countP fun e => e.severity == .lint
  infos : r.infos = r.entries.countP fun e => e.severity == .info
  hasErrors_iff : r.hasErrors = true ↔ ∃ e ∈ r.entries, e.severity = .error

namespace Comparison

variable (cmp : Comparison)

/-- The findings in the order of their places; those of one place in the order of the visit. -/
def sortedFindings : List Finding :=
  cmp.findings.mergeSort fun f g => (f.location.compare g.location).isLE

/-- A report lists the findings that are let through, each with its severity.  It makes no
difference that they are sorted last. -/
theorem report_entries_eq (registry : Registry) (mode : Mode) :
    (cmp.report registry mode).entries =
      (cmp.sortedFindings.filter fun f => isReported registry mode f.issue).map
        (Entry.ofFinding registry) := by
  have hfilter : cmp.sortedFindings.filter (fun f => isReported registry mode f.issue) =
      (cmp.findings.filter fun f => isReported registry mode f.issue).mergeSort
        fun f g => (f.location.compare g.location).isLE :=
    Location.filter_mergeSort Finding.location cmp.findings _
  rw [hfilter, List.map_mergeSort (s := fun a b : Entry => (a.location.compare b.location).isLE),
    report_eq]
  · rfl
  · exact fun _ _ _ _ => rfl

/-- The entries of issues that are let through under further conditions. -/
theorem filter_report_entries
    (registry : Registry) (mode : Mode) {shared : Issue → Bool}
    (hshared : ∀ issue, shared issue = true → isReported registry mode issue = true) :
    ((cmp.report registry mode).entries.filter fun e => shared e.issue).map Entry.unlabelled =
      (cmp.sortedFindings.filter fun f => shared f.issue).map fun f =>
        (Entry.ofFinding registry f).unlabelled := by
  have hfilter : ∀ f : Finding,
      (shared f.issue && isReported registry mode f.issue) = shared f.issue := by
    intro f
    rw [Bool.and_eq_left_iff_imp]
    exact hshared f.issue
  rw [report_entries_eq, List.filter_map, List.map_map, List.filter_filter]
  simp only [Function.comp_def]
  have hissue : ∀ f : Finding, (Entry.ofFinding registry f).issue = f.issue := fun _ => rfl
  simp only [hissue, hfilter]

/-- What has been counted on the way are the entries of the report. -/
theorem report_eq_ofEntries (registry : Registry) (mode : Mode) :
    cmp.report registry mode = .ofEntries (cmp.report registry mode).entries := by
  rw [report_eq]
  rfl

theorem report_conforms (registry : Registry) (mode : Mode) :
    (cmp.report registry mode).Conforms registry mode where
  enabled := by
    intro e he
    obtain ⟨f, -, hreported, rfl⟩ := mem_report_iff.mp he
    exact (Bool.and_eq_true_iff.mp hreported).1
  labelled := by
    intro e he
    obtain ⟨f, -, hreported, rfl⟩ := mem_report_iff.mp he
    exact ⟨rfl, bne_iff_ne.mp (Bool.and_eq_true_iff.mp hreported).2⟩
  sorted := Location.pairwise_mergeSort Entry.location _
  errors := congrArg Report.errors (cmp.report_eq_ofEntries registry mode)
  warnings := congrArg Report.warnings (cmp.report_eq_ofEntries registry mode)
  migrations := congrArg Report.migrations (cmp.report_eq_ofEntries registry mode)
  lints := congrArg Report.lints (cmp.report_eq_ofEntries registry mode)
  infos := congrArg Report.infos (cmp.report_eq_ofEntries registry mode)
  hasErrors_iff := by
    rw [Report.hasErrors, decide_eq_true_iff, Nat.pos_iff_ne_zero, ne_eq, errors_eq_zero_iff]
    simp

/-- Issues that two registries and modes both let through are listed by both in the same entries and
in the same order, up to their severity, and both note the same references on the way; and each
report is made as its registry and mode say. -/
theorem report_settings_agree
    (registry registry' : Registry) (mode mode' : Mode) :
    ((cmp.report registry mode).entries.filter fun e =>
          isReported registry mode e.issue && isReported registry' mode' e.issue).map
        Entry.unlabelled =
      ((cmp.report registry' mode').entries.filter fun e =>
          isReported registry mode e.issue && isReported registry' mode' e.issue).map
        Entry.unlabelled ∧
      (Checker.run ⟨cmp, registry, mode⟩).unresolved =
        (Checker.run ⟨cmp, registry', mode'⟩).unresolved ∧
      (cmp.report registry mode).Conforms registry mode := by
  refine ⟨?_, ?_, cmp.report_conforms registry mode⟩
  case refine_2 =>
    rw [Checker.run_eq_foldl, Checker.run_eq_foldl]
    exact Checker.unresolved_foldl_congr rfl
  let shared (issue : Issue) : Bool :=
    isReported registry mode issue && isReported registry' mode' issue
  calc
    _ = (cmp.sortedFindings.filter fun f => shared f.issue).map fun f =>
          (Entry.ofFinding registry f).unlabelled :=
      cmp.filter_report_entries registry mode fun _ h => (Bool.and_eq_true_iff.mp h).1
    _ = (cmp.sortedFindings.filter fun f => shared f.issue).map fun f =>
          (Entry.ofFinding registry' f).unlabelled := rfl
    _ = _ :=
      (cmp.filter_report_entries registry' mode' fun _ h => (Bool.and_eq_true_iff.mp h).2).symm

end Comparison

end ApiSurface
