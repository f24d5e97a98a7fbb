import ApiSurface.Proofs.RoundTrip.Fresh
import ApiSurface.Proofs.RoundTrip.Lossless

/-!
# Texts that are read without further knowledge

Options may be asked to refuse whatever a text cannot tell.  They then refuse the first version, the
compatible layout and a text without defaults, but they accept marks of nullability that the text
does not announce: the header tells the version, a text without one is taken for the first version,
and the version tells whether types carry marks.  Accepted options keep everything exactly if the
marks are those of the version that the text announces.
-/

namespace ApiSurface
namespace Signature

/-- The version that a text announces: that of its header, and the first one if it has none. -/
def WriteOptions.announced (o : WriteOptions) : Format :=
  if o.header then o.format else .v1

/-- The settings with which everything is written that a version can tell, with marks of nullability
and a header or without them. -/
def Format.fullSettings (format : Format) (kotlinNulls header : Bool) (order : MemberOrder) :
    WriteSettings :=
  { format.settings none .live order with
    kotlinNulls
    header := if header then format.capabilities.header else none }

/-- What accepted options refuse if they are asked to refuse what a text cannot tell. -/
theorem WriteOptions.lossless_of_conflict?_eq_none
    {o : WriteOptions} (hlossless : o.requireLossless = true) (h : o.conflict? = none) :
    o.format.capabilities.lossless = true ∧ o.defaultValues = true ∧
      o.compatible.getD o.format.capabilities.compatible = false := by
  rw [conflict?] at h
  simp only [hlossless, Bool.true_and] at h
  split_ifs at h with _ _ _ hlossy hdefaults hcompatible
  exact ⟨by simpa using hlossy, by simpa using hdefaults, by simpa using hcompatible⟩

section

variable {o : WriteOptions} {s : WriteSettings} (hlossless : o.requireLossless = true)
  (hview : o.view = .live) (homit : o.omitCommon = false) (haccepted : o.resolve = .ok s)

include hlossless hview homit haccepted

/-- Options that refuse what a text cannot tell leave only the marks and the header open. -/
theorem eq_fullSettings_of_resolve :
    o.format ≠ .v1 ∧
      ∃ kotlinNulls, s = o.format.fullSettings kotlinNulls o.header o.order := by
  rw [WriteOptions.resolve] at haccepted
  split at haccepted
  · cases haccepted
  · rename_i hconflict
    obtain ⟨hlossy, hdefaults, hcompatible⟩ :=
      WriteOptions.lossless_of_conflict?_eq_none hlossless hconflict
    cases haccepted
    simp only [hdefaults, hcompatible, hview, homit, Format.fullSettings, Format.settings,
      Bool.true_and, Bool.false_eq_true, if_false]
    cases hformat : o.format with
    | v1 =>
      rw [hformat] at hlossy
      cases hlossy
    | v2 => exact ⟨nofun, _, rfl⟩
    | v3 => exact ⟨nofun, _, rfl⟩

end

/-- A text that is written in full announces its version, and its reader agrees on everything but
the marks. -/
theorem agree_fullSettings
    {o : WriteOptions} (hformat : o.format ≠ .v1) {kotlinNulls : Bool}
    (hmarks : kotlinNulls = o.announced.capabilities.kotlinNulls) (file : String) :
    (o.format.fullSettings kotlinNulls o.header o.order).header = o.announced.capabilities.header ∧
      Agree (o.format.fullSettings kotlinNulls o.header o.order)
        { o.announced.readSettings none with file } := by
  have hagree := agree_settings hformat none .live o.order
  refine ⟨?_, ⟨hagree.annotations, hagree.parameterNames, hagree.defaultValues, hmarks, rfl⟩⟩
  rw [Format.fullSettings, WriteOptions.announced]
  by_cases hheader : o.header = true
  · rw [if_pos hheader, if_pos hheader]
  · rw [if_neg hheader, if_neg hheader]
    rfl

/-- A text that is read with the marks it was written with gives everything back but packages
without classes and the order of members. -/
theorem read_fullSettings
    {o : WriteOptions} (hformat : o.format ≠ .v1) {kotlinNulls : Bool}
    (hmarks : kotlinNulls = o.announced.capabilities.kotlinNulls) {options : ReadOptions}
    (hcommon : options.common = none) {text : String} {cb : Codebase}
    (hread : read options text = .ok cb) (hexpressible : ∀ c ∈ cb.classes.items, IsExpressible c)
    (file : String) :
    read { file } ((o.format.fullSettings kotlinNulls o.header o.order).codebaseText cb) =
      .ok (cb.tidy o.order) := by
  have hcb : IsReadCodebase none cb := by
    rw [← hcommon]
    exact isReadCodebase_of_read (by simp [hcommon]) hread
  obtain ⟨hheader, hagree⟩ := agree_fullSettings hformat hmarks file
  rw [← Codebase.published_eq_tidy (isFresh_of_read hread) hcb.indexed]
  exact read_eq_published hheader hagree hcb (compatible_settings hformat none .live o.order)
    hexpressible

/-! ## Marks that are not announced -/

/-- A class with a field whose type has neither a mark nor an annotation. -/
def labelText : String :=
  "package p \x7b class Tag \x7b field java.lang.String label; \x7d \x7d"

/-- The codebase of that text, with the nullability that its reader takes the type to have. -/
def labelOnly (nullability : Nullability) : Codebase :=
  let label : Field :=
    { name := "label", owner := "p.Tag", modifiers := {},
      type := { TypeRef.named "java.lang.String" with nullability } }
  { packages := ⟨[{ name := "p", classNames := ⟨["p.Tag"], by decide⟩ }], by decide⟩
    classes := ⟨[{ ClassDecl.declare "p" "Tag" .ordinary with fields := [label] }],
      List.pairwise_singleton _ _⟩ }

/-- The nullability of a type without a mark, where types carry marks and where they do not. -/
def unmarkedNullability (kotlinNulls : Bool) : Nullability :=
  if kotlinNulls then .nonNull else .unknown

theorem read_labelText (kotlinNulls : Bool) :
    read { format := some .v2, kotlinNulls := some kotlinNulls } labelText =
      .ok (labelOnly (unmarkedNullability kotlinNulls)) := by
  cases kotlinNulls <;> decide +kernel

theorem isExpressible_labelOnly (nullability : Nullability) :
    ∀ c ∈ (labelOnly nullability).classes.items, IsExpressible c := by
  cases nullability <;> decide

theorem tidy_labelOnly (nullability : Nullability) (order : MemberOrder) :
    (labelOnly nullability).tidy order = labelOnly nullability := by
  cases nullability <;> cases order <;> decide +kernel

/-- Both kinds of types are written without a mark, so the texts are the same. -/
theorem codebaseText_labelOnly
    (format : Format) (kotlinNulls kotlinNulls' header : Bool) (order : MemberOrder) :
    (format.fullSettings kotlinNulls header order).codebaseText
        (labelOnly (unmarkedNullability kotlinNulls)) =
      (format.fullSettings kotlinNulls' header order).codebaseText
        (labelOnly (unmarkedNullability kotlinNulls')) := by
  have hunmarked : (format.fullSettings false header order).codebaseText (labelOnly .unknown) =
      (format.fullSettings true header order).codebaseText (labelOnly .nonNull) := by
    cases format <;> cases header <;> cases order <;> decide +kernel
  cases kotlinNulls with
  | false =>
    cases kotlinNulls' with
    | false => rfl
    | true => exact hunmarked
  | true =>
    cases kotlinNulls' with
    | false => exact hunmarked.symm
    | true => rfl

/-- A type without a mark is read as the version that the text announces has it. -/
theorem read_labelOnly
    {o : WriteOptions} (hformat : o.format ≠ .v1) (kotlinNulls : Bool) :
    read {} ((o.format.fullSettings kotlinNulls o.header o.order).codebaseText
        (labelOnly (unmarkedNullability kotlinNulls))) =
      .ok (labelOnly (unmarkedNullability o.announced.capabilities.kotlinNulls)) := by
  rw [codebaseText_labelOnly _ _ o.announced.capabilities.kotlinNulls,
    read_fullSettings hformat rfl rfl (read_labelText _) (isExpressible_labelOnly _) "",
    tidy_labelOnly]

theorem labelOnly_unmarkedNullability_inj {kotlinNulls kotlinNulls' : Bool}
    (h : labelOnly (unmarkedNullability kotlinNulls) =
      labelOnly (unmarkedNullability kotlinNulls')) : kotlinNulls = kotlinNulls' := by
  revert kotlinNulls kotlinNulls'
  decide +kernel

/-- Options that are accepted although they are asked to refuse what a text cannot tell keep
everything that was read exactly if types carry the marks of the version that the text announces. -/
theorem read_write_lossless_iff
    {o : WriteOptions} (hlossless : o.requireLossless = true) (hview : o.view = .live)
    (homit : o.omitCommon = false) {s : WriteSettings} (haccepted : o.resolve = .ok s) :
    (∀ (options : ReadOptions) (text : String) (cb : Codebase), options.common = none →
        read options text = .ok cb → (∀ c ∈ cb.classes.items, IsExpressible c) →
        ∀ file, ∃ written, write o cb = .ok written ∧
          read { file } written = .ok (cb.tidy o.order)) ↔
      s.kotlinNulls = o.announced.capabilities.kotlinNulls := by
  obtain ⟨hformat, kotlinNulls, rfl⟩ :=
    eq_fullSettings_of_resolve hlossless hview homit haccepted
  have hwrite : ∀ cb, write o cb =
      .ok ((o.format.fullSettings kotlinNulls o.header o.order).codebaseText cb) := by
    intro cb
    rw [write, haccepted, ok_bind]
    rfl
  change _ ↔ kotlinNulls = o.announced.capabilities.kotlinNulls
  constructor
  · intro h
    obtain ⟨written, hwritten, hread⟩ := h _ _ _ rfl (read_labelText kotlinNulls)
      (isExpressible_labelOnly _) ""
    rw [hwrite] at hwritten
    cases hwritten
    rw [read_labelOnly hformat, tidy_labelOnly] at hread
    exact (labelOnly_unmarkedNullability_inj (Except.ok.inj hread)).symm
  · intro hmarks options text cb hcommon hread hexpressible file
    exact ⟨_, hwrite cb, read_fullSettings hformat hmarks hcommon hread hexpressible file⟩

/-- The second version without a header has the marks of the first one: it keeps everything. -/
theorem headerless_read_write :
    ({ format := .v2, header := false, requireLossless := true } : WriteOptions).resolve =
        .ok (Format.v2.fullSettings false false .accessThenName) ∧
      ∀ (options : ReadOptions) (text : String) (cb : Codebase), options.common = none →
        read options text = .ok cb → (∀ c ∈ cb.classes.items, IsExpressible c) →
        ∀ file, ∃ written,
          write { format := .v2, header := false, requireLossless := true } cb = .ok written ∧
            read { file } written = .ok (cb.tidy .accessThenName) :=
  ⟨rfl, (read_write_lossless_iff rfl rfl rfl rfl).mpr rfl⟩

/-- The third version without a header is accepted too, and its text is taken for one of the first
version: a type that does not admit null comes back as one of which nothing is known. -/
theorem headerless_not_read_write :
    read { format := some .v3 } labelText = .ok (labelOnly .nonNull) ∧
      (∀ c ∈ (labelOnly .nonNull).classes.items, IsExpressible c) ∧
      ∃ written,
        write { format := .v3, header := false, requireLossless := true } (labelOnly .nonNull) =
            .ok written ∧
          read {} written = .ok (labelOnly .unknown) ∧
          labelOnly .unknown ≠ (labelOnly .nonNull).tidy .accessThenName := by
  refine ⟨by decide +kernel, isExpressible_labelOnly .nonNull, _, rfl, by decide +kernel, ?_⟩
  rw [tidy_labelOnly]
  decide

end Signature
end ApiSurface
