import ApiSurface.Proofs.RoundTrip.Fresh

/-!
# What a text depends on

Members are written in an order, and sorting them once more changes nothing.  A text is made of the
classes in the view, by package and by name, so codebases with corresponding classes have the same
text if corresponding classes have.  In particular the text of a codebase is that of the part of it
that is on the surface.
-/

namespace ApiSurface

/-! ## The order of members -/

namespace MemberOrder

theorem transCmp_compareAccess {α : Type} (order : MemberOrder) (modifiers : α → Modifiers) :
    Std.TransCmp fun a b => order.compareAccess (modifiers a) (modifiers b) := by
  cases order with
  | accessThenName =>
    exact @Std.TransCmp.opposite _ (compareOn fun a => (modifiers a).access.rank) _
  | name => exact inferInstanceAs (Std.TransCmp (compareOn fun _ : α => 0))

instance (order : MemberOrder) : Std.TransCmp order.compareMethods := by
  have := order.transCmp_compareAccess Method.modifiers
  exact inferInstanceAs (Std.TransCmp (compareLex (compareLex
    (fun a b : Method => order.compareAccess a.modifiers b.modifiers) (compareOn Method.name))
    (compareOn Method.parameterText)))

instance (order : MemberOrder) : Std.TransCmp order.compareFields := by
  have := order.transCmp_compareAccess Field.modifiers
  have : Std.TransCmp fun a b : Field => compare b.isEnumConstant a.isEnumConstant :=
    @Std.TransCmp.opposite _ (compareOn Field.isEnumConstant) _
  exact inferInstanceAs (Std.TransCmp (compareLex (compareLex
    (fun a b : Field => compare b.isEnumConstant a.isEnumConstant)
    (fun a b : Field => order.compareAccess a.modifiers b.modifiers)) (compareOn Field.name)))

/-- Of sorted items, those that pass a test are sorted, and so they stay if nothing changes that the
order looks at. -/
theorem mergeSort_map_filter_mergeSort
    {α : Type} {cmp : α → α → Ordering} [Std.TransCmp cmp] {f : α → α}
    (hf : ∀ a b, cmp (f a) (f b) = cmp a b) (test : α → Bool) (xs : List α) :
    (((xs.mergeSort fun a b => (cmp a b).isLE).filter test).map f).mergeSort
        (fun a b => (cmp a b).isLE) =
      ((xs.mergeSort fun a b => (cmp a b).isLE).filter test).map f := by
  have htotal : ∀ a b : α, ((cmp a b).isLE || (cmp b a).isLE) = true := by
    intro a b
    rw [@Std.OrientedCmp.eq_swap _ cmp _ b a]
    cases cmp a b <;> rfl
  have hsorted : (xs.mergeSort fun a b => (cmp a b).isLE).Pairwise fun a b =>
      (cmp a b).isLE = true :=
    List.pairwise_mergeSort (fun _ _ _ => Std.TransCmp.isLE_trans) htotal xs
  apply List.mergeSort_of_pairwise
  rw [List.pairwise_map]
  refine (hsorted.filter test).imp ?_
  intro a b hab
  rwa [hf]

/-- Items that were sorted, tested and mapped come out the same after another change if all pass the
test again and mapping undoes the change. -/
theorem map_filter_mergeSort_again
    {α : Type} {cmp : α → α → Ordering} [Std.TransCmp cmp] {f g : α → α}
    (hf : ∀ a b, cmp (f a) (f b) = cmp a b) (hg : ∀ a b, cmp (g a) (g b) = cmp a b)
    {test : α → Bool} {xs ys : List α}
    (hys : ys = ((xs.mergeSort fun a b => (cmp a b).isLE).filter test).map f)
    (hagain : ∀ y ∈ ys, test (g y) = true ∧ f (g y) = y) :
    (((ys.map g).mergeSort fun a b => (cmp a b).isLE).filter test).map f = ys := by
  have hsorted : (ys.map g).mergeSort (fun a b => (cmp a b).isLE) = ys.map g := by
    rw [← List.map_mergeSort (fun a _ b _ => by rw [hg]), hys,
      mergeSort_map_filter_mergeSort hf]
  rw [hsorted, List.filter_eq_self.mpr (List.forall_mem_map.mpr fun y hy => (hagain y hy).1),
    List.map_map, Signature.map_eq_self_iff]
  exact fun y hy => (hagain y hy).2

/-- Sorting commutes with a change of methods that the order does not look at. -/
theorem sortMethods_map
    (order : MemberOrder) {f : Method → Method}
    (hf : ∀ a b, order.compareMethods (f a) (f b) = order.compareMethods a b) (ms : List Method) :
    order.sortMethods (ms.map f) = (order.sortMethods ms).map f := by
  refine (List.map_mergeSort fun a _ b _ => ?_).symm
  rw [hf]

/-- Sorting commutes with a change of fields that the order does not look at. -/
theorem sortFields_map
    (order : MemberOrder) {f : Field → Field}
    (hf : ∀ a b, order.compareFields (f a) (f b) = order.compareFields a b) (xs : List Field) :
    order.sortFields (xs.map f) = (order.sortFields xs).map f := by
  refine (List.map_mergeSort fun a _ b _ => ?_).symm
  rw [hf]

end MemberOrder

/-! ## Sections of a text -/

/-- Lists in the strict order of a name are determined by their members. -/
theorem eq_of_pairwise_lt_of_mem_iff
    {α : Type} {key : α → String} {xs ys : List α}
    (hxs : xs.Pairwise fun a b => key a < key b) (hys : ys.Pairwise fun a b => key a < key b)
    (h : ∀ a, a ∈ xs ↔ a ∈ ys) : xs = ys := by
  have hne : ∀ {a b : α}, key a < key b → a ≠ b := fun hab heq =>
    String.lt_irrefl _ (heq ▸ hab)
  have hperm : xs.Perm ys :=
    (List.perm_ext_iff_of_nodup (hxs.imp hne) (hys.imp hne)).mpr h
  exact hperm.eq_of_pairwise (fun a b _ _ hab hba => absurd hab (String.lt_asymm hba)) hxs hys

/-- Parts without text can be left out of a text. -/
theorem join_map_filter
    {α : Type} {text : α → String} {test : α → Bool} (xs : List α)
    (h : ∀ x, test x = false → text x = "") :
    String.join ((xs.filter test).map text) = String.join (xs.map text) := by
  induction xs with
  | nil => rfl
  | cons x xs ih =>
    rw [List.map_cons, String.join_cons]
    by_cases hx : test x = true
    · rw [List.filter_cons_of_pos hx, List.map_cons, String.join_cons, ih]
    · rw [List.filter_cons_of_neg hx, ih, h x (by simpa using hx), String.empty_append]

namespace Signature
namespace WriteSettings

def classesOf (s : WriteSettings) (cb : Codebase) (package : String) : List ClassDecl :=
  (cb.classes.filter fun c => c.package == package && s.view.showsClass c).items

/-- The names of the packages of which classes are written. -/
def packagesOf (s : WriteSettings) (cb : Codebase) : List String :=
  (cb.packages.items.map Package.name).filter fun name => !(s.classesOf cb name).isEmpty

/-- Classes as written under the name of a package. -/
def sectionText (s : WriteSettings) (package : String) : List ClassDecl → String
  | [] => ""
  | classes =>
    "package " ++ package ++ " " ++ Token.openBrace ++ "\n\n" ++
      String.join (classes.map s.classText) ++ Token.closeBrace ++ "\n\n"

section

variable {s : WriteSettings} {cb : Codebase}

theorem mem_classesOf_iff {package : String} {c : ClassDecl} :
    c ∈ s.classesOf cb package ↔
      c ∈ cb.classes.items ∧ c.package = package ∧ s.view.showsClass c = true := by
  rw [classesOf, Catalog.mem_filter_iff, Bool.and_eq_true, beq_iff_eq]

theorem pairwise_packagesOf : (s.packagesOf cb).Pairwise fun a b => a < b :=
  (List.pairwise_map.mpr cb.packages.ordered).filter _

variable (h : cb.IsIndexed)

include h

theorem mem_packagesOf_iff {package : String} :
    package ∈ s.packagesOf cb ↔ s.classesOf cb package ≠ [] := by
  rw [packagesOf, List.mem_filter, List.mem_map, Bool.not_eq_true', ← Bool.not_eq_true,
    List.isEmpty_iff, and_iff_right_iff_imp]
  intro hsome
  obtain ⟨c, hc⟩ := List.exists_mem_of_ne_nil _ hsome
  obtain ⟨hmem, hpackage, -⟩ := mem_classesOf_iff.mp hc
  obtain ⟨p, hp, hname⟩ := h.packaged c hmem
  exact ⟨p, hp, hname.trans hpackage⟩

/-- A package lists its own classes in the order of their names. -/
theorem packageText_eq_sectionText {p : Package} (hp : p ∈ cb.packages.items) :
    s.packageText cb p = s.sectionText p.name (s.classesOf cb p.name) := by
  have hclasses : s.writtenIn cb p = s.classesOf cb p.name := by
    refine eq_of_pairwise_lt_of_mem_iff ((cb.pairwise_classesIn p).filter _)
      (Catalog.ordered _) fun c => ?_
    rw [writtenIn, List.mem_filter, h.mem_classesIn_iff hp, mem_classesOf_iff, and_assoc]
  rw [← hclasses]
  exact packageText.eq_def s cb p

/-- A text has a section for each package with a class in the view. -/
theorem codebaseText_eq_sections :
    s.codebaseText cb = s.headerText ++
      String.join ((s.packagesOf cb).map fun name => s.sectionText name (s.classesOf cb name)) := by
  rw [codebaseText, packagesOf, join_map_filter, List.map_map]
  · refine congrArg (s.headerText ++ String.join ·) (List.map_congr_left fun p hp => ?_)
    exact packageText_eq_sectionText h hp
  · intro name hname
    have hnone : s.classesOf cb name = [] := by simpa using hname
    rw [hnone]
    rfl

end

/-- Codebases with corresponding classes have the same text if corresponding classes have. -/
theorem codebaseText_eq_of_classes
    {s s' : WriteSettings} {cb cb' : Codebase} (h : cb.IsIndexed) (h' : cb'.IsIndexed)
    (hheader : s'.headerText = s.headerText) {f : ClassDecl → ClassDecl}
    (hpackage : ∀ c, (f c).package = c.package)
    (hname : ∀ c, (f c).qualifiedName = c.qualifiedName)
    (hclasses : ∀ d, (d ∈ cb'.classes.items ∧ s'.view.showsClass d = true) ↔
      ∃ c ∈ cb.classes.items, s.view.showsClass c = true ∧ f c = d)
    (htext : ∀ c ∈ cb.classes.items, s'.classText (f c) = s.classText c) :
    s'.codebaseText cb' = s.codebaseText cb := by
  have hclassesOf : ∀ package, s'.classesOf cb' package = (s.classesOf cb package).map f := by
    intro package
    refine eq_of_pairwise_lt_of_mem_iff (Catalog.ordered _)
      (Catalog.ordered (Catalog.map _ f hname)) fun d => ?_
    have hd := hclasses d
    simp only [List.mem_map, mem_classesOf_iff]
    constructor
    · rintro ⟨hmem, hpack, hshown⟩
      obtain ⟨c, hc, hcshown, rfl⟩ := hd.mp ⟨hmem, hshown⟩
      exact ⟨c, ⟨hc, (hpackage c).symm.trans hpack, hcshown⟩, rfl⟩
    · rintro ⟨c, ⟨hc, hpack, hcshown⟩, rfl⟩
      obtain ⟨hmem, hshown⟩ := hd.mpr ⟨c, hc, hcshown, rfl⟩
      exact ⟨hmem, (hpackage c).trans hpack, hshown⟩
  have hsection : ∀ package, s'.sectionText package (s'.classesOf cb' package) =
      s.sectionText package (s.classesOf cb package) := by
    intro package
    have htexts : ((s.classesOf cb package).map f).map s'.classText =
        (s.classesOf cb package).map s.classText := by
      rw [List.map_map]
      exact List.map_congr_left fun c hc => htext c (mem_classesOf_iff.mp hc).1
    rw [hclassesOf]
    cases hof : s.classesOf cb package with
    | nil => rfl
    | cons c cs =>
      rw [hof] at htexts
      rw [sectionText, htexts, sectionText]
      · exact nofun
      · exact nofun
  have hpackages : s'.packagesOf cb' = s.packagesOf cb := by
    refine eq_of_pairwise_lt_of_mem_iff pairwise_packagesOf pairwise_packagesOf fun name => ?_
    rw [mem_packagesOf_iff h', mem_packagesOf_iff h, hclassesOf, ne_eq, List.map_eq_nil_iff]
  rw [codebaseText_eq_sections h', codebaseText_eq_sections h, hheader, hpackages]
  simp only [hsection]

/-- A change of classes that keeps their texts keeps the text of the codebase. -/
theorem codebaseText_map
    {s s' : WriteSettings} {cb : Codebase} (h : cb.IsIndexed)
    (hheader : s'.headerText = s.headerText) {f : ClassDecl → ClassDecl}
    (hname : ∀ c, (f c).qualifiedName = c.qualifiedName) (hpackage : ∀ c, (f c).package = c.package)
    (hshown : ∀ c, s'.view.showsClass (f c) = s.view.showsClass c)
    (htext : ∀ c, s'.classText (f c) = s.classText c) :
    s'.codebaseText { cb with classes := cb.classes.map f hname } = s.codebaseText cb := by
  refine codebaseText_eq_of_classes h (h.map hname hpackage) hheader hpackage hname (fun d => ?_)
    fun c _ => htext c
  rw [Catalog.mem_map_iff]
  constructor
  · rintro ⟨⟨c, hc, rfl⟩, hd⟩
    exact ⟨c, hc, (hshown c).symm.trans hd, rfl⟩
  · rintro ⟨c, hc, hd, rfl⟩
    exact ⟨⟨c, hc, rfl⟩, (hshown c).trans hd⟩

/-! ## The text of a class -/

/-- The text of a class is put together from the texts of its parts. -/
theorem classText_congr
    {s s' : WriteSettings} {c d : ClassDecl} (hname : d.name = c.name) (hkind : d.kind = c.kind)
    (hannotations : s'.itemAnnotationsText d.annotations d.modifiers.isDeprecated =
      s.itemAnnotationsText c.annotations c.modifiers.isDeprecated)
    (hmodifiers : s'.classModifiersText d = s.classModifiersText c)
    (hparameters : s'.typeParametersText d.typeParameters = s.typeParametersText c.typeParameters)
    (hextended : s'.supertypesText " extends " (s'.extendedTypes d) =
      s.supertypesText " extends " (s.extendedTypes c))
    (himplemented : s'.supertypesText " implements " (s'.implementedTypes d) =
      s.supertypesText " implements " (s.implementedTypes c))
    (hmembers : s'.membersText d = s.membersText c) : s'.classText d = s.classText c := by
  have hbody : s'.bodyText d = s.bodyText c := by
    simp only [bodyText, hextended, himplemented, hmembers]
  rw [classText_eq, classText_eq, hname, hkind, hannotations, hmodifiers, hparameters, hbody]

/-- A change of members that the order and the view do not look at keeps the text of the members if
it keeps the text of each. -/
theorem membersText_map
    {s s' : WriteSettings} (horder : s'.order = s.order) (hview : s'.view = s.view)
    {c d : ClassDecl} {f : Method → Method} {g : Field → Field}
    (hconstructors : d.constructors = c.constructors.map f)
    (hmethods : d.methods = c.methods.map f) (hfields : d.fields = c.fields.map g)
    (hf : ∀ a b, s.order.compareMethods (f a) (f b) = s.order.compareMethods a b)
    (hg : ∀ a b, s.order.compareFields (g a) (g b) = s.order.compareFields a b)
    (hshownMethod : ∀ m, s.view.showsMethod (f m) = s.view.showsMethod m)
    (hshownField : ∀ x, s.view.showsField (g x) = s.view.showsField x)
    (hmethodText : ∀ m, s'.methodText d (f m) = s.methodText c m)
    (hfieldText : ∀ x, s'.fieldText (g x) = s.fieldText x) :
    s'.membersText d = s.membersText c := by
  have hmethod : ∀ ms : List Method,
      ((s.order.sortMethods (ms.map f)).filter s.view.showsMethod).map (s'.methodText d) =
        ((s.order.sortMethods ms).filter s.view.showsMethod).map (s.methodText c) := by
    intro ms
    have htest : s.view.showsMethod ∘ f = s.view.showsMethod := funext hshownMethod
    have htext : s'.methodText d ∘ f = s.methodText c := funext hmethodText
    rw [s.order.sortMethods_map hf, List.filter_map, htest, List.map_map, htext]
  have hfield : ∀ xs : List Field,
      ((s.order.sortFields (xs.map g)).filter s.view.showsField).map s'.fieldText =
        ((s.order.sortFields xs).filter s.view.showsField).map s.fieldText := by
    intro xs
    have htest : s.view.showsField ∘ g = s.view.showsField := funext hshownField
    have htext : s'.fieldText ∘ g = s.fieldText := funext hfieldText
    rw [s.order.sortFields_map hg, List.filter_map, htest, List.map_map, htext]
  simp only [membersText, horder, hview, hconstructors, hmethods, hfields, List.filter_append,
    List.map_append, hmethod, hfield]

/-! ## The text of a surface -/

/-- Methods that are shown are shown again once they are written, without states and tags. -/
theorem filter_sortMethods_shown (order : MemberOrder) (ms : List Method) :
    (order.sortMethods
      (((order.sortMethods ms).filter View.live.showsMethod).map Method.bare)).filter
        View.live.showsMethod =
      ((order.sortMethods ms).filter View.live.showsMethod).map Method.bare := by
  have hsorted := MemberOrder.mergeSort_map_filter_mergeSort (f := Method.bare)
    (fun a b => show order.compareMethods a.bare b.bare = order.compareMethods a b from rfl)
    View.live.showsMethod ms
  rw [MemberOrder.sortMethods, MemberOrder.sortMethods, hsorted, List.filter_eq_self]
  intro m hm
  obtain ⟨o, ho, rfl⟩ := List.mem_map.mp hm
  have hshown := (List.mem_filter.mp ho).2
  simp only [View.showsMethod, Bool.and_eq_true] at hshown
  simp only [View.showsMethod, Method.bare, hshown.1, Bool.true_and]
  rfl

/-- Fields that are shown are shown again once they are written, without states and tags. -/
theorem filter_sortFields_shown (order : MemberOrder) (xs : List Field) :
    (order.sortFields (((order.sortFields xs).filter View.live.showsField).map Field.bare)).filter
        View.live.showsField =
      ((order.sortFields xs).filter View.live.showsField).map Field.bare := by
  have hsorted := MemberOrder.mergeSort_map_filter_mergeSort (f := Field.bare)
    (fun a b => show order.compareFields a.bare b.bare = order.compareFields a b from rfl)
    View.live.showsField xs
  rw [MemberOrder.sortFields, MemberOrder.sortFields, hsorted, List.filter_eq_self]
  intro x hx
  obtain ⟨o, ho, rfl⟩ := List.mem_map.mp hx
  have hshown := (List.mem_filter.mp ho).2
  simp only [View.showsField, Bool.and_eq_true] at hshown
  simp only [View.showsField, Field.bare, hshown.1, Bool.true_and]
  rfl

theorem classText_published {s : WriteSettings} (hview : s.view = .live) (c : ClassDecl) :
    s.classText (c.published .live s.order) = s.classText c := by
  have hmethods : ∀ ms : List Method,
      (((s.order.sortMethods (((s.order.sortMethods ms).filter View.live.showsMethod).map
        Method.bare)).filter View.live.showsMethod).map
          (s.methodText (c.published .live s.order))) =
        ((s.order.sortMethods ms).filter View.live.showsMethod).map (s.methodText c) := by
    intro ms
    rw [filter_sortMethods_shown, List.map_map]
    rfl
  have hfields : (((s.order.sortFields (((s.order.sortFields c.fields).filter
      View.live.showsField).map Field.bare)).filter View.live.showsField).map s.fieldText) =
        ((s.order.sortFields c.fields).filter View.live.showsField).map s.fieldText := by
    rw [filter_sortFields_shown, List.map_map]
    rfl
  have hmembers : s.membersText (c.published .live s.order) = s.membersText c := by
    simp only [membersText, hview, List.filter_append, List.map_append, ← hmethods, ← hfields]
    rfl
  exact classText_congr rfl rfl rfl rfl rfl rfl rfl hmembers

/-- The text of a codebase is that of its surface. -/
theorem codebaseText_published
    {s : WriteSettings} (hview : s.view = .live) {cb : Codebase} (h : cb.IsIndexed) :
    s.codebaseText (cb.published .live s.order) = s.codebaseText cb := by
  refine codebaseText_eq_of_classes (f := ClassDecl.published .live s.order) h
    (Codebase.isDerived_published h .live s.order).toIsIndexed rfl (fun _ => rfl)
    (fun c => c.published_qualifiedName .live s.order) (fun d => ?_)
    fun c _ => classText_published hview c
  rw [hview, Codebase.mem_classes_published, and_iff_left_iff_imp]
  rintro ⟨c, -, -, rfl⟩
  rfl

end WriteSettings
end Signature
end ApiSurface
