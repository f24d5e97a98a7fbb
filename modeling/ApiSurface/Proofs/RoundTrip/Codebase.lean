import ApiSurface.Proofs.RoundTrip.Restored
import ApiSurface.Signature.Writer.Codebase

/-!
# Codebases are read back

The classes in a view are written package by package, in the order of their names.  Reading adds
them to the codebase one by one, and looks up the classes around a nested class among those before
it.  So reading a codebase that was written is the same as folding over what its classes are read
back as.
-/

namespace ApiSurface

namespace Signature

open Scan (IsName Spells Anything)

/-! ## What is written -/

namespace WriteSettings

def writtenIn (s : WriteSettings) (cb : Codebase) (p : Package) : List ClassDecl :=
  (cb.classesIn p).filter s.view.showsClass

/-- The classes of a codebase that are written, in the order of the text. -/
def writtenClasses (s : WriteSettings) (cb : Codebase) : List ClassDecl :=
  cb.packages.items.flatMap (s.writtenIn cb)

/-- The signs of a package with the classes that are written. -/
def packageSigns (s : WriteSettings) (cb : Codebase) (p : Package) : List Sign :=
  match s.writtenIn cb p with
  | [] => []
  | classes =>
    .word "package" :: .word p.name :: .mark Token.openBrace ::
      (classes.flatMap s.classSigns ++ [.mark Token.closeBrace])

def codebaseSigns (s : WriteSettings) (cb : Codebase) : List Sign :=
  cb.packages.items.flatMap (s.packageSigns cb)

theorem mem_writtenClasses_iff
    {s : WriteSettings} {cb : Codebase} (h : cb.IsIndexed) {c : ClassDecl} :
    c ∈ s.writtenClasses cb ↔ c ∈ cb.classes.items ∧ s.view.showsClass c = true := by
  simp only [writtenClasses, writtenIn, List.mem_flatMap, List.mem_filter]
  constructor
  · rintro ⟨p, hp, hc, hshown⟩
    exact ⟨((h.mem_classesIn_iff hp).mp hc).1, hshown⟩
  · rintro ⟨hc, hshown⟩
    obtain ⟨p, hp, hpackage⟩ := h.packaged c hc
    exact ⟨p, hp, (h.mem_classesIn_iff hp).mpr ⟨hc, hpackage.symm⟩, hshown⟩

end WriteSettings

section

variable {common : Option CommonPackages} {s : WriteSettings} {r : ReadSettings}
  (hagree : Agree s r) {cb : Codebase}

include hagree

theorem spells_package
    {p : Package} (hname : IsName p.name) (h : ∀ c ∈ s.writtenIn cb p, IsReadClass common c) :
    Spells Anything (s.packageText cb p) (s.packageSigns cb p) := by
  have hwritten : (cb.classesIn p).filter s.view.showsClass = s.writtenIn cb p := rfl
  rw [WriteSettings.packageText, WriteSettings.packageSigns, hwritten]
  cases hclasses : s.writtenIn cb p with
  | nil => exact Scan.spells_empty _
  | cons c cs =>
    have hpackage :
        Spells Anything ("package " ++ (p.name ++ " ")) [.word "package", .word p.name] :=
      (Scan.spells_word (show IsName "package" by decide)).seq (Scan.spells_word hname)
    have hopen : Spells Anything Token.openBrace [.mark Token.openBrace] :=
      Scan.spells_mark (by decide)
    have hclose : Spells Anything Token.closeBrace [.mark Token.closeBrace] :=
      Scan.spells_mark (by decide)
    have hgap : Spells Anything "\n\n" [] := Scan.spells_blank (by decide)
    have hall : Spells Anything (String.join ((c :: cs).map s.classText))
        ((c :: cs).flatMap s.classSigns) :=
      Scan.spells_concat fun d hd => spells_class hagree (h d (hclasses ▸ hd))
    have hspells := hpackage.seq (hopen.seq (hgap.seq (hall.seq (hclose.seq hgap))))
    simpa only [String.append_assoc, List.nil_append, List.append_nil, List.cons_append]
      using hspells

theorem spells_packages
    (hnames : ∀ p ∈ cb.packages.items, IsName p.name)
    (h : ∀ c ∈ s.writtenClasses cb, IsReadClass common c) :
    Spells Anything (String.join (cb.packages.items.map (s.packageText cb))) (s.codebaseSigns cb) :=
  Scan.spells_concat fun p hp => spells_package hagree (hnames p hp) fun c hc =>
    h c (List.mem_flatMap.mpr ⟨p, hp, hc⟩)

end

/-! ## What is read -/

theorem notAt_class (s : WriteSettings) (c : ClassDecl) (others : List Sign) :
    NotAt Token.closeBrace (s.classSigns c ++ others) := by
  rw [WriteSettings.classSigns, WriteSettings.preambleSigns]
  cases itemAnnotations c.annotations (s.marksDeprecated c.modifiers) with
  | cons a as => exact notAt_mark.mpr (by decide)
  | nil =>
    cases s.classWords c with
    | cons word words => exact notAt_word
    | nil =>
      cases c.kind with
      | annotationType => exact notAt_mark.mpr (by decide)
      | _ => exact notAt_word

namespace Source

/-- The codebase with the classes added that are read where those of a list are written. -/
def rereadClasses (src : Source) (s : WriteSettings) (cb : Codebase) (classes : List ClassDecl) :
    Except Fault Codebase :=
  classes.foldlM (fun cb c => (src.inside s cb c).rereadClass s c >>= cb.addClass) cb

theorem rereadClasses_append
    (src : Source) (s : WriteSettings) (cb : Codebase) (classes others : List ClassDecl) :
    src.rereadClasses s cb (classes ++ others) =
      src.rereadClasses s cb classes >>= fun cb => src.rereadClasses s cb others :=
  List.foldlM_append

/-- What every step keeps is kept by all of them. -/
theorem keeps_of_foldlM
    {α β : Type} {add : β → α → Except Fault β} {P : β → Prop} (hadd : ∀ b x b', P b →
      add b x = .ok b' → P b') {xs : List α} {b b' : β} (hb : P b) (h : xs.foldlM add b = .ok b') :
    P b' := by
  induction xs generalizing b with
  | nil =>
    cases h
    exact hb
  | cons x xs ih =>
    rw [List.foldlM_cons] at h
    obtain ⟨b₁, h₁, h⟩ := bind_eq_ok.mp h
    exact ih (hadd b x b₁ hb h₁) h

/-- A class that is read back keeps its name and its package. -/
theorem name_of_rereadClass
    {src : Source} {s : WriteSettings} {c d : ClassDecl} (h : src.rereadClass s c = .ok d) :
    d.package = c.package ∧ d.name = c.name := by
  let P (d : ClassDecl) : Prop := d.package = c.package ∧ d.name = c.name
  have hshell : P (s.rereadShell (src.restored s) c) := rereadShell_name s _ c
  obtain ⟨d₁, h₁, h⟩ := bind_eq_ok.mp h
  obtain ⟨d₂, h₂, h⟩ := bind_eq_ok.mp h
  have hd₁ : P d₁ := keeps_of_foldlM
    (fun e m e' he hadd => (ClassDecl.addConstructor_eq_ok.mp hadd).2 ▸ he) hshell h₁
  have hd₂ : P d₂ := keeps_of_foldlM
    (fun e m e' he hadd => (ClassDecl.addMethod_eq_ok.mp hadd).2 ▸ he) hd₁ h₂
  have hd : P d := keeps_of_foldlM
    (fun e x e' he hadd => (ClassDecl.addField_eq_ok.mp hadd).2 ▸ he) hd₂ h
  exact hd

/-- Adding their package first makes no difference to adding classes. -/
theorem rereadClasses_addPackage
    (src : Source) (s : WriteSettings) (cb : Codebase) {package : String} {classes : List ClassDecl}
    (hne : classes ≠ []) (hpackage : ∀ c ∈ classes, c.package = package) :
    src.rereadClasses s (cb.addPackage package) classes = src.rereadClasses s cb classes := by
  obtain ⟨c, cs, rfl⟩ := List.exists_cons_of_ne_nil hne
  have hinside : src.inside s (cb.addPackage package) c = src.inside s cb c := by
    have hsame : ∀ name, (cb.addPackage package).class? name = (cb.class? name).map id :=
      fun name => (congrFun Option.map_id (cb.class? name)).symm
    rw [inside, inside, Codebase.enclosing_map (f := id) (fun _ => ⟨rfl, rfl⟩) hsame, List.map_id]
  rw [rereadClasses, rereadClasses, List.foldlM_cons, List.foldlM_cons, hinside]
  cases hclass : (src.inside s cb c).rereadClass s c with
  | error fault => rfl
  | ok d =>
    have hd : d.package = package :=
      (name_of_rereadClass hclass).1.trans (hpackage c List.mem_cons_self)
    rw [ok_bind, ← hd, Codebase.addClass_addPackage]
    rfl

section

variable {src : Source} {s : WriteSettings} (hagree : Agree s src.settings)

include hagree

/-- The classes of a package are read up to the closing brace. -/
theorem readClasses_of_renders
    {package : String} {classes : List ClassDecl}
    (h : ∀ c ∈ classes, IsReadClass src.settings.common c)
    (hplain : ∀ c ∈ classes, IsPlainClass s c) (hlayout : ∀ c ∈ classes, s.LaysOut c)
    (hpackage : ∀ c ∈ classes, c.package = package) (cb : Codebase) {rounds : Nat} {ts : List Token}
    {others : List Sign} (hrounds : ts.length < rounds)
    (hts : Renders ts (classes.flatMap s.classSigns ++ (.mark Token.closeBrace :: others))) :
    ∃ ts', Renders ts' others ∧ src.readClasses package rounds cb ts =
      (src.rereadClasses s cb classes).map fun cb => (cb, ts') := by
  induction classes generalizing cb rounds ts with
  | nil =>
    obtain ⟨rounds, rfl⟩ : ∃ n, rounds = n + 1 := ⟨rounds - 1, by omega⟩
    have hclose : atMark Token.closeBrace ts = true := atMark_of_renders hts Token.closeBrace
    refine ⟨ts.tail, hts.tail, ?_⟩
    rw [readClasses, hclose]
    rfl
  | cons c cs ih =>
    obtain ⟨rounds, rfl⟩ : ∃ n, rounds = n + 1 := ⟨rounds - 1, by omega⟩
    rw [List.flatMap_cons, List.append_assoc] at hts
    have hopen : atMark Token.closeBrace ts = false := atMark_eq_false hts (notAt_class s c _)
    obtain ⟨ts₁, hts₁, hclass⟩ := readsTo_class hagree (h c List.mem_cons_self)
      (hplain c List.mem_cons_self) (hlayout c List.mem_cons_self) cb ts _ trivial hts
    have hlength := hts.length_eq
    have hlength₁ := hts₁.length_eq
    rw [readClasses, hopen, if_neg Bool.false_ne_true, ← hpackage c List.mem_cons_self, hclass,
      rereadClasses, List.foldlM_cons]
    have hfault : ∃ ts', Renders ts' others := by
      obtain ⟨us, vs, -, -, hvs⟩ := hts₁.of_append
      exact ⟨vs.tail, hvs.tail⟩
    cases hreread : (src.inside s cb c).rereadClass s c with
    | error fault =>
      obtain ⟨ts', hts'⟩ := hfault
      exact ⟨ts', hts', rfl⟩
    | ok d =>
      cases hadd : cb.addClass d with
      | error fault =>
        obtain ⟨ts', hts'⟩ := hfault
        refine ⟨ts', hts', ?_⟩
        simp only [Except.map, ok_bind, hadd]
        rfl
      | ok cb' =>
        have hshorter : ts₁.length < rounds := by
          simp only [List.length_append, WriteSettings.classSigns, List.length_cons]
            at hlength hlength₁
          omega
        obtain ⟨ts', hts', hrest⟩ := ih (fun d hd => h d (List.mem_cons_of_mem _ hd))
          (fun d hd => hplain d (List.mem_cons_of_mem _ hd))
          (fun d hd => hlayout d (List.mem_cons_of_mem _ hd))
          (fun d hd => hpackage d (List.mem_cons_of_mem _ hd)) cb' hshorter hts₁
        refine ⟨ts', hts', ?_⟩
        simp only [Except.map, ok_bind, hadd]
        rw [hpackage c List.mem_cons_self, hrest]
        rfl

/-- The packages of a codebase are read to the end of the text. -/
theorem readPackages_of_renders
    {written cb : Codebase} {ps : List Package}
    (h : ∀ p ∈ ps, ∀ c ∈ s.writtenIn written p, IsReadClass src.settings.common c)
    (hplain : ∀ p ∈ ps, ∀ c ∈ s.writtenIn written p, IsPlainClass s c)
    (hlayout : ∀ p ∈ ps, ∀ c ∈ s.writtenIn written p, s.LaysOut c)
    (hpackage : ∀ p ∈ ps, ∀ c ∈ s.writtenIn written p, c.package = p.name) {rounds : Nat}
    {ts : List Token} (hrounds : ts.length ≤ rounds)
    (hts : Renders ts (ps.flatMap (s.packageSigns written))) :
    src.readPackages rounds cb ts = src.rereadClasses s cb (ps.flatMap (s.writtenIn written)) := by
  induction ps generalizing cb rounds ts with
  | nil =>
    cases hts
    cases rounds <;> rfl
  | cons p ps ih =>
    have ih : ∀ cb rounds ts, ts.length ≤ rounds →
        Renders ts (ps.flatMap (s.packageSigns written)) →
        src.readPackages rounds cb ts = src.rereadClasses s cb (ps.flatMap (s.writtenIn written)) :=
      fun cb rounds ts => ih (fun q hq => h q (List.mem_cons_of_mem _ hq))
        (fun q hq => hplain q (List.mem_cons_of_mem _ hq))
        (fun q hq => hlayout q (List.mem_cons_of_mem _ hq))
        (fun q hq => hpackage q (List.mem_cons_of_mem _ hq))
    rw [List.flatMap_cons, WriteSettings.packageSigns] at hts
    rw [List.flatMap_cons]
    cases hclasses : s.writtenIn written p with
    | nil =>
      rw [hclasses] at hts
      exact ih cb rounds ts hrounds hts
    | cons c cs =>
      rw [hclasses] at hts
      simp only [List.cons_append, List.append_assoc, List.nil_append] at hts
      rw [← hclasses] at hts ⊢
      cases hts with
      | @cons t _ ts _ hword hts =>
        obtain ⟨rounds, rfl⟩ : ∃ n, rounds = n + 1 := ⟨rounds - 1, by simp at hrounds; omega⟩
        have hpackages : t.isWord "package" = true := hword.isWord_eq "package"
        obtain ⟨ts₁, hname, hts₁⟩ := src.expectName_of_renders "package name" hts
        obtain ⟨ts₂, hopen, hts₂⟩ := src.expectMark_of_renders hts₁
        obtain ⟨ts₃, hts₃, hread⟩ := readClasses_of_renders hagree
          (h p List.mem_cons_self) (hplain p List.mem_cons_self) (hlayout p List.mem_cons_self)
          (hpackage p List.mem_cons_self) (cb.addPackage p.name) (Nat.lt_succ_self ts₂.length) hts₂
        have hshorter : ts₃.length ≤ rounds := by
          have hlength := Renders.length_eq hts
          have hlength₃ := hts₃.length_eq
          simp only [List.length_append, List.length_cons] at hlength hrounds
          omega
        rw [rereadClasses_addPackage src s cb (by simp [hclasses]) (hpackage p List.mem_cons_self)]
          at hread
        simp only [readPackages, hpackages, if_true, hname, hopen, ok_bind, hread]
        rw [rereadClasses_append]
        cases src.rereadClasses s cb (s.writtenIn written p) with
        | error fault => rfl
        | ok cb' => exact ih cb' rounds ts₃ hshorter hts₃

end

end Source

end Signature
end ApiSurface
