import ApiSurface.Proofs.RoundTrip.Scope

/-!
# Annotations and modifiers in front of a declaration are read back

A preamble ends where the next word is no keyword.  Deprecation is written as an annotation, or
in the compatible layout as a keyword, and read into the modifiers; modifiers without a keyword
for the kind of item are not written at all.
-/

namespace ApiSurface

namespace Modifiers

/-- Whether a word in front of a declaration is read as a modifier. -/
def isKeyword (word : String) : Bool :=
  (({} : Modifiers).withKeyword? word).isSome

/-- The modifiers after the keywords among some words. -/
def withKeywords (m : Modifiers) (words : List String) : Modifiers :=
  words.foldl (fun m word => (m.withKeyword? word).getD m) m

theorem isSome_withKeyword? (m : Modifiers) (word : String) :
    (m.withKeyword? word).isSome = isKeyword word := by
  unfold isKeyword withKeyword?
  split <;> rfl

end Modifiers

namespace Signature

open Scan (IsName Spells Anything)

/-! ## Keywords -/

def wordsIf (applies : Bool) (word : String) : List String :=
  if applies then [word] else []

namespace WriteSettings

/-- Whether the deprecation of an item is written as an annotation. -/
def marksDeprecated (s : WriteSettings) (m : Modifiers) : Bool :=
  m.isDeprecated && !s.compatible

/-- Whether methods of a class are not written as final, since the class rules out overriding. -/
def impliesFinal (s : WriteSettings) (c : ClassDecl) : Bool :=
  s.compatible && (c.kind == .enumeration || c.modifiers.isFinal)

/-- The keyword for the access of an item, and the one for deprecation. -/
def accessWords (s : WriteSettings) (m : Modifiers) : List String :=
  m.access.keyword?.toList ++ wordsIf (m.isDeprecated && s.compatible) "deprecated"

/-- The keywords of a method or constructor of a class. -/
def methodWords (s : WriteSettings) (c : ClassDecl) (m : Modifiers) : List String :=
  s.accessWords m ++ wordsIf m.isDefault "default" ++ wordsIf m.isStatic "static" ++
    wordsIf (m.isFinal && !s.impliesFinal c) "final" ++ wordsIf m.isAbstract "abstract"

def fieldWords (s : WriteSettings) (m : Modifiers) : List String :=
  s.accessWords m ++ wordsIf m.isStatic "static" ++ wordsIf m.isFinal "final" ++
    wordsIf m.isTransient "transient" ++ wordsIf m.isVolatile "volatile"

def classWords (s : WriteSettings) (c : ClassDecl) : List String :=
  s.accessWords c.modifiers ++ wordsIf c.modifiers.isStatic "static" ++
    wordsIf c.modifiers.isFinal "final" ++ wordsIf (s.writesAbstract c) "abstract" ++
    wordsIf c.modifiers.isSealed "sealed"

end WriteSettings

theorem withKeywords_append (m : Modifiers) (words others : List String) :
    m.withKeywords (words ++ others) = (m.withKeywords words).withKeywords others :=
  List.foldl_append

/-- Access and deprecation are told by an annotation and keywords together. -/
theorem withKeywords_accessWords (s : WriteSettings) (m : Modifiers) :
    Modifiers.withKeywords { isDeprecated := s.marksDeprecated m } (s.accessWords m) =
      { access := m.access, isDeprecated := m.isDeprecated } := by
  rw [WriteSettings.marksDeprecated, WriteSettings.accessWords]
  cases m.access <;> cases m.isDeprecated <;> cases s.compatible <;> rfl

theorem withKeywords_methodWords
    (s : WriteSettings) (c : ClassDecl) {m : Modifiers} (hsealed : m.isSealed = false)
    (htransient : m.isTransient = false) (hvolatile : m.isVolatile = false)
    (hfinal : s.impliesFinal c = true → m.isFinal = false) :
    Modifiers.withKeywords { isDeprecated := s.marksDeprecated m } (s.methodWords c m) = m := by
  have hkept : (m.isFinal && !s.impliesFinal c) = m.isFinal := by
    cases himplied : s.impliesFinal c with
    | false => rw [Bool.not_false, Bool.and_true]
    | true => rw [hfinal himplied, Bool.false_and]
  simp only [WriteSettings.methodWords, withKeywords_append, withKeywords_accessWords, hkept]
  obtain ⟨access, isStatic, isFinal, isAbstract, isDefault, isSealed, isTransient, isVolatile,
    isDeprecated⟩ := m
  simp only at hsealed htransient hvolatile
  subst hsealed htransient hvolatile
  cases isStatic <;> cases isFinal <;> cases isAbstract <;> cases isDefault <;> rfl

theorem withKeywords_fieldWords
    (s : WriteSettings) {m : Modifiers} (hdefault : m.isDefault = false)
    (habstract : m.isAbstract = false) (hsealed : m.isSealed = false) :
    Modifiers.withKeywords { isDeprecated := s.marksDeprecated m } (s.fieldWords m) = m := by
  simp only [WriteSettings.fieldWords, withKeywords_append, withKeywords_accessWords]
  obtain ⟨access, isStatic, isFinal, isAbstract, isDefault, isSealed, isTransient, isVolatile,
    isDeprecated⟩ := m
  simp only at hdefault habstract hsealed
  subst hdefault habstract hsealed
  cases isStatic <;> cases isFinal <;> cases isTransient <;> cases isVolatile <;> rfl

theorem withKeywords_classWords
    (s : WriteSettings) {c : ClassDecl} (hdefault : c.modifiers.isDefault = false)
    (htransient : c.modifiers.isTransient = false) (hvolatile : c.modifiers.isVolatile = false) :
    Modifiers.withKeywords { isDeprecated := s.marksDeprecated c.modifiers } (s.classWords c) =
      { c.modifiers with isAbstract := s.writesAbstract c } := by
  simp only [WriteSettings.classWords, withKeywords_append, withKeywords_accessWords]
  generalize s.writesAbstract c = isAbstract
  generalize c.modifiers = m at *
  obtain ⟨access, isStatic, isFinal, _, isDefault, isSealed, isTransient, isVolatile,
    isDeprecated⟩ := m
  simp only at hdefault htransient hvolatile
  subst hdefault htransient hvolatile
  cases isStatic <;> cases isFinal <;> cases isAbstract <;> cases isSealed <;> rfl

theorem isKeyword_of_mem_wordsIf
    {applies : Bool} {word other : String} (h : Modifiers.isKeyword word = true)
    (hother : other ∈ wordsIf applies word) : Modifiers.isKeyword other = true := by
  cases applies with
  | false => cases hother
  | true => rwa [List.mem_singleton.mp hother]

theorem isKeyword_of_mem_accessWords
    {s : WriteSettings} {m : Modifiers} {word : String} (h : word ∈ s.accessWords m) :
    Modifiers.isKeyword word = true := by
  rcases List.mem_append.mp h with h | h
  · cases hm : m.access with
    | priv => rw [hm] at h; rw [List.mem_singleton.mp h]; decide
    | pack => rw [hm] at h; cases h
    | prot => rw [hm] at h; rw [List.mem_singleton.mp h]; decide
    | pub => rw [hm] at h; rw [List.mem_singleton.mp h]; decide
  · exact isKeyword_of_mem_wordsIf (by decide) h

theorem spells_wordIf
    {word : String} (h : IsName word) (applies : Bool) :
    Spells Anything (wordIf applies word) ((wordsIf applies word).map Sign.word) := by
  cases applies with
  | false => exact Scan.spells_empty _
  | true => exact Scan.spells_word h

theorem spells_access (s : WriteSettings) (m : Modifiers) :
    Spells Anything (s.accessText m) ((s.accessWords m).map Sign.word) := by
  have hdeprecated := spells_wordIf (show IsName "deprecated" by decide)
    (m.isDeprecated && s.compatible)
  rw [WriteSettings.accessText, WriteSettings.accessWords, List.map_append]
  cases m.access with
  | priv => exact (Scan.spells_word (show IsName "private" by decide)).seq hdeprecated
  | pack => exact (Scan.spells_empty _).seq hdeprecated
  | prot => exact (Scan.spells_word (show IsName "protected" by decide)).seq hdeprecated
  | pub => exact (Scan.spells_word (show IsName "public" by decide)).seq hdeprecated

theorem spells_methodModifiers (s : WriteSettings) (c : ClassDecl) (m : Modifiers) :
    Spells Anything (s.methodModifiersText c m) ((s.methodWords c m).map Sign.word) := by
  have hdefault := spells_wordIf (show IsName "default" by decide) m.isDefault
  have hstatic := spells_wordIf (show IsName "static" by decide) m.isStatic
  have hfinal := spells_wordIf (show IsName "final" by decide) (m.isFinal && !s.impliesFinal c)
  have habstract := spells_wordIf (show IsName "abstract" by decide) m.isAbstract
  simp only [WriteSettings.methodModifiersText, WriteSettings.methodWords, List.map_append]
  exact ((((spells_access s m).seq hdefault).seq hstatic).seq hfinal).seq habstract

theorem spells_fieldModifiers (s : WriteSettings) (m : Modifiers) :
    Spells Anything (s.fieldModifiersText m) ((s.fieldWords m).map Sign.word) := by
  have hstatic := spells_wordIf (show IsName "static" by decide) m.isStatic
  have hfinal := spells_wordIf (show IsName "final" by decide) m.isFinal
  have htransient := spells_wordIf (show IsName "transient" by decide) m.isTransient
  have hvolatile := spells_wordIf (show IsName "volatile" by decide) m.isVolatile
  simp only [WriteSettings.fieldModifiersText, WriteSettings.fieldWords, List.map_append]
  exact ((((spells_access s m).seq hstatic).seq hfinal).seq htransient).seq hvolatile

theorem spells_classModifiers (s : WriteSettings) (c : ClassDecl) :
    Spells Anything (s.classModifiersText c) ((s.classWords c).map Sign.word) := by
  have hstatic := spells_wordIf (show IsName "static" by decide) c.modifiers.isStatic
  have hfinal := spells_wordIf (show IsName "final" by decide) c.modifiers.isFinal
  have habstract := spells_wordIf (show IsName "abstract" by decide) (s.writesAbstract c)
  have hsealed := spells_wordIf (show IsName "sealed" by decide) c.modifiers.isSealed
  simp only [WriteSettings.classModifiersText, WriteSettings.classWords, List.map_append]
  exact ((((spells_access s c.modifiers).seq hstatic).seq hfinal).seq habstract).seq hsealed

theorem isKeyword_of_mem_methodWords
    {s : WriteSettings} {c : ClassDecl} {m : Modifiers} {word : String}
    (h : word ∈ s.methodWords c m) :
    Modifiers.isKeyword word = true := by
  simp only [WriteSettings.methodWords, List.mem_append] at h
  rcases h with (((h | h) | h) | h) | h
  · exact isKeyword_of_mem_accessWords h
  all_goals exact isKeyword_of_mem_wordsIf (by decide) h

theorem isKeyword_of_mem_fieldWords
    {s : WriteSettings} {m : Modifiers} {word : String} (h : word ∈ s.fieldWords m) :
    Modifiers.isKeyword word = true := by
  simp only [WriteSettings.fieldWords, List.mem_append] at h
  rcases h with (((h | h) | h) | h) | h
  · exact isKeyword_of_mem_accessWords h
  all_goals exact isKeyword_of_mem_wordsIf (by decide) h

theorem isKeyword_of_mem_classWords
    {s : WriteSettings} {c : ClassDecl} {word : String} (h : word ∈ s.classWords c) :
    Modifiers.isKeyword word = true := by
  simp only [WriteSettings.classWords, List.mem_append] at h
  rcases h with (((h | h) | h) | h) | h
  · exact isKeyword_of_mem_accessWords h
  all_goals exact isKeyword_of_mem_wordsIf (by decide) h

/-! ## Annotations of an item -/

/-- An annotation that is read back in a preamble: it can be written, it does not deprecate its
item, and it does not look like the start of an annotation type. -/
structure IsItemAnnotation (s : WriteSettings) (common : Option CommonPackages) (a : Annotation) :
    Prop where
  legible : IsLegibleAnnotation common a
  lasting : a.isDeprecated = false
  written : s.annotationName a.name ≠ "interface"

def itemAnnotations (annotations : List Annotation) (deprecated : Bool) : List Annotation :=
  (if deprecated then [{ name := Annotation.deprecatedName }] else []) ++ annotations

/-- A name that is written like the start of an annotation type ends like that, too. -/
theorem annotationName_eq_interface
    {s : WriteSettings} {name : String} (h : s.annotationName name = "interface") :
    name = "interface" ∨ ".interface".toList <:+ name.toList := by
  rw [WriteSettings.annotationName] at h
  split at h
  · rename_i common _
    rcases common.shorten_cases .annotationType name with hkept | ⟨xs, ys, hname, hshort, -, -⟩
    · exact .inl (hkept.symm.trans h)
    · rw [hshort, ← String.toList_inj, String.toList_ofList] at h
      exact .inr ⟨xs, by rw [hname, h]; rfl⟩
  · exact .inl h

theorem written_ne_interface
    (s : WriteSettings) {name : String} (h : name ≠ "interface")
    (hsuffix : ¬ ".interface".toList <:+ name.toList) : s.annotationName name ≠ "interface" :=
  fun heq => (annotationName_eq_interface heq).elim h hsuffix

theorem isItemAnnotation_nullness
    (s : WriteSettings) (common : Option CommonPackages) (n : Nullability) :
    ∀ a ∈ nullnessAnnotation n, IsItemAnnotation s common a := by
  intro a ha
  have hlegible := isLegible_nullnessAnnotation common n a ha
  cases n with
  | unknown => cases ha
  | nullable =>
    obtain rfl := List.mem_singleton.mp ha
    exact ⟨hlegible, by decide, written_ne_interface s (by decide) (by decide)⟩
  | nonNull =>
    obtain rfl := List.mem_singleton.mp ha
    exact ⟨hlegible, by decide, written_ne_interface s (by decide) (by decide)⟩

theorem isLegible_itemAnnotations
    {common : Option CommonPackages} {annotations : List Annotation}
    (h : ∀ a ∈ annotations, IsLegibleAnnotation common a) (deprecated : Bool) :
    ∀ a ∈ itemAnnotations annotations deprecated, IsLegibleAnnotation common a := by
  intro a ha
  rcases List.mem_append.mp ha with ha | ha
  · cases deprecated with
    | false => cases ha
    | true =>
      have hname : IsName Annotation.deprecatedName := by decide
      obtain rfl := List.mem_singleton.mp ha
      exact ⟨⟨hname, fun _ => by decide⟩, by simp, by simp⟩
  · exact h a ha

theorem spells_itemAnnotations
    {common : Option CommonPackages} {s : WriteSettings} (hs : s.capabilities.annotations = true)
    {annotations : List Annotation} (h : ∀ a ∈ annotations, IsLegibleAnnotation common a)
    (m : Modifiers) :
    Spells Anything (s.itemAnnotationsText annotations m.isDeprecated)
      ((itemAnnotations annotations (s.marksDeprecated m)).flatMap s.annotationSigns) :=
  spells_annotations hs (isLegible_itemAnnotations h (s.marksDeprecated m))

/-! ## Preambles are read back -/

/-- The signs cannot continue the preamble in front of them. -/
def PreambleEnds : List Sign → Prop
  | [] => True
  | s :: signs =>
    s.isMark "(" = false ∧
      (s.isMark "@" = true → (signs.head?.any fun s => s.isWord "interface") = true) ∧
      (s.isName = true → Modifiers.isKeyword s.text = false)

theorem preambleEnds_mark
    {mark : String} (hopen : mark ≠ "(") (hat : mark ≠ "@") (signs : List Sign) :
    PreambleEnds (.mark mark :: signs) :=
  ⟨by simpa using hopen, by simpa using fun h => absurd h hat, by simp⟩

theorem preambleEnds_word
    {word : String} (h : Modifiers.isKeyword word = false) (signs : List Sign) :
    PreambleEnds (.word word :: signs) :=
  ⟨by simp, by simp, fun _ => h⟩

theorem preambleEnds_interface (signs : List Sign) :
    PreambleEnds (.mark "@" :: .word "interface" :: signs) :=
  ⟨by decide, by simp, by simp⟩

theorem PreambleEnds.notAt {signs : List Sign} (h : PreambleEnds signs) : NotAt "(" signs := by
  cases signs with
  | nil => exact notAt_nil "("
  | cons s signs => exact h.1

/-- Signs that may stand behind an annotation without arguments. -/
theorem notAt_annotations
    (s : WriteSettings) (annotations : List Annotation) {signs : List Sign} (h : NotAt "(" signs) :
    NotAt "(" (annotations.flatMap s.annotationSigns ++ signs) := by
  cases annotations with
  | nil => exact h
  | cons a as => exact notAt_mark.mpr (by decide)

theorem notAt_words
    (words : List String) {signs : List Sign} (h : NotAt "(" signs) :
    NotAt "(" (words.map Sign.word ++ signs) := by
  cases words with
  | nil => exact h
  | cons w ws => exact notAt_word

namespace Source

theorem extendPreamble_end
    (src : Source) {signs : List Sign} (h : PreambleEnds signs) {ts : List Token}
    (hts : Renders ts signs) (rounds : Nat) (p : Preamble) :
    src.extendPreamble rounds p ts = .ok (p, ts) := by
  cases rounds with
  | zero => rfl
  | succ rounds =>
    cases hts with
    | nil => rfl
    | @cons t s ts signs hs hrest =>
      obtain ⟨-, hinterface, hword⟩ := h
      have hat : (t.isMark "@" && !atWord "interface" ts) = false := by
        rw [hs.isMark_eq, atWord_of_renders hrest]
        cases hmark : s.isMark "@" with
        | false => rfl
        | true => rw [hinterface hmark]; rfl
      rw [extendPreamble, if_neg (by rw [hat]; exact Bool.false_ne_true)]
      split
      · rename_i hkind
        have hname : s.isName = true := by rw [Sign.isName, ← hs.kind, hkind]; rfl
        have hnone : p.modifiers.withKeyword? t.text = none := by
          rw [← Option.not_isSome_iff_eq_none, Modifiers.isSome_withKeyword?, hs.text, hword hname]
          exact Bool.false_ne_true
        rw [hnone]
      · rfl

theorem extendPreamble_annotation
    {src : Source} {s : WriteSettings} (hagree : Agree s src.settings) {a : Annotation}
    (h : IsLegibleAnnotation src.settings.common a)
    (hwritten : s.annotationName a.name ≠ "interface")
    {ts : List Token} {others : List Sign} (hothers : NotAt "(" others)
    (hts : Renders ts (s.annotationSigns a ++ others)) (rounds : Nat) (p : Preamble) :
    ∃ ts', Renders ts' others ∧
      src.extendPreamble (rounds + 1) p ts = src.extendPreamble rounds (p.annotate a) ts' := by
  obtain ⟨ts', hread, hts'⟩ := readsAs_annotation hagree h ts others hothers hts
  refine ⟨ts', hts', ?_⟩
  cases hts with
  | @cons t _ us _ hs hrest =>
    have hat : t.isMark "@" = true := hs.isMark_eq "@"
    have hname : atWord "interface" us = false := by
      rw [atWord_of_renders hrest]
      simpa using hwritten
    simp only [extendPreamble, hat, hname, Bool.not_false, Bool.and_true, if_true, hread, ok_bind]

/-- Annotations are taken over into the preamble. -/
theorem extendPreamble_annotations
    {src : Source} {s : WriteSettings} (hagree : Agree s src.settings)
    {annotations : List Annotation}
    (h : ∀ a ∈ annotations, IsLegibleAnnotation src.settings.common a)
    (hwritten : ∀ a ∈ annotations, s.annotationName a.name ≠ "interface")
    {ts : List Token} {others : List Sign} (hothers : NotAt "(" others)
    (hts : Renders ts (annotations.flatMap s.annotationSigns ++ others)) {rounds : Nat}
    (hrounds : ts.length ≤ rounds) (p : Preamble) :
    ∃ rounds' ts', ts'.length ≤ rounds' ∧ Renders ts' others ∧
      src.extendPreamble rounds p ts =
        src.extendPreamble rounds' (annotations.foldl Preamble.annotate p) ts' := by
  induction annotations generalizing ts rounds p with
  | nil => exact ⟨rounds, ts, hrounds, hts, rfl⟩
  | cons a as ih =>
    have hlength := hts.length_eq
    rw [List.flatMap_cons, List.append_assoc] at hts
    obtain ⟨rounds, rfl⟩ : ∃ n, rounds = n + 1 := by
      refine ⟨rounds - 1, ?_⟩
      simp [WriteSettings.annotationSigns] at hlength
      omega
    obtain ⟨ts₁, hts₁, hstep⟩ := extendPreamble_annotation hagree (h a List.mem_cons_self)
      (hwritten a List.mem_cons_self) (notAt_annotations s as hothers) hts rounds p
    have hlength₁ := hts₁.length_eq
    have hrounds₁ : ts₁.length ≤ rounds := by
      simp [WriteSettings.annotationSigns] at hlength hlength₁
      omega
    obtain ⟨rounds', ts', hrounds', hts', hrest⟩ := ih (fun b hb => h b (List.mem_cons_of_mem _ hb))
      (fun b hb => hwritten b (List.mem_cons_of_mem _ hb)) hts₁ hrounds₁ (p.annotate a)
    exact ⟨rounds', ts', hrounds', hts', hstep.trans hrest⟩

/-- Keywords are taken over into the preamble. -/
theorem extendPreamble_keywords
    (src : Source) {words : List String} (h : ∀ word ∈ words, Modifiers.isKeyword word = true)
    {ts : List Token} {others : List Sign} (hts : Renders ts (words.map Sign.word ++ others))
    {rounds : Nat} (hrounds : ts.length ≤ rounds) (p : Preamble) :
    ∃ rounds' ts', ts'.length ≤ rounds' ∧ Renders ts' others ∧
      src.extendPreamble rounds p ts = src.extendPreamble rounds'
        { p with modifiers := p.modifiers.withKeywords words } ts' := by
  induction words generalizing ts rounds p with
  | nil => exact ⟨rounds, ts, hrounds, hts, rfl⟩
  | cons word words ih =>
    cases hts with
    | @cons t _ ts _ hs hrest =>
      obtain ⟨rounds, rfl⟩ : ∃ n, rounds = n + 1 := ⟨rounds - 1, by simp at hrounds; omega⟩
      have hmark : t.isMark "@" = false := hs.isMark_eq "@"
      have hkind : t.kind = .identifier := hs.kind
      have htext : t.text = word := hs.text
      have hsome := p.modifiers.isSome_withKeyword? word
      rw [h word List.mem_cons_self] at hsome
      obtain ⟨modifiers, hmodifiers⟩ := Option.isSome_iff_exists.mp hsome
      obtain ⟨rounds', ts', hrounds', hts', hread⟩ :=
        ih (fun w hw => h w (List.mem_cons_of_mem _ hw)) hrest (by simpa using hrounds)
          { p with modifiers }
      refine ⟨rounds', ts', hrounds', hts', ?_⟩
      simp only [extendPreamble, hmark, Bool.false_and, hkind, htext, hmodifiers, if_true, hread,
        Modifiers.withKeywords, List.foldl_cons, Option.getD_some]
      rfl

end Source

/-- The signs of annotations and keywords in front of an item. -/
def WriteSettings.preambleSigns (s : WriteSettings) (annotations : List Annotation)
    (deprecated : Bool) (words : List String) : List Sign :=
  (itemAnnotations annotations deprecated).flatMap s.annotationSigns ++ words.map Sign.word

theorem foldl_annotate
    {annotations : List Annotation} (h : ∀ a ∈ annotations, a.isDeprecated = false) (p : Preamble) :
    annotations.foldl Preamble.annotate p =
      { p with annotations := p.annotations ++ annotations } := by
  induction annotations generalizing p with
  | nil => simp
  | cons a as ih =>
    have ha : a.isDeprecated = false := h a List.mem_cons_self
    rw [List.foldl_cons, ih fun b hb => h b (List.mem_cons_of_mem _ hb)]
    simp [Preamble.annotate, ha]

theorem foldl_itemAnnotations
    {annotations : List Annotation} (h : ∀ a ∈ annotations, a.isDeprecated = false)
    (deprecated : Bool) :
    (itemAnnotations annotations deprecated).foldl Preamble.annotate {} =
      ⟨annotations, { isDeprecated := deprecated }⟩ := by
  rw [itemAnnotations, List.foldl_append, foldl_annotate h]
  cases deprecated <;> rfl

/-- Annotations, keywords and the annotations of a type behind them are read as one preamble. -/
theorem Source.readsAs_preamble
    {src : Source} {s : WriteSettings} (hagree : Agree s src.settings)
    {annotations lead : List Annotation} {words : List String}
    (h : ∀ a ∈ annotations, IsItemAnnotation s src.settings.common a)
    (hlead : ∀ a ∈ lead, IsItemAnnotation s src.settings.common a)
    (hwords : ∀ word ∈ words, Modifiers.isKeyword word = true) (deprecated : Bool) :
    ReadsAs src.readPreamble PreambleEnds
      (s.preambleSigns annotations deprecated words ++ lead.flatMap s.annotationSigns)
      ⟨annotations ++ lead, Modifiers.withKeywords { isDeprecated := deprecated } words⟩ := by
  have hitem : ∀ a ∈ itemAnnotations annotations deprecated,
      s.annotationName a.name ≠ "interface" := by
    intro a ha
    rcases List.mem_append.mp ha with ha | ha
    · cases deprecated with
      | false => cases ha
      | true =>
        obtain rfl := List.mem_singleton.mp ha
        exact written_ne_interface s (by decide) (by decide)
    · exact (h a ha).written
  intro ts others hothers hts
  simp only [WriteSettings.preambleSigns, List.append_assoc] at hts
  obtain ⟨rounds₁, ts₁, hrounds₁, hts₁, hread₁⟩ := extendPreamble_annotations hagree
    (isLegible_itemAnnotations (fun a ha => (h a ha).legible) deprecated) hitem
    (notAt_words words (notAt_annotations s lead hothers.notAt)) hts (Nat.le_refl _) {}
  rw [foldl_itemAnnotations fun a ha => (h a ha).lasting] at hread₁
  obtain ⟨rounds₂, ts₂, hrounds₂, hts₂, hread₂⟩ :=
    src.extendPreamble_keywords hwords hts₁ hrounds₁ ⟨annotations, { isDeprecated := deprecated }⟩
  obtain ⟨rounds₃, ts₃, -, hts₃, hread₃⟩ := extendPreamble_annotations hagree
    (fun a ha => (hlead a ha).legible) (fun a ha => (hlead a ha).written) hothers.notAt
    hts₂ hrounds₂
    ⟨annotations, Modifiers.withKeywords { isDeprecated := deprecated } words⟩
  rw [foldl_annotate fun a ha => (hlead a ha).lasting] at hread₃
  refine ⟨ts₃, ?_, hts₃⟩
  rw [readPreamble, hread₁, hread₂, hread₃, src.extendPreamble_end hothers hts₃]

theorem Source.readsAs_preamble_alone
    {src : Source} {s : WriteSettings} (hagree : Agree s src.settings)
    {annotations : List Annotation} {words : List String}
    (h : ∀ a ∈ annotations, IsItemAnnotation s src.settings.common a)
    (hwords : ∀ word ∈ words, Modifiers.isKeyword word = true) (deprecated : Bool) :
    ReadsAs src.readPreamble PreambleEnds (s.preambleSigns annotations deprecated words)
      ⟨annotations, Modifiers.withKeywords { isDeprecated := deprecated } words⟩ := by
  have hread := readsAs_preamble hagree h (List.forall_mem_nil _) hwords deprecated
  rwa [List.flatMap_nil, List.append_nil, List.append_nil] at hread

end Signature
end ApiSurface
