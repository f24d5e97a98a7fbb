import ApiSurface.Proofs.Layout.Values
import ApiSurface.Proofs.RoundTrip.Text

/-!
# Layout and header

Two texts whose tokens are written alike are read alike, whatever blanks and comments stand
between the tokens, except for the blanks inside values.  A header is a comment to the scanner:
in front of a text it says no more than the version that the options could have asked for.
-/

namespace ApiSurface
namespace Signature

open Scan (Reads Scans splitBlank scanFrom scanFrom_cases)

/-! ## Texts with the same tokens -/

theorem echoes_of_forall₂
    {common : Token → Token → Prop} {ts us : List Token}
    (h : List.Forall₂ (fun t u => t.kind = u.kind ∧ t.text = u.text ∧ common t u) ts us) :
    Echoes common [] ts us := by
  induction h with
  | nil => exact .nil
  | cons hfirst _ ih => exact .cons hfirst.1 hfirst.2.1 hfirst.2.2 ih

theorem file_of_resolve
    {options : ReadOptions} {declared : Option Format} {settings : ReadSettings}
    (h : options.resolve declared = .ok settings) : settings.file = options.file := by
  simp only [ReadOptions.resolve] at h
  split at h
  · split at h
    · split at h <;> cases h
      rfl
    · cases h
  all_goals
    split at h <;> cases h
    rfl

/-- What a text is read as follows from its settings and its tokens. -/
theorem read_of_scan
    {options : ReadOptions} {text : String} {declared : Option Format} {settings : ReadSettings}
    {s : Scan} (hdeclared : Header.declared text = .ok declared)
    (hsettings : options.resolve declared = .ok settings)
    (hscan : scan options.file text = .ok s) :
    read options text =
        Source.readPackages { settings, finish := s.finish } s.tokens.length ∅ s.tokens ∧
      values options text =
        Source.packagesValues { settings, finish := s.finish } s.tokens.length ∅ s.tokens := by
  rw [← file_of_resolve hsettings] at hscan
  constructor
  · rw [read, hdeclared, ok_bind, hsettings, ok_bind, hscan, ok_bind]
  · rw [values, hdeclared, ok_bind, hsettings, ok_bind, hscan]
    rfl

theorem exists_of_read
    {options : ReadOptions} {text : String} {cb : Codebase} (h : read options text = .ok cb) :
    ∃ declared settings s, Header.declared text = .ok declared ∧
      options.resolve declared = .ok settings ∧ scan options.file text = .ok s := by
  obtain ⟨declared, hdeclared, h⟩ := bind_eq_ok.mp h
  obtain ⟨settings, hsettings, h⟩ := bind_eq_ok.mp h
  obtain ⟨s, hscan, -⟩ := bind_eq_ok.mp h
  rw [file_of_resolve hsettings] at hscan
  exact ⟨declared, settings, s, hdeclared, hsettings, hscan⟩

theorem read_of_alike
    {options : ReadOptions} {text text' : String} {s s' : Scan} {cb : Codebase}
    (hdeclared : Header.declared text' = Header.declared text)
    (hscan : scan options.file text = .ok s) (hscan' : scan options.file text' = .ok s')
    (h : Echoes (Alike fun t => t ∈ tokensInside options text) [] s.tokens s'.tokens)
    (hread : read options text = .ok cb) : read options text' = .ok cb := by
  obtain ⟨declared, settings, s₁, hheader, hsettings, hscan₁⟩ := exists_of_read hread
  cases hscan.symm.trans hscan₁
  obtain ⟨heq, hvalues⟩ := read_of_scan hheader hsettings hscan
  rw [(read_of_scan (hdeclared.trans hheader) hsettings hscan').1]
  rw [heq] at hread
  have hcovers : Covers (fun t => t ∈ tokensInside options text) (values options text) :=
    fun value hvalue t ht => List.mem_flatMap.mpr ⟨value, hvalue, ht⟩
  rw [hvalues] at hcovers
  rw [← h.length_eq]
  generalize s.tokens = ts, s'.tokens = us at h hread hcovers
  cases h with
  | nil => exact hread
  | cons kind text _ others =>
    exact Source.readPackages_of_echoes s'.finish kind text others hcovers hread

/-! ## Headers -/

theorem scans_of_scanFrom
    {file : String} {p : Position} {cs : List Char} {s : Scan} (h : scanFrom file p cs = .ok s) :
    Scans cs (s.tokens.map Token.exactSign) := by
  generalize htokens : s.tokens = ts
  induction ts generalizing p cs s with
  | nil =>
    rcases scanFrom_cases h with ⟨blank, hblank, -⟩ | ⟨_, _, _, _, _, _, _, _, _, _, hcons, -⟩
    · exact ⟨cs, .nil cs, by rw [hblank]⟩
    · rw [htokens] at hcons
      cases hcons
  | cons t ts ih =>
    rcases scanFrom_cases h with
      ⟨_, _, hnil⟩ |
      ⟨blank, c, body, l, rest, u, vs, p', hblank, hlexeme, hcons, hkind, htext, hfront,
        hsource, h'⟩
    · rw [hnil] at htokens
      cases htokens
    · rw [hcons] at htokens
      obtain ⟨rfl, rfl⟩ := List.cons.inj htokens
      obtain ⟨last, hcuts, hend⟩ := ih h' rfl
      refine ⟨last, .cons hblank hlexeme hkind htext ?_ ?_ hcuts, hend⟩
      · simpa [Token.exactSign] using hsource.symm
      · simpa [Token.exactSign] using hfront.symm

/-- Tokens of a text are found again where the text is moved by blanks. -/
theorem reads_of_scanFrom
    {file : String} {p : Position} {cs : List Char} {s : Scan} (h : scanFrom file p cs = .ok s) :
    Reads cs (Token.exactSigns s.tokens) := by
  have hscans := scans_of_scanFrom h
  cases htokens : s.tokens with
  | nil =>
    rw [htokens] at hscans
    exact ⟨by simp [Scan.FreeStart, Token.exactSigns], hscans⟩
  | cons t ts =>
    rw [htokens] at hscans
    obtain ⟨rest, hcuts, hend⟩ := hscans
    refine ⟨by simp [Scan.FreeStart, Token.exactSigns], rest, ?_, hend⟩
    cases hcuts with
    | cons hblank hlexeme hkind htext hsource _ hcuts =>
      exact .cons hblank hlexeme hkind htext hsource (by simp) hcuts

section Header

variable {v : Format} {header : String} (hheader : v.capabilities.header = some header)

include hheader

theorem splitBlank_header (text : String) :
    (splitBlank false (header ++ "\n" ++ text).toList).2 = (splitBlank false text.toList).2 := by
  cases v with
  | v1 => cases hheader
  | v2 =>
    cases hheader
    rw [String.toList_append]
    rfl
  | v3 =>
    cases hheader
    rw [String.toList_append]
    rfl

theorem declared_header (text : String) :
    Header.declared (header ++ "\n" ++ text) = .ok (some v) := by
  have hpieces : '\n' ∉ header.toList → Text.pieces '\n' (header ++ "\n" ++ text).toList =
      header.toList :: Text.pieces '\n' text.toList := by
    intro hline
    rw [String.append_assoc, String.toList_append, String.toList_append]
    exact Text.pieces_append hline _
  cases v with
  | v1 => cases hheader
  | v2 =>
    cases hheader
    rw [Header.declared, Header.line?, hpieces (by decide)]
    rfl
  | v3 =>
    cases hheader
    rw [Header.declared, Header.line?, hpieces (by decide)]
    rfl

/-- A header says what the options could have asked for. -/
theorem read_of_header
    {options options' : ReadOptions} {text : String} {settings : ReadSettings} {cb : Codebase}
    (hsettings : options.resolve none = .ok settings)
    (hsettings' : options'.resolve (some v) = .ok settings)
    (hdeclared : Header.declared text = .ok none) (hread : read options text = .ok cb) :
    read options' (header ++ "\n" ++ text) = .ok cb := by
  obtain ⟨_, _, s, _, _, hscan⟩ := exists_of_read hread
  have hreads := (reads_of_scanFrom hscan).of_remainder (splitBlank_header hheader text)
  obtain ⟨s', hscan', hrenders⟩ := hreads.scans.scanFrom_eq_ok options'.file {}
  rw [(read_of_scan (declared_header hheader text) hsettings' hscan').1]
  rw [(read_of_scan hdeclared hsettings hscan).1] at hread
  generalize s.tokens = ts, s'.tokens = us at hread hrenders ⊢
  cases ts with
  | nil =>
    cases hrenders
    exact hread
  | cons t ts =>
    cases hrenders with
    | cons hfirst hothers =>
      have hechoes : Echoes (Alike fun _ => True) [] ts _ := echoes_of_renders hothers
      rw [List.length_cons, ← hechoes.length_eq]
      exact Source.readPackages_of_echoes s'.finish hfirst.kind.symm hfirst.text.symm hechoes
        (fun _ _ _ _ => trivial) hread

end Header

/-- Tokens of two texts are written alike, with the same blanks in front of them where one of them
stands inside a value. -/
def Corresponds (options : ReadOptions) (text text' : String) (t u : Token) : Prop :=
  t.kind = u.kind ∧ t.text = u.text ∧ t.lexeme = u.lexeme ∧
    (t ∈ tokensInside options text ∨ u ∈ tokensInside options text' → t.blank = u.blank)

instance (options : ReadOptions) (text text' : String) :
    DecidableRel (Corresponds options text text') :=
  fun _ _ => inferInstanceAs (Decidable (_ ∧ _))

/-- Layout makes no difference.  In front of a text without a header, the header of a version makes
the text read as with the option for that version, with or without the option.  Texts that declare
the same version and have corresponding tokens are read alike, or refused both. -/
theorem read_header_and_layout (options : ReadOptions) :
    (∀ (v : Format) (header text : String) (cb : Codebase),
      v.capabilities.header = some header → Header.declared text = .ok none →
      read { options with format := some v } text = .ok cb →
      read { options with format := some v } (header ++ "\n" ++ text) = .ok cb ∧
        read { options with format := none } (header ++ "\n" ++ text) = .ok cb) ∧
      ∀ (text text' : String) (s s' : Scan),
        Header.declared text = Header.declared text' →
        scan options.file text = .ok s → scan options.file text' = .ok s' →
        List.Forall₂ (Corresponds options text text') s.tokens s'.tokens →
        (read options text).toOption = (read options text').toOption := by
  refine ⟨fun v header text cb hheader hdeclared hread => ?_,
    fun text text' s s' hdeclared hscan hscan' htokens => ?_⟩
  · obtain ⟨declared, settings, s, hdeclared', hsettings, -⟩ := exists_of_read hread
    cases hdeclared.symm.trans hdeclared'
    refine ⟨read_of_header hheader hsettings ?_ hdeclared hread,
      read_of_header hheader hsettings ?_ hdeclared hread⟩
    · simpa [ReadOptions.resolve] using hsettings
    · simpa [ReadOptions.resolve] using hsettings
  · have hechoes : Echoes (Alike fun t => t ∈ tokensInside options text) [] s.tokens s'.tokens :=
      echoes_of_forall₂ (htokens.imp fun t u h =>
        ⟨h.1, h.2.1, h.2.2.1, fun ht => h.2.2.2 (.inl ht)⟩)
    have hechoes' : Echoes (Alike fun t => t ∈ tokensInside options text') [] s'.tokens s.tokens :=
      echoes_of_forall₂ (htokens.flip.imp fun u t h =>
        ⟨h.1.symm, h.2.1.symm, h.2.2.1.symm, fun hu => (h.2.2.2 (.inr hu)).symm⟩)
    cases hread : read options text with
    | ok cb => rw [read_of_alike hdeclared.symm hscan hscan' hechoes hread]
    | error fault =>
      cases hread' : read options text' with
      | error fault' => rfl
      | ok cb =>
        rw [read_of_alike hdeclared hscan' hscan hechoes' hread'] at hread
        cases hread

/-- A class with a value and a default that have blanks inside them. -/
def dialText : String :=
  "package a \x7b class Dial \x7b field int top = 1 + 2; " ++
    "method void turn(int by = (3 , 4)); \x7d\x7d"

/-- The same class with comments and other blanks between its tokens. -/
def dialPage : String :=
  "# dials\npackage a\x7b class Dial\x7b // one\n" ++
    "  field int top =1 + 2 ;\n\n  method void turn (int by=(3 , 4) );\x7d\x7d"

def dial : ClassDecl :=
  { ClassDecl.declare "a" "Dial" .ordinary with
    fields :=
      [{ name := "top", owner := "a.Dial", modifiers := {}, type := .named "int"
         value := some "1 + 2" }]
    methods :=
      [{ name := "turn", owner := "a.Dial", modifiers := {}, returnType := some (.named "void")
         parameters :=
          [{ type := .named "int", name := some "by", defaultValue := some "(3 , 4)" }] }] }

/-- A codebase with nothing but that class. -/
def dialOnly : Codebase :=
  { packages := ⟨[{ name := "a", classNames := ⟨["a.Dial"], by decide⟩ }], by decide⟩
    classes := ⟨[dial], List.pairwise_singleton _ _⟩ }

theorem read_dialText :
    read {} ("// Signature format: 3.0" ++ "\n" ++ dialText) = .ok dialOnly ∧
      read {} dialPage = .ok dialOnly := by
  have hread : read { format := some .v3 } dialText = .ok dialOnly := by decide +kernel
  have hread' : read {} dialText = .ok dialOnly := by decide +kernel
  have htokens : ((scan "" dialText).toOption.bind fun s =>
    (scan "" dialPage).toOption.map fun s' =>
      decide (List.Forall₂ (Corresponds {} dialText dialPage) s.tokens s'.tokens)) = some true := by
    decide +kernel
  obtain ⟨hheader, hlayout⟩ := read_header_and_layout {}
  refine ⟨(hheader .v3 _ dialText dialOnly rfl (by decide +kernel) hread).2, ?_⟩
  cases hs : scan "" dialText with
  | error fault =>
    rw [hs] at htokens
    cases htokens
  | ok s =>
    cases hs' : scan "" dialPage with
    | error fault =>
      rw [hs, hs'] at htokens
      cases htokens
    | ok s' =>
      rw [hs, hs'] at htokens
      have hsame := hlayout dialText dialPage s s' (by decide +kernel) hs hs'
        (of_decide_eq_true (Option.some.inj htokens))
      rw [hread'] at hsame
      cases hpage : read {} dialPage with
      | error fault =>
        rw [hpage] at hsame
        cases hsame
      | ok cb =>
        rw [hpage] at hsame
        exact congrArg _ (Option.some.inj hsame).symm

end Signature
end ApiSurface
