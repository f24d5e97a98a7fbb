import ApiSurface.Token
import Mathlib.Algebra.Ring.Int.Defs

/-!
# Brackets in stretches of tokens

Brackets of several kinds may be counted together: one that opens counts up and one that closes
counts down.  A stretch of tokens closes its brackets if the count never falls below zero and comes
back to it.  What readers of annotations and types take is more than that: brackets of one kind
never close those of another, and commas stand inside of them.
-/

namespace ApiSurface

/-- The marks that open and those that close. -/
structure Brackets where
  opening : List String
  closing : List String

namespace Brackets

def angle : Brackets :=
  ⟨["<"], [">"]⟩

/-- The brackets around the arguments of annotations and around the lists of values in them. -/
def arguments : Brackets :=
  ⟨["(", Token.openBrace], [")", Token.closeBrace]⟩

/-- The brackets that are counted in a value kept as written. -/
def ofValue : Brackets :=
  ⟨["(", Token.openBrace, "["], [")", Token.closeBrace, "]"]⟩

variable (b : Brackets)

/-- What a token adds to the number of open brackets. -/
def change (t : Token) : Int :=
  if b.opening.any t.isMark then 1 else if b.closing.any t.isMark then -1 else 0

/-- How many brackets are open behind the tokens. -/
def depth (ts : List Token) : Int :=
  (ts.map b.change).sum

@[simp]
theorem depth_nil : b.depth [] = 0 :=
  rfl

@[simp]
theorem depth_cons (t : Token) (ts : List Token) : b.depth (t :: ts) = b.change t + b.depth ts := by
  simp [depth]

@[simp]
theorem depth_append (ts us : List Token) : b.depth (ts ++ us) = b.depth ts + b.depth us := by
  simp [depth]

/-- Every bracket that opens is closed, and none closes that was not opened. -/
structure Closes (ts : List Token) : Prop where
  nonneg : ∀ front behind, ts = front ++ behind → 0 ≤ b.depth front
  depth_eq : b.depth ts = 0

variable {b} {t u : Token} {ts us : List Token}

theorem closes_nil : b.Closes [] := by
  refine ⟨fun front behind h => ?_, rfl⟩
  obtain ⟨rfl, -⟩ := List.append_eq_nil_iff.mp h.symm
  exact Int.le_refl 0

theorem Closes.append (hts : b.Closes ts) (hus : b.Closes us) : b.Closes (ts ++ us) := by
  refine ⟨fun front behind h => ?_, by rw [depth_append, hts.depth_eq, hus.depth_eq]; rfl⟩
  rcases List.append_eq_append_iff.mp h with ⟨more, rfl, hmore⟩ | ⟨more, rfl, -⟩
  · rw [depth_append, hts.depth_eq, Int.zero_add]
    exact hus.nonneg more behind hmore
  · exact hts.nonneg front more rfl

/-- Tokens between a bracket that opens and one that closes. -/
theorem Closes.wrap (hts : b.Closes ts) (hopen : b.change t = 1) (hclose : b.change u = -1) :
    b.Closes (t :: ts ++ [u]) := by
  refine ⟨fun front behind h => ?_, by simp [hopen, hclose, hts.depth_eq]⟩
  cases front with
  | nil => exact Int.le_refl 0
  | cons v front =>
    obtain ⟨rfl, hinner⟩ := List.cons.inj h
    rw [depth_cons, hopen]
    rcases List.append_eq_append_iff.mp hinner with ⟨more, rfl, hlast⟩ | ⟨more, rfl, -⟩
    · rcases List.singleton_eq_append_iff.mp hlast with ⟨rfl, -⟩ | ⟨rfl, -⟩
      · simp [hts.depth_eq]
      · simp [hts.depth_eq, hclose]
    · have hnonneg := hts.nonneg front more rfl
      omega

theorem closes_singleton (h : b.change t = 0) : b.Closes [t] := by
  refine ⟨fun front behind hsplit => ?_, by simp [h]⟩
  rcases List.singleton_eq_append_iff.mp hsplit with ⟨rfl, -⟩ | ⟨rfl, -⟩
  · exact Int.le_refl 0
  · simp [h]

theorem change_of_kind (b : Brackets) (h : t.kind ≠ .punctuation) : b.change t = 0 := by
  have hmark : t.isMark = fun _ => false := by
    funext mark
    simp [Token.isMark, h]
  simp [change, hmark]

theorem change_of_isMark
    {mark : String} (h : t.isMark mark = true) (b : Brackets) :
    b.change t = if mark ∈ b.opening then 1 else if mark ∈ b.closing then -1 else 0 := by
  simp only [Token.isMark, Bool.and_eq_true, decide_eq_true_eq] at h
  obtain ⟨hkind, rfl⟩ := h
  simp [change, Token.isMark, hkind]

theorem change_angle (t : Token) :
    angle.change t = if t.isMark "<" then 1 else if t.isMark ">" then -1 else 0 := by
  simp [change, angle]

end Brackets

namespace Signature

/-! ## Balanced brackets -/

def listMarks : List String :=
  ["<", ">", "(", ")", Token.openBrace, Token.closeBrace, ","]

/-- Every bracket that opens is closed by one of its kind, and none closes without one.  Commas
stand inside of brackets only, unless they are let be. -/
inductive Balanced : (commas : Bool) → List Token → Prop where
  | nil {commas : Bool} : Balanced commas []
  | single {commas : Bool} {t : Token} (hangle : Brackets.angle.change t = 0)
      (harguments : Brackets.arguments.change t = 0)
      (hcomma : commas = false → t.isMark "," = false) : Balanced commas [t]
  | append {commas : Bool} {ts us : List Token} (hts : Balanced commas ts)
      (hus : Balanced commas us) : Balanced commas (ts ++ us)
  | angle {commas : Bool} {t u : Token} {ts : List Token} (hopen : t.isMark "<" = true)
      (hclose : u.isMark ">" = true) (hts : Balanced true ts) : Balanced commas (t :: ts ++ [u])
  | arguments {commas : Bool} {t u : Token} {ts : List Token} {mark close : String}
      (hmark : mark ∈ Brackets.arguments.opening) (hopen : t.isMark mark = true)
      (hmark' : close ∈ Brackets.arguments.closing) (hclose : u.isMark close = true)
      (hts : Balanced true ts) : Balanced commas (t :: ts ++ [u])

theorem isMark_of_isMark
    {t : Token} {mark other : String} (h : t.isMark mark = true) (hne : mark ≠ other) :
    t.isMark other = false := by
  simp only [Token.isMark, Bool.and_eq_true, decide_eq_true_eq] at h
  simp [Token.isMark, h.2, hne]

namespace Balanced

variable {commas : Bool} {t : Token} {ts : List Token}

theorem weaken (h : Balanced false ts) : Balanced commas ts := by
  generalize hfalse : false = strict at h
  induction h with
  | nil => exact nil
  | single hangle harguments hcomma =>
    exact single hangle harguments fun _ => hcomma hfalse.symm
  | append _ _ ih ih' => exact (ih hfalse).append (ih' hfalse)
  | angle hopen hclose hts _ => exact angle hopen hclose hts
  | arguments hmark hopen hmark' hclose hts _ => exact arguments hmark hopen hmark' hclose hts

theorem mark
    {mark : String} (h : t.isMark mark = true) (hplain : mark ∉ listMarks) :
    Balanced commas [t] := by
  simp only [listMarks, List.mem_cons, List.not_mem_nil, or_false, not_or] at hplain
  obtain ⟨hless, hgreater, hopen, hclose, hbrace, hbrace', hcomma⟩ := hplain
  refine single ?_ ?_ fun _ => isMark_of_isMark h hcomma
  · simp [Brackets.change_of_isMark h, Brackets.angle, hless, hgreater]
  · simp [Brackets.change_of_isMark h, Brackets.arguments, hopen, hclose, hbrace, hbrace']

theorem comma (h : t.isMark "," = true) : Balanced true [t] :=
  single (Brackets.change_of_isMark h _) (Brackets.change_of_isMark h _) (by simp)

theorem name (h : t.kind ≠ .punctuation) : Balanced commas [t] :=
  single (Brackets.change_of_kind _ h) (Brackets.change_of_kind _ h) fun _ => by
    simp [Token.isMark, h]

end Balanced

end Signature

end ApiSurface
