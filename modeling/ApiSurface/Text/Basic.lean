import ApiSurface.Text.Classes

/-!
# Cutting and joining text

Operations on texts as lists of characters: trimming, cutting at a mark, and joining with a
separator.  A cut loses nothing but the mark it cuts at.
-/

namespace ApiSurface
namespace Text

/-- Text without the blanks at its two ends. -/
def trim (cs : List Char) : List Char :=
  ((cs.dropWhile isBlank).reverse.dropWhile isBlank).reverse

/-- What follows `start` in a text that begins with it. -/
def after? : (start cs : List Char) → Option (List Char)
  | [], cs => some cs
  | _ :: _, [] => none
  | a :: start, c :: cs => if a = c then after? start cs else none

theorem after?_eq_some
    {start cs rest : List Char} (h : after? start cs = some rest) : cs = start ++ rest := by
  induction start generalizing cs with
  | nil =>
    cases h
    rfl
  | cons a start ih =>
    cases cs with
    | nil => cases h
    | cons c cs =>
      rw [after?] at h
      split at h
      · rename_i heq
        rw [ih h, heq]
        rfl
      · cases h

theorem after?_append (start rest : List Char) : after? start (start ++ rest) = some rest := by
  induction start with
  | nil => rfl
  | cons a start ih => simpa [after?] using ih

/-- The parts on either side of the last mark of a text. -/
def splitLast (mark : Char) : List Char → Option (List Char × List Char)
  | [] => none
  | c :: cs =>
    match splitLast mark cs with
    | some (before, behind) => some (c :: before, behind)
    | none => if c = mark then some ([], cs) else none

/-- What stands in front of the last mark is shorter than the text. -/
theorem length_of_splitLast {mark : Char} {cs before behind : List Char}
    (h : splitLast mark cs = some (before, behind)) : before.length < cs.length := by
  induction cs generalizing before with
  | nil => simp [splitLast] at h
  | cons c cs ih =>
    simp only [splitLast] at h
    split at h
    · rename_i before' behind' hs
      simp only [Option.some.injEq, Prod.mk.injEq] at h
      obtain ⟨rfl, rfl⟩ := h
      simpa using ih hs
    · split at h
      · simp only [Option.some.injEq, Prod.mk.injEq] at h
        simp [← h.1]
      · exact absurd h (by simp)

/-- The pieces of a text between the marks, one more than there are marks. -/
def pieces (mark : Char) : List Char → List (List Char)
  | [] => [[]]
  | c :: cs =>
    if c = mark then [] :: pieces mark cs
    else
      match pieces mark cs with
      | [] => [[c]]
      | first :: others => (c :: first) :: others

/-- Texts in order with a separator between neighbours. -/
def join (separator : String) : List String → String
  | [] => ""
  | [text] => text
  | text :: others => text ++ separator ++ join separator others

/-- A text repeated a number of times. -/
def repeated (text : String) : Nat → String
  | 0 => ""
  | n + 1 => text ++ repeated text n

end Text
end ApiSurface
