import ApiSurface.Proofs.Quoted
import ApiSurface.Proofs.Tiling

/-!
# String literals in a text

A string written as a literal is one token wherever it stands, whatever follows it: the token says
the string, takes the room of the literal, and scanning goes on right behind it.  A literal holds no
end of a line, so what follows stands on the same line.
-/

namespace ApiSurface

namespace Quoted

/-- The token of a string that is written as a literal at the given place. -/
def token (s : String) (p : Position) : Token where
  kind := .string
  text := s
  blank := ""
  lexeme := encode s
  start := p

theorem newline_not_mem_escape (c : Char) : '\n' ∉ escape c := by
  unfold escape
  iterate 2
    split
    · decide
  split
  · decide
  rename_i hline
  iterate 5
    split
    · decide
  split
  · intro hmem
    have hdigit : '\n' ∈ fourDigits c.toNat := by simpa using hmem
    exact absurd rfl (plain_of_isHexDigit (isHexDigit_of_mem_fourDigits hdigit)).2.1
  · simpa using Ne.symm hline

theorem newline_not_mem_encode (s : String) : '\n' ∉ (encode s).toList := by
  simp [encode, newline_not_mem_escape]

end Quoted

namespace Position

theorem column_skip_of_newline_not_mem (p : Position) {cs : List Char} (h : '\n' ∉ cs) :
    (p.skip cs).column = p.column + cs.length := by
  induction cs generalizing p with
  | nil => rfl
  | cons c cs ih =>
    simp only [List.mem_cons, not_or] at h
    have hnext : (p.next c).column = p.column + 1 := by
      rw [next, if_neg (Ne.symm h.1)]
    have hskip : p.skip (c :: cs) = (p.next c).skip cs := rfl
    rw [hskip, ih _ h.2, hnext, List.length_cons, Nat.add_assoc, Nat.add_comm 1]

/-- Text without ends of lines is passed along one line. -/
theorem skip_of_newline_not_mem (p : Position) {text : String} (h : '\n' ∉ text.toList) :
    p.skip text.toList =
      { line := p.line, column := p.column + text.length,
        offset := p.offset + text.utf8ByteSize } := by
  have hline : (p.skip text.toList).line = p.line := by
    rw [line_skip, List.count_eq_zero.mpr h, Nat.add_zero]
  have hcolumn : (p.skip text.toList).column = p.column + text.length := by
    rw [column_skip_of_newline_not_mem p h, String.length_toList]
  have hoffset : (p.skip text.toList).offset = p.offset + text.utf8ByteSize := by
    rw [offset_skip, String.ofList_toList]
  rw [← hline, ← hcolumn, ← hoffset]

end Position

namespace Scan

/-- Scanning a literal gives its token and goes on behind the literal. -/
theorem scanFrom_encode_append (file : String) (p : Position) (s rest : String) :
    scanFrom file p (Quoted.encode s ++ rest).toList =
      (scanFrom file (p.skip (Quoted.encode s).toList) rest.toList).map fun scanned =>
        { scanned with tokens := Quoted.token s p :: scanned.tokens } := by
  have htext : (Quoted.encode s ++ rest).toList =
      '"' :: (s.toList.flatMap Quoted.escape ++ '"' :: rest.toList) := by
    simp [Quoted.encode, String.toList_append]
  have hblank : ∀ cs, splitBlank false ('"' :: cs) = ([], '"' :: cs) := fun _ => rfl
  have hcut := scanFrom_of_cut (hblank _) (lexeme_encode s rest.toList) file p
  rw [htext, hcut]
  simp [Quoted.token, Position.skip]

theorem scanFrom_nil (file : String) (p : Position) :
    scanFrom file p [] = .ok
      { tokens := []
        finish := { kind := .endOfFile, text := "", blank := "", lexeme := "", start := p } } := by
  rw [scanFrom]
  rfl

end Scan

/-- A string written as a literal is scanned as one token, which says the string and takes the room
of the literal, and scanning goes on with what follows, right behind the literal on the same line;
alone, the literal is that token in front of the end of the text. -/
theorem scan_encode (file s : String) :
    (∀ (p : Position) (rest : String),
        (Quoted.token s p).kind = .string ∧ (Quoted.token s p).text = s ∧
          (Quoted.token s p).start = p ∧
          (Quoted.token s p).stop = p.offset + (Quoted.encode s).utf8ByteSize ∧
          Scan.scanFrom file p (Quoted.encode s ++ rest).toList =
            (Scan.scanFrom file
              { line := p.line, column := p.column + (Quoted.encode s).length,
                offset := p.offset + (Quoted.encode s).utf8ByteSize } rest.toList).map
              fun scanned => { scanned with tokens := Quoted.token s p :: scanned.tokens }) ∧
      ∃ finish, finish.kind = .endOfFile ∧ finish.start.offset = (Quoted.encode s).utf8ByteSize ∧
        scan file (Quoted.encode s) = .ok { tokens := [Quoted.token s {}], finish } := by
  have hplace : ∀ p : Position, p.skip (Quoted.encode s).toList = _ := fun p =>
    p.skip_of_newline_not_mem (Quoted.newline_not_mem_encode s)
  refine ⟨fun p rest => ⟨rfl, rfl, rfl, rfl, ?_⟩, ?_⟩
  · rw [Scan.scanFrom_encode_append, hplace]
  · have halone := Scan.scanFrom_encode_append file {} s ""
    rw [String.append_empty, hplace, String.toList_empty, Scan.scanFrom_nil] at halone
    exact ⟨_, rfl, Nat.zero_add _, halone⟩

end ApiSurface
