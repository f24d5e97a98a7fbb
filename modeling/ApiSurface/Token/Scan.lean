import ApiSurface.Token.Quoted

/-!
# Scanning signature text

A text is cut into tokens.  Blanks are white space and comments, which run from `#` or `//` to the
end of the line.  A dotted name is one token, a dot being part of it only in front of another name;
a number extends over letters, digits, dots and underscores, and over a sign behind an exponent
mark; three dots are one mark and every other character is a mark of its own.
-/

namespace ApiSurface
namespace Scan

open Text (isBlank isLetter isNumeral)

def startsName (c : Char) : Bool :=
  isLetter c || c == '_' || c == '$'

def continuesName (c : Char) : Bool :=
  isLetter c || isNumeral c || c == '_' || c == '$'

/-- Cut off the leading blanks of a text; the flag says whether it starts inside a comment. -/
def splitBlank : (inComment : Bool) → List Char → List Char × List Char
  | _, [] => ([], [])
  | true, c :: cs =>
    let (blank, rest) := splitBlank (c != '\n') cs
    (c :: blank, rest)
  | false, c :: cs =>
    if isBlank c then
      let (blank, rest) := splitBlank false cs
      (c :: blank, rest)
    else if c == '#' || (c == '/' && cs.head? == some '/') then
      let (blank, rest) := splitBlank true cs
      (c :: blank, rest)
    else ([], c :: cs)

/-- Cut off the leading name of a text. -/
def splitName : List Char → List Char × List Char
  | [] => ([], [])
  | c :: cs =>
    if continuesName c || (c == '.' && cs.head?.any startsName) then
      let (name, rest) := splitName cs
      (c :: name, rest)
    else ([], c :: cs)

/-- Cut off the leading characters of a number; `exponent` says whether the character in front was
an exponent mark, behind which a sign belongs to the number unless it is hexadecimal. -/
def splitDigits (hex : Bool) : (exponent : Bool) → List Char → List Char × List Char
  | _, [] => ([], [])
  | exponent, c :: cs =>
    if c.isAlphanum || c == '.' || c == '_' || ((c == '+' || c == '-') && !hex && exponent) then
      let (digits, rest) := splitDigits hex (c == 'e' || c == 'E') cs
      (c :: digits, rest)
    else ([], c :: cs)

/-- Whether the digits of a number are announced as hexadecimal. -/
def isHex : List Char → Bool
  | '0' :: 'x' :: _ => true
  | '0' :: 'X' :: _ => true
  | _ => false

/-- Cut off the leading number of a text. -/
def splitNumber : List Char → List Char × List Char
  | '-' :: cs =>
    let (digits, rest) := splitDigits (isHex cs) false cs
    ('-' :: digits, rest)
  | cs => splitDigits (isHex cs) false cs

/-- A token without its place: what it is, what it says, and how it is written. -/
structure Lexeme where
  kind : Token.Kind
  text : List Char
  source : List Char
  deriving DecidableEq, Repr

/-- Cut off the token that starts with the given character. -/
def lexeme (c : Char) (cs : List Char) : Except Quoted.Flaw (Lexeme × List Char) :=
  if startsName c then
    let (name, rest) := splitName (c :: cs)
    .ok (⟨.identifier, name, name⟩, rest)
  else if c.isDigit || (c == '-' && cs.head?.any fun d => d.isDigit || d == '.') then
    let (digits, rest) := splitNumber (c :: cs)
    .ok (⟨.number, digits, digits⟩, rest)
  else if c == '"' then
    match Quoted.decode (Quoted.split '"' cs).1, (Quoted.split '"' cs).2 with
    | .error flaw, _ => .error flaw
    | .ok _, none => .error .openString
    | .ok text, some rest => .ok (⟨.string, text, c :: (Quoted.split '"' cs).1 ++ ['"']⟩, rest)
  else if c == '\'' then
    match (Quoted.split '\'' cs).2 with
    | none => .error .openCharacter
    | some rest =>
      .ok (⟨.character, (Quoted.split '\'' cs).1, c :: (Quoted.split '\'' cs).1 ++ ['\'']⟩, rest)
  else
    match c, cs with
    | '.', '.' :: '.' :: rest => .ok (⟨.punctuation, ['.', '.', '.'], ['.', '.', '.']⟩, rest)
    | c, cs => .ok (⟨.punctuation, [c], [c]⟩, cs)

theorem splitBlank_append (inComment : Bool) (cs : List Char) :
    (splitBlank inComment cs).1 ++ (splitBlank inComment cs).2 = cs := by
  fun_induction splitBlank inComment cs <;> simp_all

theorem splitName_append (cs : List Char) : (splitName cs).1 ++ (splitName cs).2 = cs := by
  fun_induction splitName cs <;> simp_all

theorem splitDigits_append (hex exponent : Bool) (cs : List Char) :
    (splitDigits hex exponent cs).1 ++ (splitDigits hex exponent cs).2 = cs := by
  fun_induction splitDigits hex exponent cs <;> simp_all

theorem splitNumber_append (cs : List Char) : (splitNumber cs).1 ++ (splitNumber cs).2 = cs := by
  fun_cases splitNumber cs with
  | case1 cs digits rest h =>
    have := splitDigits_append (isHex cs) false cs
    simp_all
  | case2 => exact splitDigits_append _ _ _

/-- The characters of a token and what follows it make up the text. -/
theorem lexeme_append {c : Char} {cs rest : List Char} {l : Lexeme}
    (h : lexeme c cs = .ok (l, rest)) : l.source ++ rest = c :: cs := by
  unfold lexeme at h
  split at h
  · have := splitName_append (c :: cs)
    simp only [Except.ok.injEq, Prod.mk.injEq] at h
    simpa [← h.1, ← h.2] using this
  split at h
  · have := splitNumber_append (c :: cs)
    simp only [Except.ok.injEq, Prod.mk.injEq] at h
    simpa [← h.1, ← h.2] using this
  split at h
  · split at h
    · exact absurd h (by simp)
    · exact absurd h (by simp)
    · rename_i rest' hs
      simp only [Except.ok.injEq, Prod.mk.injEq] at h
      obtain ⟨rfl, rfl⟩ := h
      simpa using Quoted.split_append hs
  split at h
  · split at h
    · exact absurd h (by simp)
    · rename_i rest' hs
      simp only [Except.ok.injEq, Prod.mk.injEq] at h
      obtain ⟨rfl, rfl⟩ := h
      simpa using Quoted.split_append hs
  · split at h
    · simp only [Except.ok.injEq, Prod.mk.injEq] at h
      simp [← h.1, ← h.2]
    · simp only [Except.ok.injEq, Prod.mk.injEq] at h
      simp [← h.1, ← h.2]

/-- Every token has at least one character. -/
theorem lexeme_source_ne_nil {c : Char} {cs rest : List Char} {l : Lexeme}
    (h : lexeme c cs = .ok (l, rest)) : l.source ≠ [] := by
  unfold lexeme at h
  split at h
  · rename_i hc
    simp only [Except.ok.injEq, Prod.mk.injEq] at h
    have hn : continuesName c = true := by
      simp only [startsName, Bool.or_eq_true] at hc
      rcases hc with (hc | hc) | hc <;> simp [continuesName, hc]
    simp [← h.1, splitName, hn]
  split at h
  · rename_i hc
    simp only [Except.ok.injEq, Prod.mk.injEq] at h
    rw [← h.1]
    by_cases hm : c = '-'
    · subst hm
      simp [splitNumber]
    · have hd : c.isDigit = true := by simpa [hm] using hc
      have ha : c.isAlphanum = true := by simp [Char.isAlphanum, hd]
      simp [splitNumber, hm, splitDigits, ha]
  split at h
  · split at h
    · exact absurd h (by simp)
    · exact absurd h (by simp)
    · simp only [Except.ok.injEq, Prod.mk.injEq] at h
      simp [← h.1]
  split at h
  · split at h
    · exact absurd h (by simp)
    · simp only [Except.ok.injEq, Prod.mk.injEq] at h
      simp [← h.1]
  · split at h
    · simp only [Except.ok.injEq, Prod.mk.injEq] at h
      simp [← h.1]
    · simp only [Except.ok.injEq, Prod.mk.injEq] at h
      simp [← h.1]

end Scan

/-- The tokens of a text and the mark of its end. -/
structure Scan where
  tokens : List Token
  finish : Token
  deriving DecidableEq, Repr

namespace Scan

/-- The tokens with the mark of the end behind them. -/
def all (s : Scan) : List Token :=
  s.tokens ++ [s.finish]

/-- Scan what is left of a text from a given place on. -/
def scanFrom (file : String) (p : Position) (cs : List Char) : Except Fault Scan :=
  match hb : splitBlank false cs with
  | (blank, []) =>
    .ok { tokens := [], finish :=
      { kind := .endOfFile, text := "", blank := String.ofList blank, lexeme := "",
        start := p.skip blank } }
  | (blank, c :: body) =>
    let start := p.skip blank
    match hl : lexeme c body with
    | .error flaw => .error (.malformed file start.line start.column flaw.expected flaw.found)
    | .ok (l, rest) =>
      (scanFrom file (start.skip l.source) rest).map fun s =>
        { s with tokens :=
          { kind := l.kind, text := String.ofList l.text, blank := String.ofList blank,
            lexeme := String.ofList l.source, start } :: s.tokens }
termination_by cs.length
decreasing_by
  have h := congrArg List.length (splitBlank_append false cs)
  have h₁ := congrArg List.length (lexeme_append hl)
  have h₂ := List.length_pos_iff.mpr (lexeme_source_ne_nil hl)
  rw [hb] at h
  simp only [List.length_append, List.length_cons] at h h₁
  omega

end Scan

/-- Cut a text into tokens; faults name the given file. -/
def scan (file text : String) : Except Fault Scan :=
  Scan.scanFrom file {} text.toList

end ApiSurface
