import ApiSurface.Text.Basic

/-!
# Styled text for terminals

A style is switched on by a sequence of codes in front of the text and off by another behind it.
Where the text itself switches styles off, the style is switched on again.
-/

namespace ApiSurface
namespace Text

/-- Colours of a terminal. -/
inductive Colour where
  | red
  | green
  | yellow
  | blue
  | magenta
  | cyan
  deriving DecidableEq, Repr

def Colour.code : Colour → String
  | .red => "31"
  | .green => "32"
  | .yellow => "33"
  | .blue => "34"
  | .magenta => "35"
  | .cyan => "36"

/-- How text is shown. -/
structure Style where
  bold : Bool := false
  dimmed : Bool := false
  colour : Option Colour := none
  deriving DecidableEq, Repr

namespace Style

/-- The codes of a style, weight before colour. -/
def codes (style : Style) : List String :=
  (if style.bold then ["1"] else []) ++ (if style.dimmed then ["2"] else []) ++
    (style.colour.map Colour.code).toList

/-- The sequence that switches the style on. -/
def start (style : Style) : List Char :=
  '\x1b' :: '[' :: (join ";" style.codes).toList ++ ['m']

/-- The sequence that switches all styles off. -/
def reset : List Char :=
  ['\x1b', '[', '0', 'm']

/-- The text with the style switched on again behind every sequence that switches it off. -/
def restart (start : List Char) : List Char → List Char
  | '\x1b' :: '[' :: '0' :: 'm' :: rest => reset ++ start ++ restart start rest
  | c :: rest => c :: restart start rest
  | [] => []

def apply (style : Style) (text : String) : String :=
  if style.codes.isEmpty then text
  else String.ofList (style.start ++ restart style.start text.toList ++ reset)

end Style

end Text
end ApiSurface
