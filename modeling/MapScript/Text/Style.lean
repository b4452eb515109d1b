/-!
# Styled terminal text

A style is switched on by an escape sequence and switched off by another. Without color the text
is left alone.
-/
namespace MapScript

/-- The codes of the styles that are used, in the order in which a sequence lists them: first the
attributes and then the color. -/
inductive Style where
  | bold
  | dimmed
  | underline
  | red
  | green
  | yellow
  | blue
  | cyan
deriving DecidableEq, Repr, Inhabited

def Style.code : Style → String
  | bold => "1"
  | dimmed => "2"
  | underline => "4"
  | red => "31"
  | green => "32"
  | yellow => "33"
  | blue => "34"
  | cyan => "36"

/-- The sequence that switches styles on. -/
def styleStart (styles : List Style) : List Char :=
  ("\x1b[" ++ String.intercalate ";" (styles.map Style.code) ++ "m").toList

/-- The sequence that switches all styles off. -/
def styleReset : List Char := ['\x1b', '[', '0', 'm']

/-- A text in which `start` follows each reset, so that the style goes on. -/
def restyle (start : List Char) : List Char → List Char
  | '\x1b' :: '[' :: '0' :: 'm' :: cs => styleReset ++ start ++ restyle start cs
  | c :: cs => c :: restyle start cs
  | [] => []

/-- A text in some styles. -/
def styled (color : Bool) (styles : List Style) (text : String) : String :=
  if color then
    String.ofList (styleStart styles ++ restyle (styleStart styles) text.toList ++ styleReset)
  else text

end MapScript
