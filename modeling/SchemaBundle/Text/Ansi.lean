/-
Colours on a terminal.

A styled text stands between the code of its style and the code that ends all styles.
Where the text itself ends all styles, its own style is started again.
-/
import SchemaBundle.Text.Pieces

namespace SchemaBundle

/-- A style of text. -/
inductive Ansi where
  | bold
  | dimmed
  | red
  | green
  | yellow
  | blue
  | brightBlue
  | boldRed
  deriving DecidableEq

namespace Ansi

/-- The numbers of a style. -/
def numbers : Ansi → String
  | .bold => "1"
  | .dimmed => "2"
  | .red => "31"
  | .green => "32"
  | .yellow => "33"
  | .blue => "34"
  | .brightBlue => "94"
  | .boldRed => "1;31"

/-- The code that starts a style. -/
def start (style : Ansi) : List Char :=
  '\x1b' :: '[' :: style.numbers.toList ++ ['m']

/-- The code that ends all styles. -/
def reset : List Char :=
  ['\x1b', '[', '0', 'm']

/-- Start a style again behind every code that ends all styles; `fuel` bounds the
number of characters. -/
def restart (style : Ansi) : Nat → List Char → List Char
  | 0, cs => cs
  | fuel + 1, cs =>
    match Text.dropStart? reset cs with
    | some rest => reset ++ style.start ++ restart style fuel rest
    | none =>
      match cs with
      | [] => []
      | c :: rest => c :: restart style fuel rest

/-- A text in a style. -/
def paint (style : Ansi) (s : String) : String :=
  String.ofList (style.start ++ restart style (s.length + 1) s.toList ++ reset)

/-- A text in a style, if colours are wanted. -/
def paintIf (wanted : Bool) (style : Ansi) (s : String) : String :=
  if wanted then style.paint s else s

end Ansi

end SchemaBundle
