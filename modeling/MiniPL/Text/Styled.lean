/-!
# Styled text

On a terminal a span of text is styled by an opening sequence before it and a closing sequence after
it.  A closing sequence inside the span would end the style early, so the opening sequence is
repeated after each of them.  Without colours a span is its plain text.

Definitions: `Style`, `Palette.paint`.
-/

namespace MiniPL.Text

/-- The foreground colours in use. -/
inductive Colour
  | red
  | brightRed
  | brightGreen
  | brightYellow
  | brightBlue
  | brightMagenta
  | brightCyan
  | brightWhite
  deriving DecidableEq, Repr

/-- The number that selects a foreground colour. -/
def Colour.code : Colour → Nat
  | .red => 31
  | .brightRed => 91
  | .brightGreen => 92
  | .brightYellow => 93
  | .brightBlue => 94
  | .brightMagenta => 95
  | .brightCyan => 96
  | .brightWhite => 97

/-- How a span of text looks. -/
structure Style where
  bold : Bool := false
  dimmed : Bool := false
  colour : Option Colour := none
  deriving DecidableEq, Repr

/-- The numbers that select a style: bold, dimmed, then the colour. -/
def Style.codes (style : Style) : List Nat :=
  (if style.bold then [1] else []) ++ (if style.dimmed then [2] else []) ++
    (style.colour.map Colour.code).toList

/-- The sequence that opens a span. -/
def Style.opening (style : Style) : List Char :=
  ['\x1b', '['] ++ (String.intercalate ";" (style.codes.map toString)).toList ++ ['m']

/-- The sequence that closes every span. -/
def closing : List Char := ['\x1b', '[', '0', 'm']

/-- The characters of a span with its opening sequence repeated after each closing sequence. -/
def reopen (opening : List Char) : List Char → List Char
  | '\x1b' :: '[' :: '0' :: 'm' :: cs => closing ++ opening ++ reopen opening cs
  | c :: cs => c :: reopen opening cs
  | [] => []

/-- Whether a terminal shows colours. -/
inductive Palette
  | plain
  | coloured
  deriving DecidableEq, Repr

/-- A span of text in a style. -/
def Palette.paint (palette : Palette) (style : Style) (text : String) : String :=
  match palette with
  | .plain => text
  | .coloured => String.ofList (style.opening ++ reopen style.opening text.toList ++ closing)

/-- A span of text in a colour. -/
def Palette.tint (palette : Palette) (colour : Colour) (text : String) : String :=
  palette.paint { colour := some colour } text

end MiniPL.Text
