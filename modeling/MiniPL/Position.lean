/-!
# Positions

A position tells where a character stands in a text: its line and its column, both counted from one.
Only a line feed starts a new line.

Definitions: `Position`, `Position.after`, `Position.advance`.
-/

namespace MiniPL

/-- A place in a text; line 0, column 0 stands for an unknown place. -/
structure Position where
  line : Nat
  column : Nat
  deriving DecidableEq, Repr, Inhabited

namespace Position

/-- The place of the first character of a text. -/
def start : Position := ⟨1, 1⟩

/-- The place of something that stands in no text. -/
def unknown : Position := ⟨0, 0⟩

/-- The place after a character that stands at `p`. -/
def after (p : Position) (c : Char) : Position :=
  if c = '\n' then ⟨p.line + 1, 1⟩ else ⟨p.line, p.column + 1⟩

/-- The place after a run of characters that starts at `p`. -/
def advance (p : Position) (cs : List Char) : Position :=
  cs.foldl after p

@[simp] theorem advance_nil (p : Position) : p.advance [] = p := rfl

@[simp] theorem advance_cons (p : Position) (c : Char) (cs : List Char) :
    p.advance (c :: cs) = (p.after c).advance cs := rfl

@[simp] theorem advance_append (p : Position) (cs ds : List Char) :
    p.advance (cs ++ ds) = (p.advance cs).advance ds := by
  simp [advance]

/-- The position as written in messages: `line:column`. -/
def text (p : Position) : String :=
  s!"{p.line}:{p.column}"

end Position

end MiniPL
