import MiniPL.Token.Stream

/-!
# Looking ahead in a list of tokens

A list of tokens hands out each of them once.  To tell whether one is left without losing it, what
the list gave is kept in a buffer until it is asked for.

Definitions: `Peekable` with `Peekable.peek` and `Peekable.next`, and its instance of `TokenStream`.
-/

namespace MiniPL

/-- A list of tokens behind a buffer.  A buffer that is in use holds what the list gave last, which
is nothing once the list has run out. -/
structure Peekable where
  buffer : Option (Option Token)
  rest : List Token

namespace Peekable

/-- A list of tokens at which nobody has looked yet. -/
def ofList (tokens : List Token) : Peekable :=
  ⟨none, tokens⟩

/-- Looks at the next token, which stays in the buffer. -/
def peek (p : Peekable) : Option Token × Peekable :=
  match p.buffer with
  | some token? => (token?, p)
  | none => (p.rest.head?, ⟨some p.rest.head?, p.rest.tail⟩)

/-- Takes the next token, out of the buffer if it is in use. -/
def next (p : Peekable) : Option Token × Peekable :=
  match p.buffer with
  | some token? => (token?, ⟨none, p.rest⟩)
  | none => (p.rest.head?, ⟨none, p.rest.tail⟩)

/-- The number of tokens left, in the buffer and in the list. -/
def size (p : Peekable) : Nat :=
  p.buffer.join.toList.length + p.rest.length

theorem size_next_peek_lt (p : Peekable) (h : p.peek.1.isSome = true) :
    p.peek.2.next.2.size < p.size := by
  obtain ⟨_ | token?, rest⟩ := p
  · cases rest with
    | nil => cases h
    | cons token rest => simp [peek, next, size]
  · cases token? with
    | none => cases h
    | some token => simp [peek, next, size]

instance : TokenStream Peekable where
  hasNext p := (p.peek.1.isSome, p.peek.2)
  nextToken p := (p.next.1.getD (.eof .unknown), p.next.2)
  next? := next
  size := size
  size_lt := size_next_peek_lt

end Peekable

end MiniPL
