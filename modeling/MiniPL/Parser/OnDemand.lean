import MiniPL.Parser.Program

/-!
# Reading on demand

The same grammar, read from a stream that hands out its tokens one by one.  A reader holds the token
that it took last and asks for the next one only when it steps over that token; once the stream is
dry, the end of the input stands where the last token stood.

No rule steps over the end of the input: that is part of the type of a rule (`Tape.Reaches`), and
recursive rules end by it, because the tokens of a stream do.

Definitions: `Tape` with `Tape.advance`, `Cursor`, the rules, `block` with its rounds (`Round`), and
`parse`.
-/

namespace MiniPL.Parser.OnDemand

variable {σ : Type} [TokenStream σ]

/-! ### The token in hand -/

/-- A stream and the token that was taken from it last. -/
structure Tape (σ : Type) where
  current : Token
  stream : σ

namespace Tape

/-- Asks the stream for the next token; a dry stream leaves the end of the input in its place. -/
def advance (t : Tape σ) : Tape σ :=
  match TokenStream.hasNext t.stream with
  | (true, stream) => ⟨(TokenStream.nextToken stream).1, (TokenStream.nextToken stream).2⟩
  | (false, stream) => ⟨.eof t.current.position, stream⟩

/-- In front of the first token of a stream. -/
def initial (stream : σ) : Tape σ :=
  advance ⟨.eof .start, stream⟩

/-- A bound of the tokens left, the one in hand included; nothing is left behind the end of the
input. -/
def left (t : Tape σ) : Nat :=
  if t.current.kind = .eof then 0 else TokenStream.size t.stream + 1

theorem left_advance_lt {t : Tape σ} (h : t.current.kind ≠ .eof) : t.advance.left < t.left := by
  have hleft : t.left = TokenStream.size t.stream + 1 := if_neg h
  rw [hleft]
  unfold advance
  split
  · rename_i stream hnext
    have hlt := TokenStream.size_lt t.stream (by rw [hnext])
    rw [hnext] at hlt
    unfold left
    split
    · exact Nat.succ_pos _
    · exact Nat.succ_lt_succ hlt
  · exact Nat.succ_pos _

/-- Whether one tape is reached from another by steps over tokens, none of which is the end of the
input. -/
inductive Reaches : Tape σ → Tape σ → Prop
  | refl (t : Tape σ) : Reaches t t
  | step {t u : Tape σ} (h : t.current.kind ≠ .eof) (k : Reaches t.advance u) : Reaches t u

theorem Reaches.trans {t u v : Tape σ} (h : t.Reaches u) (k : u.Reaches v) : t.Reaches v := by
  induction h with
  | refl => exact k
  | step hkind _ ih => exact .step hkind (ih k)

theorem Reaches.left_le {t u : Tape σ} (h : t.Reaches u) : u.left ≤ t.left := by
  induction h with
  | refl => exact Nat.le_refl _
  | step hkind _ ih => exact Nat.le_of_lt (Nat.lt_of_le_of_lt ih (left_advance_lt hkind))

/-- Whether one tape is reached from another by steps over the token in hand and maybe others. -/
structure Passes (t u : Tape σ) : Prop where
  kind_ne_eof : t.current.kind ≠ .eof
  reaches : t.advance.Reaches u

theorem Passes.left_lt {t u : Tape σ} (h : t.Passes u) : u.left < t.left :=
  Nat.lt_of_le_of_lt h.reaches.left_le (left_advance_lt h.kind_ne_eof)

/-- The tape behind the next `;`. -/
def synchronize (t : Tape σ) : Tape σ :=
  if t.current.kind = .semicolon then t.advance
  else if _h : t.current.kind = .eof then t
  else t.advance.synchronize
termination_by t.left
decreasing_by exact left_advance_lt _h

theorem reaches_synchronize (t : Tape σ) : t.Reaches t.synchronize := by
  fun_induction synchronize t with
  | case1 t h => exact .step (by rw [h]; decide) (.refl _)
  | case2 t => exact .refl t
  | case3 t _ h ih => exact .step h ih

theorem passes_synchronize {t : Tape σ} (h : t.current.kind ≠ .eof) : t.Passes t.synchronize := by
  rw [synchronize, dif_neg h]
  split
  · exact ⟨h, .refl _⟩
  · exact ⟨h, t.advance.reaches_synchronize⟩

/-- The tape behind a faulty loop header: behind `do` or `;`, or in front of `end`. -/
def skipHeader (t : Tape σ) : Tape σ :=
  if _h : t.current.kind = .eof then t
  else if t.current.kind = .keyword .end then t
  else if t.current.kind = .keyword .do ∨ t.current.kind = .semicolon then t.advance
  else t.advance.skipHeader
termination_by t.left
decreasing_by exact left_advance_lt _h

theorem reaches_skipHeader (t : Tape σ) : t.Reaches t.skipHeader := by
  fun_induction skipHeader t with
  | case1 t => exact .refl t
  | case2 t => exact .refl t
  | case3 t h => exact .step h (.refl _)
  | case4 t h _ _ ih => exact .step h ih

end Tape

/-! ### Cursors -/

/-- What a rule works on: a tape, the types of the variables declared so far, and the diagnostics
reported so far. -/
structure Cursor (σ : Type) where
  tape : Tape σ
  types : TypeTable
  diagnostics : List Diagnostic

namespace Cursor

/-- In front of the first token of a stream. -/
def initial (types : TypeTable) (stream : σ) : Cursor σ :=
  ⟨.initial stream, types, []⟩

/-- The token to look at. -/
def current (c : Cursor σ) : Token :=
  c.tape.current

/-- The cursor at another tape. -/
def moveTo (c : Cursor σ) (tape : Tape σ) : Cursor σ :=
  { c with tape }

/-- The cursor behind the current token. -/
def advance (c : Cursor σ) : Cursor σ :=
  c.moveTo c.tape.advance

/-- The cursor with one more diagnostic. -/
def report (c : Cursor σ) (fault : Diagnostic) : Cursor σ :=
  { c with diagnostics := c.diagnostics ++ [fault] }

/-- The cursor that knows one more declared type. -/
def declare (c : Cursor σ) (name : String) (ty : ValueType) : Cursor σ :=
  { c with types := c.types.declare name ty }

/-- The mention of a variable by a token, with the type known for it. -/
def reference (c : Cursor σ) (token : Token) : Identifier :=
  ⟨token.lexeme, c.types token.lexeme, token.position⟩

/-- The cursor behind the next `;`. -/
def synchronize (c : Cursor σ) : Cursor σ :=
  c.moveTo c.tape.synchronize

/-- The cursor behind a faulty loop header. -/
def skipHeader (c : Cursor σ) : Cursor σ :=
  c.moveTo c.tape.skipHeader

theorem reaches_advance {c : Cursor σ} {kind : TokenKind} (h : c.current.kind = kind)
    (hkind : kind ≠ .eof) : c.tape.Reaches c.advance.tape :=
  .step (h ▸ hkind : c.current.kind ≠ .eof) (.refl _)

end Cursor

/-! ### Rules -/

/-- What a rule makes of a cursor: a value, or a fault that has not been reported yet; and the
cursor it leaves behind. -/
inductive Outcome (α : Type) (c : Cursor σ)
  | ok (value : α) (after : Cursor σ) (reaches : c.tape.Reaches after.tape)
  | error (fault : Diagnostic) (after : Cursor σ) (reaches : c.tape.Reaches after.tape)

namespace Outcome

variable {α β : Type} {c : Cursor σ}

/-- An outcome seen from an earlier cursor. -/
def since {d : Cursor σ} (h : c.tape.Reaches d.tape) : Outcome α d → Outcome α c
  | ok value e k => ok value e (h.trans k)
  | error fault e k => error fault e (h.trans k)

/-- Goes on from a value; a fault ends the rule. -/
def andThen (outcome : Outcome α c)
    (next : (value : α) → (d : Cursor σ) → c.tape.Reaches d.tape → Outcome β d) : Outcome β c :=
  match outcome with
  | ok value d h => (next value d h).since h
  | error fault d h => error fault d h

end Outcome

/-- A rule of the grammar. -/
def Rule (σ : Type) [TokenStream σ] (α : Type) : Type := (c : Cursor σ) → Outcome α c

instance : Monad (Rule σ) where
  pure value := fun c => .ok value c (.refl _)
  bind rule next := fun c => (rule c).andThen fun value d _ => next value d

namespace Rule

/-- Records a declared type. -/
def declare (name : String) (ty : ValueType) : Rule σ Unit :=
  fun c => .ok () (c.declare name ty) (.refl _)

/-- The mention of a variable by a token, with the type known for it by now. -/
def reference (token : Token) : Rule σ Identifier :=
  fun c => .ok (c.reference token) c (.refl _)

/-- Takes a token of the given kind.  A token that could not be classified is reported and stands in
for it; any other token is a fault and stays. -/
def expect (kind : TokenKind) (hkind : kind ≠ .eof := by decide) : Rule σ Token := fun c =>
  if h : c.current.kind = kind then .ok c.current c.advance (c.reaches_advance h hkind)
  else if h : c.current.kind = .unknown then
    .ok ⟨kind, c.current.lexeme, c.current.position⟩ (c.report (.unclassified c.current)).advance
      (c.reaches_advance h (by decide))
  else .error (.unexpected (.token kind) c.current) c (.refl _)

/-- Takes a variable and mentions it. -/
def identifier : Rule σ Identifier := do
  reference (← expect .identifier)

end Rule

/-! ### Expressions -/

theorem kind_ne_eof_of_operator? {level : Level} {kind : TokenKind} {op : BinaryOp}
    (h : level.operator? kind = some op) : kind ≠ .eof := by
  rintro rfl
  cases level <;> cases h

mutual

/-- Operands joined by the operators of a level. -/
def chain (level : Level) (c : Cursor σ) : Outcome Expr c :=
  (operand level c).andThen fun left d _h => chainFrom level left d
termination_by 5 * c.tape.left + level.rank + 1
decreasing_by
  · omega
  · have := _h.left_le
    omega

/-- The rest of a chain behind its left part. -/
def chainFrom (level : Level) (left : Expr) (c : Cursor σ) : Outcome Expr c :=
  match _h : level.operator? c.current.kind with
  | none => .ok left c (.refl _)
  | some op =>
    ((operand level c.advance).andThen fun right d _h =>
      chainFrom level (.binary op left right c.current.position) d).since
        (c.reaches_advance rfl (kind_ne_eof_of_operator? _h))
termination_by 5 * c.tape.left
decreasing_by
  · have : c.advance.tape.left < c.tape.left := Tape.left_advance_lt (kind_ne_eof_of_operator? _h)
    have := level.rank_le
    omega
  · have : c.advance.tape.left < c.tape.left := Tape.left_advance_lt (kind_ne_eof_of_operator? ‹_›)
    have := _h.left_le
    omega

/-- What the operators of a level join. -/
def operand (level : Level) (c : Cursor σ) : Outcome Expr c :=
  match level with
  | .loose => chain .tight c
  | .tight => factor c
termination_by 5 * c.tape.left + level.rank
decreasing_by
  · simp only [Level.rank]
    omega
  · simp only [Level.rank]
    omega

/-- A literal, a variable, an expression in parentheses, or the negation of a factor. -/
def factor (c : Cursor σ) : Outcome Expr c :=
  match h : c.current.kind with
  | .intLiteral =>
    match Text.Decimal.read? c.current.lexeme with
    | some n => .ok (.int n) c.advance (c.reaches_advance h (by decide))
    | none =>
      .error (.of (.literalOutOfRange c.current.lexeme) c.current.position) c (.refl _)
  | .stringLiteral => .ok (.string c.current.lexeme) c.advance (c.reaches_advance h (by decide))
  | .boolLiteral =>
    .ok (.bool (c.current.lexeme == "true")) c.advance (c.reaches_advance h (by decide))
  | .identifier =>
    .ok (.var (c.reference c.current)) c.advance (c.reaches_advance h (by decide))
  | .leftParen =>
    ((chain .loose c.advance).andThen fun inner d _ =>
      (Rule.expect .rightParen (by decide) d).andThen fun _ e _ =>
        .ok inner e (.refl _)).since (c.reaches_advance h (by decide))
  | .not =>
    ((factor c.advance).andThen fun operand d _ =>
      .ok (.not operand c.current.position) d (.refl _)).since
        (c.reaches_advance h (by decide))
  | _ => .error (.unexpected .operand c.current) c (.refl _)
termination_by 5 * c.tape.left
decreasing_by
  · have : c.advance.tape.left < c.tape.left :=
      Tape.left_advance_lt (by show c.current.kind ≠ _; rw [h]; decide)
    simp only [Level.rank]
    omega
  · have : c.advance.tape.left < c.tape.left :=
      Tape.left_advance_lt (by show c.current.kind ≠ _; rw [h]; decide)
    omega

end

/-! ### Statements without a body -/

namespace Rule

/-- An expression. -/
def expr : Rule σ Expr :=
  chain .loose

/-- The name of a type. -/
def typeName : Rule σ ValueType := fun c =>
  match h : c.current.kind with
  | .keyword .int => .ok .int c.advance (c.reaches_advance h (by decide))
  | .keyword .string => .ok .string c.advance (c.reaches_advance h (by decide))
  | .keyword .bool => .ok .bool c.advance (c.reaches_advance h (by decide))
  | _ => .error (.unexpected .typeName c.current) c (.refl _)

/-- The initial value of a declaration, if it has one. -/
def initializer : Rule σ (Option Expr) := fun c =>
  if h : c.current.kind = .assign then
    ((do return some (← expr) : Rule σ (Option Expr)) c.advance).since
      (c.reaches_advance h (by decide))
  else .ok none c (.refl _)

/-- A declaration behind its `var`.  The declared type is known from the initializer on. -/
def declaration : Rule σ Statement := do
  let name ← expect .identifier
  let _ ← expect .colon
  let ty ← typeName
  declare name.lexeme ty
  let value ← initializer
  return .declaration name.lexeme name.position ty value

/-- An assignment behind its target. -/
def assignment (target : Token) : Rule σ Statement := do
  let target ← reference target
  let _ ← expect .assign
  return .assignment target (← expr)

/-- A `print` statement behind its keyword. -/
def print (keyword : Token) : Rule σ Statement := do
  return .print (← expr) keyword.position

/-- A `read` statement behind its keyword. -/
def read : Rule σ Statement := do
  return .read (← identifier)

/-- An assertion behind its keyword. -/
def assertion (keyword : Token) : Rule σ Statement := do
  let _ ← expect .leftParen
  let condition ← expr
  let _ ← expect .rightParen
  return .assert condition keyword.position

/-- The header of a loop behind its `for`. -/
def loopHeader : Rule σ LoopHeader := do
  let counter ← identifier
  let _ ← expect (.keyword .in)
  let start ← expr
  let _ ← expect .range
  let stop ← expr
  let _ ← expect (.keyword .do)
  return ⟨counter, start, stop⟩

/-- The end of a loop. -/
def loopEnd : Rule σ Unit := do
  let _ ← expect (.keyword .end)
  let _ ← expect (.keyword .for)

end Rule

/-! ### Loops and blocks -/

/-- What a rule that cannot fail makes of a cursor: the statements read and the cursor behind
them. -/
structure BlockOutcome (c : Cursor σ) where
  statements : Block
  after : Cursor σ
  reaches : c.tape.Reaches after.tape

/-- What one round of a block comes to: it ends the block, or it goes on behind the current token
with the statement read, if there is one. -/
inductive Round (c : Cursor σ)
  | leaves (after : Cursor σ) (reaches : c.tape.Reaches after.tape)
  | goesOn (statement? : Option Statement) (after : Cursor σ) (passes : c.tape.Passes after.tape)

mutual

/-- The statements up to the end of the input, or up to `end` in the body of a loop. -/
def block (inLoop : Bool) (c : Cursor σ) : BlockOutcome c :=
  match round inLoop c with
  | .leaves d h => ⟨[], d, h⟩
  | .goesOn statement? d _h =>
    let rest := block inLoop d
    ⟨statement?.toList ++ rest.statements, rest.after, (Tape.Reaches.step _h.1 _h.2).trans rest.3⟩
termination_by 4 * c.tape.left + 1
decreasing_by
  · omega
  · have := _h.left_lt
    omega

/-- One round of a block. -/
def round (inLoop : Bool) (c : Cursor σ) : Round c :=
  if heof : c.current.kind = .eof then .leaves c (.refl _)
  else if inLoop ∧ c.current.kind = .keyword .end then .leaves c (.refl _)
  else if c.current.kind = .unknown then
    .goesOn none (c.report (.unclassified c.current)).advance ⟨heof, .refl _⟩
  else
    match StatementForm.ofKind? c.current.kind with
    | some form =>
      match statement form c.current c.advance with
      | .ok value d h => .goesOn (some value) d ⟨heof, h⟩
      | .error fault d h =>
        .goesOn none (d.report fault).synchronize ⟨heof, h.trans d.tape.reaches_synchronize⟩
    | none =>
      match c.current.kind with
      | .keyword _ => .leaves (c.report (.unrecognizedStatement c.current)) (.refl _)
      | _ =>
        .goesOn none (c.report (.unexpected .statement c.current)).synchronize
          (Tape.passes_synchronize heof)
termination_by 4 * c.tape.left
decreasing_by
  have : c.advance.tape.left < c.tape.left := Tape.left_advance_lt heof
  omega

/-- A statement of a form behind its first token, through its `;`. -/
def statement (form : StatementForm) (first : Token) (c : Cursor σ) : Outcome Statement c :=
  let body : Outcome Statement c :=
    match form with
    | .declaration => Rule.declaration c
    | .assignment => Rule.assignment first c
    | .loop => loop c
    | .print => Rule.print first c
    | .read => Rule.read c
    | .assertion => Rule.assertion first c
  body.andThen fun value d _ =>
    (Rule.expect .semicolon (by decide) d).andThen fun _ e _ => .ok value e (.refl _)
termination_by 4 * c.tape.left + 3
decreasing_by omega

/-- A loop behind its `for`. -/
def loop (c : Cursor σ) : Outcome Statement c :=
  match Rule.loopHeader c with
  | .ok header d h =>
    let body := block true d
    ((Rule.loopEnd body.after).andThen fun _ e _ =>
      .ok (.loop header.counter header.start header.stop body.statements) e (.refl _)).since
        (h.trans body.reaches)
  | .error fault d h =>
    let body := block true d.skipHeader
    .error fault body.after ((h.trans d.tape.reaches_skipHeader).trans body.reaches)
termination_by 4 * c.tape.left + 2
decreasing_by
  · have := h.left_le
    omega
  · have := h.left_le
    have : d.skipHeader.tape.left ≤ d.tape.left := d.tape.reaches_skipHeader.left_le
    omega

end

/-! ### Whole programs -/

/-- Reads a whole stream, knowing the types of some variables. -/
def whole (stream : σ) (types : TypeTable) : BlockOutcome (Cursor.initial types stream) :=
  block false (.initial types stream)

/-- Reads a program from a stream of tokens, asking for each of them when it is needed. -/
def parse (stream : σ) (types : TypeTable := .empty) : ParseResult :=
  ⟨⟨(whole stream types).statements⟩, (whole stream types).after.diagnostics⟩

end MiniPL.Parser.OnDemand
