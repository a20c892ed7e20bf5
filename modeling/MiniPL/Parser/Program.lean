import MiniPL.Parser.Expr
import MiniPL.Token.Stream

/-!
# The grammar of programs

    block = (statement ";")*
    statement = "var" ID ":" type (":=" expr)?
              | ID ":=" expr
              | "for" ID "in" expr ".." expr "do" block "end" "for"
              | "print" expr
              | "read" ID
              | "assert" "(" expr ")"

A faulty statement is reported and left out, and reading goes on behind its `;`.  The body of a loop
with a faulty header is still read, up to its `end`, and the header is reported after what the body
reports.  A keyword that starts no statement ends the block in front of it.

Definitions: `Rule.declaration`, `Rule.loopHeader`, `block`, `ParseResult`, `parse`, `parseText`.
-/

namespace MiniPL

namespace Parser

/-! ### Resuming after a fault -/

/-- The tokens behind the first `;`. -/
def behindSemicolon : List Token → List Token
  | [] => []
  | token :: rest => if token.kind = .semicolon then rest else behindSemicolon rest

theorem behindSemicolon_suffix (tokens : List Token) : behindSemicolon tokens <:+ tokens := by
  fun_induction behindSemicolon tokens with
  | case1 => exact List.suffix_refl _
  | case2 token rest => exact List.suffix_cons _ _
  | case3 token rest _ ih => exact ih.trans (List.suffix_cons _ _)

theorem length_behindSemicolon_lt {tokens : List Token} (h : tokens ≠ []) :
    (behindSemicolon tokens).length < tokens.length := by
  fun_induction behindSemicolon tokens with
  | case1 => exact absurd rfl h
  | case2 token rest => simp
  | case3 token rest _ ih => exact Nat.lt_succ_of_le (behindSemicolon_suffix rest).length_le

/-- The tokens of a loop behind a faulty header: behind `do` or `;`, or in front of `end`. -/
def behindHeader : List Token → List Token
  | [] => []
  | token :: rest =>
    if token.kind = .keyword .end then token :: rest
    else if token.kind = .keyword .do ∨ token.kind = .semicolon then rest
    else behindHeader rest

theorem behindHeader_suffix (tokens : List Token) : behindHeader tokens <:+ tokens := by
  fun_induction behindHeader tokens with
  | case1 => exact List.suffix_refl _
  | case2 => exact List.suffix_refl _
  | case3 => exact List.suffix_cons _ _
  | case4 token rest _ _ ih => exact ih.trans (List.suffix_cons _ _)

namespace State

/-- The state behind the next `;`. -/
def synchronize (s : State) : State :=
  s.skipTo (behindSemicolon s.rest)

/-- The state behind a faulty loop header. -/
def skipHeader (s : State) : State :=
  s.skipTo (behindHeader s.rest)

theorem reaches_synchronize (s : State) : s.Reaches s.synchronize :=
  s.reaches_skipTo (behindSemicolon_suffix _)

theorem reaches_skipHeader (s : State) : s.Reaches s.skipHeader :=
  s.reaches_skipTo (behindHeader_suffix _)

end State

/-! ### Statements without a body -/

namespace Rule

/-- The name of a type. -/
def typeName : Rule ValueType := do
  let token ← current
  match token.kind with
  | .keyword .int => advance; return .int
  | .keyword .string => advance; return .string
  | .keyword .bool => advance; return .bool
  | _ => fail (.unexpected .typeName token)

/-- The initial value of a declaration, if it has one. -/
def initializer : Rule (Option Expr) := do
  let token ← current
  if token.kind = .assign then
    advance
    return some (← expr)
  else
    return none

/-- A declaration behind its `var`.  The declared type is known from the initializer on. -/
def declaration : Rule Statement := do
  let name ← expect .identifier
  let _ ← expect .colon
  let ty ← typeName
  declare name.lexeme ty
  let value ← initializer
  return .declaration name.lexeme name.position ty value

/-- An assignment behind its target. -/
def assignment (target : Token) : Rule Statement := do
  let target ← reference target
  let _ ← expect .assign
  return .assignment target (← expr)

/-- A `print` statement behind its keyword. -/
def print (keyword : Token) : Rule Statement := do
  return .print (← expr) keyword.position

/-- A `read` statement behind its keyword. -/
def read : Rule Statement := do
  return .read (← identifier)

/-- An assertion behind its keyword. -/
def assertion (keyword : Token) : Rule Statement := do
  let _ ← expect .leftParen
  let condition ← expr
  let _ ← expect .rightParen
  return .assert condition keyword.position

end Rule

/-! ### Loops and blocks -/

/-- What stands between `for` and the body of a loop. -/
structure LoopHeader where
  counter : Identifier
  start : Expr
  stop : Expr

/-- The header of a loop behind its `for`. -/
def Rule.loopHeader : Rule LoopHeader := do
  let counter ← identifier
  let _ ← expect (.keyword .in)
  let start ← expr
  let _ ← expect .range
  let stop ← expr
  let _ ← expect (.keyword .do)
  return ⟨counter, start, stop⟩

/-- The end of a loop. -/
def Rule.loopEnd : Rule Unit := do
  let _ ← expect (.keyword .end)
  let _ ← expect (.keyword .for)

/-- The forms of statements, told apart by their first token. -/
inductive StatementForm
  | declaration
  | assignment
  | loop
  | print
  | read
  | assertion
  deriving DecidableEq, Repr

/-- The form of the statement that a kind of token starts. -/
def StatementForm.ofKind? : TokenKind → Option StatementForm
  | .keyword .var => some .declaration
  | .identifier => some .assignment
  | .keyword .for => some .loop
  | .keyword .print => some .print
  | .keyword .read => some .read
  | .keyword .assert => some .assertion
  | _ => none

/-- What a rule that cannot fail makes of a state: the statements read and the state behind them. -/
structure BlockOutcome (s : State) where
  statements : Block
  after : State
  reaches : s.Reaches after

namespace BlockOutcome

variable {s : State}

/-- An outcome seen from an earlier state. -/
def since {t : State} (h : s.Reaches t) (outcome : BlockOutcome t) : BlockOutcome s :=
  ⟨outcome.statements, outcome.after, h.trans outcome.reaches⟩

/-- An outcome with one more statement in front. -/
def cons (statement : Statement) (outcome : BlockOutcome s) : BlockOutcome s :=
  ⟨statement :: outcome.statements, outcome.after, outcome.reaches⟩

end BlockOutcome

mutual

/-- The statements up to the end of the input, or up to `end` in the body of a loop. -/
def block (inLoop : Bool) (s : State) : BlockOutcome s :=
  match _h : s.rest with
  | [] => ⟨[], s, .refl s⟩
  | token :: _ =>
    if inLoop ∧ token.kind = .keyword .end then ⟨[], s, .refl s⟩
    else if token.kind = .unknown then
      (block inLoop (s.report (.unclassified token)).advance).since
        ((s.reaches_report _).trans (State.reaches_advance _))
    else
      match StatementForm.ofKind? token.kind with
      | some form =>
        match statement form token s.advance with
        | .ok value t h => ((block inLoop t).cons value).since (s.reaches_advance.trans h)
        | .error fault t h =>
          (block inLoop (t.report fault).synchronize).since
            (((s.reaches_advance.trans h).trans (t.reaches_report fault)).trans
              (State.reaches_synchronize _))
      | none =>
        match token.kind with
        | .keyword _ => ⟨[], s.report (.unrecognizedStatement token), s.reaches_report _⟩
        | _ =>
          (block inLoop (s.report (.unexpected .statement token)).synchronize).since
            ((s.reaches_report _).trans (State.reaches_synchronize _))
termination_by 3 * s.rest.length
decreasing_by
  · have : (s.report (.unclassified token)).advance.rest.length < s.rest.length :=
      State.length_advance_lt (s := s.report _) ‹_›
    omega
  · have := State.length_advance_lt ‹_›
    omega
  · have := State.length_advance_lt ‹_›
    have := h.length_le
    omega
  · have := State.length_advance_lt ‹_›
    have := h.length_le
    have : (t.report fault).synchronize.rest.length ≤ t.rest.length :=
      (State.reaches_synchronize _).length_le
    omega
  · have : (s.report (.unexpected .statement token)).synchronize.rest.length < s.rest.length :=
      length_behindSemicolon_lt (by simp [State.report, *])
    omega

/-- A statement of a form behind its first token, through its `;`. -/
def statement (form : StatementForm) (first : Token) (s : State) : Outcome Statement s :=
  let body : Outcome Statement s :=
    match form with
    | .declaration => Rule.declaration s
    | .assignment => Rule.assignment first s
    | .loop => loop s
    | .print => Rule.print first s
    | .read => Rule.read s
    | .assertion => Rule.assertion first s
  body.andThen fun value t _ =>
    (Rule.expect .semicolon t).andThen fun _ u _ => .ok value u (.refl u)
termination_by 3 * s.rest.length + 2
decreasing_by omega

/-- A loop behind its `for`. -/
def loop (s : State) : Outcome Statement s :=
  match Rule.loopHeader s with
  | .ok header t h =>
    let body := block true t
    ((Rule.loopEnd body.after).andThen fun _ u _ =>
      .ok (.loop header.counter header.start header.stop body.statements) u (.refl u)).since
        (h.trans body.reaches)
  | .error fault t h =>
    let body := block true t.skipHeader
    .error fault body.after ((h.trans t.reaches_skipHeader).trans body.reaches)
termination_by 3 * s.rest.length + 1
decreasing_by
  · have := h.length_le
    omega
  · have := h.length_le
    have := t.reaches_skipHeader.length_le
    omega

end

/-! ### Whole programs -/

/-- The end of the input of a list of tokens: its first end token, or else the place of its last
token. -/
def endOf (tokens : List Token) : Token :=
  match tokens.find? fun token => token.kind == .eof with
  | some eof => eof
  | none =>
    match tokens.getLast? with
    | some last => .eof last.position
    | none => .eof .start

theorem kind_endOf (tokens : List Token) : (endOf tokens).kind = .eof := by
  unfold endOf
  split
  · rename_i eof h
    simpa using List.find?_some h
  · split <;> rfl

/-- The state in front of a list of tokens; what follows an end token is never read. -/
def State.initial (types : TypeTable) (tokens : List Token) : State where
  rest := tokens.takeWhile fun token => token.kind != .eof
  eof := endOf tokens
  types := types
  diagnostics := []
  kind_eof := kind_endOf tokens

end Parser

/-- The program that was read, and what there is to say about its source. -/
structure ParseResult where
  program : Program
  diagnostics : List Diagnostic

/-- Whether there is nothing to say about the source. -/
def ParseResult.isClean (result : ParseResult) : Bool :=
  result.diagnostics.isEmpty

/-- Reads a program from a list of tokens, knowing the types of some variables. -/
def parseTokens (tokens : List Token) (types : TypeTable := .empty) : ParseResult :=
  let outcome := Parser.block false (.initial types tokens)
  ⟨⟨outcome.statements⟩, outcome.after.diagnostics⟩

/-- Reads a program from a stream of tokens, knowing the types of some variables. -/
def parse {σ : Type} [TokenStream σ] (stream : σ) (types : TypeTable := .empty) : ParseResult :=
  parseTokens (TokenStream.drain stream) types

/-- Reads a program from its text, knowing the types of some variables. -/
def parseText (text : String) (types : TypeTable := .empty) : ParseResult :=
  parse (Lexer.ofText text) types

end MiniPL
