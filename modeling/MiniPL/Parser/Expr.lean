import MiniPL.Parser.Basic
import MiniPL.Text.Decimal

/-!
# The grammar of expressions

Operators bind at two levels, both to the left: `+` and `-` loosely, the other five tightly.

    chain .loose = operand .loose (("+" | "-") operand .loose)*
    operand .loose = chain .tight
    chain .tight = operand .tight (("*" | "/" | "<" | "&" | "=") operand .tight)*
    operand .tight = factor
    factor = INT | STRING | BOOL | ID | "(" chain .loose ")" | "!" factor

Definitions: `Level`, the rules `chain`, `operand` and `factor`, and `Rule.expr`.
-/

namespace MiniPL.Parser

/-- The two levels at which operators bind. -/
inductive Level
  | loose
  | tight
  deriving DecidableEq, Repr

/-- The operator of a level that a kind of token writes. -/
def Level.operator? : Level → TokenKind → Option BinaryOp
  | loose, .plus => some .add
  | loose, .minus => some .sub
  | tight, .star => some .mul
  | tight, .slash => some .div
  | tight, .less => some .less
  | tight, .and => some .and
  | tight, .equal => some .equal
  | _, _ => none

/-- Rules that need no further token have the smaller rank. -/
def Level.rank : Level → Nat
  | tight => 1
  | loose => 3

theorem Level.rank_le (level : Level) : level.rank ≤ 3 := by
  cases level <;> decide

mutual

/-- Operands joined by the operators of a level. -/
def chain (level : Level) (s : State) : Outcome Expr s :=
  (operand level s).andThen fun left t _h => chainFrom level left t
termination_by 5 * s.rest.length + level.rank + 1
decreasing_by
  · omega
  · have := _h.length_le
    omega

/-- The rest of a chain behind its left part. -/
def chainFrom (level : Level) (left : Expr) (s : State) : Outcome Expr s :=
  match _h : s.rest with
  | [] => .ok left s (.refl s)
  | token :: _ =>
    match level.operator? token.kind with
    | none => .ok left s (.refl s)
    | some op =>
      ((operand level s.advance).andThen fun right t _h =>
        chainFrom level (.binary op left right token.position) t).since s.reaches_advance
termination_by 5 * s.rest.length
decreasing_by
  · have := State.length_advance_lt ‹_›
    have := level.rank_le
    omega
  · have := State.length_advance_lt ‹_›
    have := _h.length_le
    omega

/-- What the operators of a level join. -/
def operand (level : Level) (s : State) : Outcome Expr s :=
  match level with
  | .loose => chain .tight s
  | .tight => factor s
termination_by 5 * s.rest.length + level.rank
decreasing_by
  · simp only [Level.rank]
    omega
  · simp only [Level.rank]
    omega

/-- A literal, a variable, an expression in parentheses, or the negation of a factor. -/
def factor (s : State) : Outcome Expr s :=
  match _h : s.rest with
  | [] => .error (.unexpected .operand s.eof) s (.refl s)
  | token :: _ =>
    match token.kind with
    | .intLiteral =>
      match Text.Decimal.read? token.lexeme with
      | some n => .ok (.int n) s.advance s.reaches_advance
      | none => .error (.of (.literalOutOfRange token.lexeme) token.position) s (.refl s)
    | .stringLiteral => .ok (.string token.lexeme) s.advance s.reaches_advance
    | .boolLiteral => .ok (.bool (token.lexeme == "true")) s.advance s.reaches_advance
    | .identifier => .ok (.var (s.reference token)) s.advance s.reaches_advance
    | .leftParen =>
      ((chain .loose s.advance).andThen fun inner t _ =>
        (Rule.expect .rightParen t).andThen fun _ u _ =>
          .ok inner u (.refl u)).since s.reaches_advance
    | .not =>
      ((factor s.advance).andThen fun operand t _ =>
        .ok (.not operand token.position) t (.refl t)).since s.reaches_advance
    | _ => .error (.unexpected .operand token) s (.refl s)
termination_by 5 * s.rest.length
decreasing_by
  · have := State.length_advance_lt ‹_›
    simp only [Level.rank]
    omega
  · have := State.length_advance_lt ‹_›
    omega

end

/-- An expression. -/
def Rule.expr : Rule Expr :=
  chain .loose

end MiniPL.Parser
