import MiniPL.Parser.Program
import MiniPL.Proofs.Moving

/-!
# Faults at other places

A fault of the parser has two places, that at which it points and that of the token which it found.
`Diagnostic.relocated` changes both.  Resuming after a fault looks at the kinds of tokens alone
(`Parser.behindSemicolon_map_moved`, `Parser.behindHeader_map_moved`), and places that are changed
into themselves change nothing (`Block.moved_id`, `Diagnostic.relocated_id`).
-/

namespace MiniPL

@[simp] theorem Token.kind_moved (place : Position → Position) (token : Token) :
    (token.moved place).kind = token.kind := rfl

/-- A cause with the place of its token changed. -/
def Cause.moved (place : Position → Position) : Cause → Cause
  | unclassified found => unclassified (found.moved place)
  | unexpected expected found => unexpected expected (found.moved place)
  | unrecognizedStatement found => unrecognizedStatement (found.moved place)
  | cause => cause

/-- A diagnostic with its place and the place of its token changed. -/
def Diagnostic.relocated (place : Position → Position) (fault : Diagnostic) : Diagnostic :=
  { fault with cause := fault.cause.moved place, position := place fault.position }

/-! ### Resuming at other places -/

namespace Parser

/-- A loop header with its places changed. -/
def LoopHeader.moved (place : Position → Position) (header : LoopHeader) : LoopHeader :=
  ⟨header.counter.moved place, header.start.moved place, header.stop.moved place⟩

theorem behindSemicolon_map_moved (place : Position → Position) (tokens : List Token) :
    behindSemicolon (tokens.map (Token.moved place)) =
      (behindSemicolon tokens).map (Token.moved place) := by
  fun_induction behindSemicolon tokens with
  | case1 => rfl
  | case2 token rest h => exact if_pos h
  | case3 token rest h ih => exact (if_neg h).trans ih

theorem behindHeader_map_moved (place : Position → Position) (tokens : List Token) :
    behindHeader (tokens.map (Token.moved place)) =
      (behindHeader tokens).map (Token.moved place) := by
  fun_induction behindHeader tokens with
  | case1 => rfl
  | case2 token rest h => exact if_pos h
  | case3 token rest h h' => exact (if_neg h).trans (if_pos h')
  | case4 token rest h h' ih => exact ((if_neg h).trans (if_neg h')).trans ih

end Parser

/-! ### Places that stay -/

theorem Expr.moved_id (e : Expr) : e.moved id = e := by
  induction e with
  | int | string | bool | var => rfl
  | not operand position ih => exact congrArg (Expr.not · position) ih
  | binary op left right position ihleft ihright =>
    exact congr (congrArg (fun l r => Expr.binary op l r position) ihleft) ihright

mutual

theorem Statement.moved_id : ∀ v : Statement, v.moved id = v
  | .declaration name position ty none => rfl
  | .declaration name position ty (some e) =>
    congrArg (fun e => Statement.declaration name position ty (some e)) e.moved_id
  | .assignment target value => congrArg (Statement.assignment target) value.moved_id
  | .loop counter start stop body => by
    show Statement.loop counter (start.moved id) (stop.moved id) (Block.moved id body) = _
    rw [start.moved_id, stop.moved_id, Block.moved_id body]
  | .print value position => congrArg (Statement.print · position) value.moved_id
  | .read target => rfl
  | .assert condition position => congrArg (Statement.assert · position) condition.moved_id

theorem Block.moved_id : ∀ b : Block, b.moved id = b
  | [] => rfl
  | v :: rest => by
    show v.moved id :: Block.moved id rest = _
    rw [v.moved_id, Block.moved_id rest]

end

theorem Diagnostic.relocated_id (fault : Diagnostic) : fault.relocated id = fault := by
  have hcause : fault.cause.moved id = fault.cause := by cases fault.cause <;> rfl
  unfold relocated
  rw [hcause]
  rfl

end MiniPL
