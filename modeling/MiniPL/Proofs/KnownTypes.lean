import Mathlib.Data.List.Forall2
import MiniPL.Proofs.Typing

/-!
# What known types bear on

The types that are known in front of a program tag the mentions of variables in it, and nothing
else: two parses of the same tokens with different types take the same way through the grammar.
While they run their tables may differ only where each still has what was known in front
(`TypeTable.Sides`), because a declaration is recorded on both sides, also one that is thrown away.

A rule that keeps this for its trees is `Rule.Parallel`; it is closed under sequencing, and the
rules of the grammar are taken one by one.  Main statement: `known_types_only_tag`.
-/

namespace MiniPL

/-! ### Mentions in the order of the text -/

mutual

/-- The variables that a statement mentions, in the order of the text; a declared name is no
mention. -/
def Statement.mentions : Statement → List Identifier
  | .declaration _ _ _ initializer => initializer.elim [] Expr.mentions
  | .assignment target value => target :: value.mentions
  | .loop counter start stop body =>
    counter :: start.mentions ++ stop.mentions ++ Block.mentions body
  | .print value _ => value.mentions
  | .read target => [target]
  | .assert condition _ => condition.mentions

/-- The variables that the statements of a block mention, in the order of the text. -/
def Block.mentions : Block → List Identifier
  | [] => []
  | v :: rest => v.mentions ++ Block.mentions rest

end

/-! ### Two sides -/

section
variable (known known' : TypeTable)

/-- `known.Sides known' types types'`: where the tables of two sides differ, each has the type that
was known in front. -/
def TypeTable.Sides (types types' : TypeTable) : Prop :=
  ∀ name, types name ≠ types' name → types name = known name ∧ types' name = known' name

/-- Two mentions of one variable at one place; where their tags differ, each is the type that was
known in front. -/
structure Identifier.Twins (i j : Identifier) : Prop where
  name : i.name = j.name
  position : i.position = j.position
  ty : i.ty ≠ j.ty → i.ty = known i.name ∧ j.ty = known' j.name

/-- Expressions that are the same but for the tags of their mentions, which are twins. -/
structure Expr.Twins (e e' : Expr) : Prop where
  untagged : e.untagged = e'.untagged
  mentions : List.Forall₂ (Identifier.Twins known known') e.mentions e'.mentions

/-- Statements that are the same but for the tags of their mentions, which are twins. -/
structure Statement.Twins (v v' : Statement) : Prop where
  untagged : v.untagged = v'.untagged
  mentions : List.Forall₂ (Identifier.Twins known known') v.mentions v'.mentions

/-- Blocks that are the same but for the tags of their mentions, which are twins. -/
structure Block.Twins (b b' : Block) : Prop where
  untagged : Block.untagged b = Block.untagged b'
  mentions : List.Forall₂ (Identifier.Twins known known') (Block.mentions b) (Block.mentions b')

end

section
variable {known known' types types' : TypeTable}

/-- Both sides know what was known in front. -/
theorem TypeTable.sides_refl (known known' : TypeTable) : known.Sides known' known known' :=
  fun _ _ => ⟨rfl, rfl⟩

/-- A declaration makes the tables agree on its name. -/
theorem TypeTable.Sides.declare (h : known.Sides known' types types') (name : String)
    (ty : ValueType) : known.Sides known' (types.declare name ty) (types'.declare name ty) := by
  intro other hne
  unfold TypeTable.declare at hne ⊢
  by_cases hother : other = name
  · rw [if_pos hother, if_pos hother] at hne
    exact absurd rfl hne
  · rw [if_neg hother, if_neg hother] at hne ⊢
    exact h other hne

namespace Expr

theorem twins_of_mentions_eq_nil {e : Expr} (h : e.mentions = []) : e.Twins known known' e :=
  ⟨rfl, h ▸ .nil⟩

theorem Twins.not {e e' : Expr} (h : e.Twins known known' e') (position : Position) :
    (Expr.not e position).Twins known known' (.not e' position) :=
  ⟨congrArg (Expr.not · position) h.untagged, h.mentions⟩

theorem Twins.binary {l l' r r' : Expr} (hl : l.Twins known known' l')
    (hr : r.Twins known known' r') (op : BinaryOp) (position : Position) :
    (Expr.binary op l r position).Twins known known' (.binary op l' r' position) :=
  ⟨untagged_binary op position hl.untagged hr.untagged, List.rel_append hl.mentions hr.mentions⟩

end Expr

theorem Identifier.Twins.var {i j : Identifier} (h : i.Twins known known' j) :
    (Expr.var i).Twins known known' (.var j) := by
  refine ⟨?_, .cons h .nil⟩
  show Expr.var ⟨i.name, none, i.position⟩ = .var ⟨j.name, none, j.position⟩
  rw [h.name, h.position]

namespace Statement

theorem twins_declaration (name : String) (position : Position) (ty : ValueType) :
    (declaration name position ty none).Twins known known' (.declaration name position ty none) :=
  ⟨rfl, .nil⟩

theorem twins_initialized (name : String) (position : Position) (ty : ValueType) {e e' : Expr}
    (h : e.Twins known known' e') : (declaration name position ty (some e)).Twins known known'
      (.declaration name position ty (some e')) :=
  ⟨congrArg (fun e => declaration name position ty (some e)) h.untagged, h.mentions⟩

theorem twins_assignment {i j : Identifier} {e e' : Expr} (hi : i.Twins known known' j)
    (he : e.Twins known known' e') :
    (assignment i e).Twins known known' (.assignment j e') := by
  refine ⟨?_, .cons hi he.mentions⟩
  show assignment ⟨i.name, none, i.position⟩ e.untagged =
    .assignment ⟨j.name, none, j.position⟩ e'.untagged
  rw [hi.name, hi.position, he.untagged]

theorem twins_loop {i j : Identifier} {x x' y y' : Expr} {b b' : Block}
    (hi : i.Twins known known' j) (hx : x.Twins known known' x') (hy : y.Twins known known' y')
    (hb : Block.Twins known known' b b') :
    (loop i x y b).Twins known known' (.loop j x' y' b') := by
  constructor
  · show loop ⟨i.name, none, i.position⟩ x.untagged y.untagged (Block.untagged b) =
      .loop ⟨j.name, none, j.position⟩ x'.untagged y'.untagged (Block.untagged b')
    rw [hi.name, hi.position, hx.untagged, hy.untagged, hb.untagged]
  · exact List.rel_append (List.rel_append (.cons hi hx.mentions) hy.mentions) hb.mentions

theorem twins_print {e e' : Expr} (h : e.Twins known known' e') (position : Position) :
    (print e position).Twins known known' (.print e' position) :=
  ⟨congrArg (print · position) h.untagged, h.mentions⟩

theorem twins_read {i j : Identifier} (h : i.Twins known known' j) :
    (read i).Twins known known' (.read j) := by
  refine ⟨?_, .cons h .nil⟩
  show read ⟨i.name, none, i.position⟩ = .read ⟨j.name, none, j.position⟩
  rw [h.name, h.position]

theorem twins_assert {e e' : Expr} (h : e.Twins known known' e') (position : Position) :
    (assert e position).Twins known known' (.assert e' position) :=
  ⟨congrArg (assert · position) h.untagged, h.mentions⟩

end Statement

theorem Block.twins_nil : Block.Twins known known' [] [] :=
  ⟨rfl, .nil⟩

theorem Block.Twins.cons {v v' : Statement} {b b' : Block} (hv : v.Twins known known' v')
    (hb : Block.Twins known known' b b') : Block.Twins known known' (v :: b) (v' :: b') := by
  refine ⟨?_, List.rel_append hv.mentions hb.mentions⟩
  show v.untagged :: Block.untagged b = v'.untagged :: Block.untagged b'
  rw [hv.untagged, hb.untagged]

end

namespace Parser

/-- The state with another table of types. -/
def State.withTypes (s : State) (types : TypeTable) : State :=
  { s with types }

@[simp] theorem State.current_withTypes (s : State) (types : TypeTable) :
    (s.withTypes types).current = s.current := rfl

/-! ### Rules on two sides -/

namespace Rule

/-- On a state and on the same state with the table of the other side, both rules end in the same
way: with related values or with the same fault, and with the same tokens and reports. -/
def Parallel {α β : Type} (known known' : TypeTable) (r : α → β → Prop) (rule : Rule α)
    (rule' : Rule β) (s : State) : Prop :=
  ∀ types', known.Sides known' s.types types' →
    match rule.run s with
    | .ok value t => ∃ value' types'', rule'.run (s.withTypes types') =
        .ok value' (t.withTypes types'') ∧ r value value' ∧ known.Sides known' t.types types''
    | .error fault t => ∃ types'', rule'.run (s.withTypes types') =
        .error fault (t.withTypes types'') ∧ known.Sides known' t.types types''

variable {α β α' β' : Type} {known known' : TypeTable} {r : α → β → Prop} {r' : α' → β' → Prop}
  {rule : Rule α} {rule' : Rule β} {s t : State}

theorem parallel_of_run_ok {value : α} {value' : β} (hrun : rule.run s = .ok value t)
    (hrun' : ∀ types', rule'.run (s.withTypes types') = .ok value' (t.withTypes types'))
    (htypes : t.types = s.types) (h : r value value') : Parallel known known' r rule rule' s := by
  intro types' hsides
  rw [hrun]
  exact ⟨value', types', hrun' types', h, htypes ▸ hsides⟩

theorem parallel_of_run_error {fault : Diagnostic} (hrun : rule.run s = .error fault s)
    (hrun' : ∀ types', rule'.run (s.withTypes types') = .error fault (s.withTypes types')) :
    Parallel known known' r rule rule' s := by
  intro types' hsides
  rw [hrun]
  exact ⟨types', hrun' types', hsides⟩

/-- Both rules may first take the same tokens. -/
theorem Parallel.of_run_eq {next : Rule α} {next' : Rule β} (hrun : rule.run s = next.run t)
    (hrun' : ∀ types', rule'.run (s.withTypes types') = next'.run (t.withTypes types'))
    (htypes : t.types = s.types) (h : Parallel known known' r next next' t) :
    Parallel known known' r rule rule' s := by
  intro types' hsides
  rw [hrun, hrun' types']
  exact h types' (htypes ▸ hsides)

theorem parallel_pure {value : α} {value' : β} (h : r value value') (s : State) :
    Parallel known known' r (pure value) (pure value') s :=
  parallel_of_run_ok rfl (fun _ => rfl) rfl h

theorem Parallel.bind {next : α → Rule α'} {next' : β → Rule β'}
    (h : Parallel known known' r rule rule' s)
    (k : ∀ value value' t, r value value' → s.Reaches t →
      Parallel known known' r' (next value) (next' value') t) :
    Parallel known known' r' (rule >>= next) (rule' >>= next') s := by
  intro types' hsides
  have hrule := h types' hsides
  rw [run_bind, run_bind]
  cases hrun : rule.run s with
  | ok value t =>
    rw [hrun] at hrule
    obtain ⟨value', types'', hrun', hvalue, hsides'⟩ := hrule
    rw [hrun']
    exact k value value' t hvalue (reaches_of_run_ok hrun) types'' hsides'
  | error fault t =>
    rw [hrun] at hrule
    obtain ⟨types'', hrun', hsides'⟩ := hrule
    rw [hrun']
    exact ⟨types'', rfl, hsides'⟩

theorem parallel_expect (kind : TokenKind) (s : State) :
    Parallel known known' (· = ·) (expect kind) (expect kind) s := by
  have hrun := run_expect kind s
  by_cases hkind : s.current.kind = kind
  · rw [if_pos hkind] at hrun
    refine parallel_of_run_ok hrun (fun types' => ?_) rfl rfl
    rw [run_expect, State.current_withTypes, if_pos hkind]
    rfl
  rw [if_neg hkind] at hrun
  by_cases hunknown : s.current.kind = .unknown
  · rw [if_pos hunknown] at hrun
    refine parallel_of_run_ok hrun (fun types' => ?_) rfl rfl
    rw [run_expect, State.current_withTypes, if_neg hkind, if_pos hunknown]
    rfl
  · rw [if_neg hunknown] at hrun
    refine parallel_of_run_error hrun fun types' => ?_
    rw [run_expect, State.current_withTypes, if_neg hkind, if_neg hunknown]

/-- A mention has the tag of its side. -/
theorem twins_reference {types' : TypeTable} (h : known.Sides known' s.types types')
    (token : Token) :
    (s.reference token).Twins known known' ((s.withTypes types').reference token) :=
  ⟨rfl, rfl, h token.lexeme⟩

theorem parallel_reference (token : Token) (s : State) :
    Parallel known known' (Identifier.Twins known known') (reference token) (reference token) s :=
  fun types' hsides => ⟨_, types', rfl, twins_reference hsides token, hsides⟩

theorem parallel_identifier (s : State) :
    Parallel known known' (Identifier.Twins known known') identifier identifier s := by
  refine (parallel_expect .identifier s).bind ?_
  rintro token _ t rfl -
  exact parallel_reference token t

/-! ### Expressions -/

theorem parallel_chainFrom {level : Level} {left left' : Expr}
    (h : ∀ sign rest op, s.rest = sign :: rest → level.operator? sign.kind = some op →
      Parallel known known' (Expr.Twins known known') (operand level) (operand level) s.advance ∧
        ∀ right t, s.advance.Reaches t → ∀ other,
          (Expr.binary op left right sign.position).Twins known known' other →
            Parallel known known' (Expr.Twins known known')
              (chainFrom level (.binary op left right sign.position)) (chainFrom level other) t)
    (hleft : left.Twins known known' left') :
    Parallel known known' (Expr.Twins known known') (chainFrom level left)
      (chainFrom level left') s := by
  have hrun := run_chainFrom level left s
  have hrun' := fun types' => run_chainFrom level left' (s.withTypes types')
  cases hop : level.operator? s.current.kind with
  | none =>
    simp only [State.current_withTypes, hop] at hrun hrun'
    exact parallel_of_run_ok hrun hrun' rfl hleft
  | some op =>
    simp only [State.current_withTypes, hop] at hrun hrun'
    cases hrest : s.rest with
    | nil =>
      rw [State.kind_current_of_nil hrest] at hop
      cases level <;> cases hop
    | cons sign rest =>
      rw [State.current_eq hrest] at hop hrun hrun'
      obtain ⟨hoperand, hmore⟩ := h sign rest op hrest hop
      refine .of_run_eq hrun hrun' rfl (hoperand.bind fun right right' t hright hreaches => ?_)
      exact hmore right t hreaches _ (hleft.binary hright op sign.position)

theorem parallel_factor
    (hparen : ∀ token rest, s.rest = token :: rest → token.kind = .leftParen →
      Parallel known known' (Expr.Twins known known') (chain .loose) (chain .loose) s.advance)
    (hnot : ∀ token rest, s.rest = token :: rest → token.kind = .not →
      Parallel known known' (Expr.Twins known known') factor factor s.advance) :
    Parallel known known' (Expr.Twins known known') factor factor s := by
  have hrun := run_factor s
  have hrun' := fun types' => run_factor (s.withTypes types')
  cases hkind : s.current.kind with
  | intLiteral =>
    simp only [State.current_withTypes, hkind] at hrun hrun'
    cases hread : Text.Decimal.read? s.current.lexeme with
    | some n =>
      simp only [hread] at hrun hrun'
      exact parallel_of_run_ok hrun hrun' rfl (Expr.twins_of_mentions_eq_nil rfl)
    | none =>
      simp only [hread] at hrun hrun'
      exact parallel_of_run_error hrun hrun'
  | stringLiteral | boolLiteral =>
    simp only [State.current_withTypes, hkind] at hrun hrun'
    exact parallel_of_run_ok hrun hrun' rfl (Expr.twins_of_mentions_eq_nil rfl)
  | identifier =>
    simp only [State.current_withTypes, hkind] at hrun hrun'
    intro types' hsides
    rw [hrun]
    exact ⟨_, types', hrun' types', (twins_reference hsides s.current).var, hsides⟩
  | leftParen =>
    simp only [State.current_withTypes, hkind] at hrun hrun'
    obtain ⟨rest, hrest, -⟩ := State.rest_eq_of_kind hkind (by decide)
    have hinner : Parallel known known' (Expr.Twins known known') expr expr s.advance :=
      hparen _ _ hrest hkind
    refine .of_run_eq hrun hrun' rfl (hinner.bind fun inner inner' t hinner _ => ?_)
    exact (parallel_expect _ t).bind fun _ _ u _ _ => parallel_pure hinner u
  | not =>
    simp only [State.current_withTypes, hkind] at hrun hrun'
    obtain ⟨rest, hrest, -⟩ := State.rest_eq_of_kind hkind (by decide)
    refine .of_run_eq hrun hrun' rfl ((hnot _ _ hrest hkind).bind fun e e' t he _ => ?_)
    exact parallel_pure (he.not _) t
  | _ =>
    simp only [State.current_withTypes, hkind] at hrun hrun'
    exact parallel_of_run_error hrun hrun'

theorem parallel_expr (s : State) :
    Parallel known known' (Expr.Twins known known') expr expr s := by
  let P := fun (rule : Rule Expr) s =>
    Parallel known known' (Expr.Twins known known') rule rule s
  refine (expr_induction (fun level s => P (chain level) s) (fun level s => P (operand level) s)
    (fun level left s => ∀ left', left.Twins known known' left' →
      Parallel known known' (Expr.Twins known known') (chainFrom level left)
        (chainFrom level left') s)
    (fun s => P factor s) ?chain ?loop ?loose ?tight ?factor).1 .loose s
  case chain =>
    intro level s hoperand hloop
    refine .of_run_eq (run_chain level s) (fun _ => run_chain level _) rfl (hoperand.bind ?_)
    exact fun left left' t hleft hreaches => hloop left t hreaches left' hleft
  case loop => exact fun level left s h left' hleft => parallel_chainFrom h hleft
  case loose =>
    exact fun s h => .of_run_eq (run_operand_loose s) (fun _ => run_operand_loose _) rfl h
  case tight =>
    exact fun s h => .of_run_eq (run_operand_tight s) (fun _ => run_operand_tight _) rfl h
  case factor => exact fun s => parallel_factor

/-! ### Statements -/

theorem parallel_typeName (s : State) : Parallel known known' (· = ·) typeName typeName s := by
  have hrun := run_typeName s
  have hrun' := fun types' => run_typeName (s.withTypes types')
  cases hkind : s.current.kind with
  | keyword keyword =>
    cases keyword with
    | int | string | bool =>
      simp only [State.current_withTypes, hkind] at hrun hrun'
      exact parallel_of_run_ok hrun hrun' rfl rfl
    | _ =>
      simp only [State.current_withTypes, hkind] at hrun hrun'
      exact parallel_of_run_error hrun hrun'
  | _ =>
    simp only [State.current_withTypes, hkind] at hrun hrun'
    exact parallel_of_run_error hrun hrun'

/-- Initial values on two sides: both have none, or both have twins. -/
def TwinValues (known known' : TypeTable) : Option Expr → Option Expr → Prop
  | none, none => True
  | some e, some e' => e.Twins known known' e'
  | _, _ => False

theorem parallel_initializer (s : State) :
    Parallel known known' (TwinValues known known') initializer initializer s := by
  have hrun := run_initializer s
  by_cases hkind : s.current.kind = .assign
  · rw [if_pos hkind] at hrun
    have hrun' : ∀ types', initializer.run (s.withTypes types') =
        (do return some (← expr)).run (s.advance.withTypes types') := by
      intro types'
      rw [run_initializer, State.current_withTypes, if_pos hkind]
      rfl
    refine .of_run_eq hrun hrun' rfl ((parallel_expr s.advance).bind fun e e' t he _ => ?_)
    have hvalues : TwinValues known known' (some e) (some e') := he
    exact parallel_pure hvalues t
  · rw [if_neg hkind] at hrun
    have hrun' : ∀ types', initializer.run (s.withTypes types') =
        .ok none (s.withTypes types') := by
      intro types'
      rw [run_initializer, State.current_withTypes, if_neg hkind]
    have hvalues : TwinValues known known' none none := trivial
    exact parallel_of_run_ok hrun hrun' rfl hvalues

theorem twins_of_twinValues (name : String) (position : Position) (ty : ValueType)
    {value value' : Option Expr} (h : TwinValues known known' value value') :
    (Statement.declaration name position ty value).Twins known known'
      (.declaration name position ty value') := by
  cases value with
  | none =>
    cases value' with
    | none => exact Statement.twins_declaration name position ty
    | some e' => exact h.elim
  | some e =>
    cases value' with
    | none => exact h.elim
    | some e' => exact Statement.twins_initialized name position ty h

/-- Statements read on two sides. -/
abbrev ParallelStatement (known known' : TypeTable) (rule : Rule Statement) (s : State) : Prop :=
  Parallel known known' (Statement.Twins known known') rule rule s

/-- A declaration makes the tables agree on its name, before its initial value is read. -/
theorem parallel_declaration (s : State) : ParallelStatement known known' declaration s := by
  refine (parallel_expect _ s).bind ?_
  rintro name _ t rfl -
  refine (parallel_expect _ t).bind fun _ _ u _ _ => ?_
  refine (parallel_typeName u).bind ?_
  rintro ty _ v rfl -
  have hdeclare :
      Parallel known known' (· = ·) (declare name.lexeme ty) (declare name.lexeme ty) v :=
    fun types' hsides => ⟨(), types'.declare name.lexeme ty, rfl, rfl, hsides.declare _ _⟩
  refine hdeclare.bind fun _ _ w _ _ => ?_
  refine (parallel_initializer w).bind fun value value' x hvalue _ => ?_
  exact parallel_pure (twins_of_twinValues _ _ _ hvalue) x

theorem parallel_assignment (target : Token) (s : State) :
    ParallelStatement known known' (assignment target) s := by
  refine (parallel_reference target s).bind fun i j t hi _ => ?_
  refine (parallel_expect _ t).bind fun _ _ u _ _ => ?_
  refine (parallel_expr u).bind fun e e' v he _ => ?_
  exact parallel_pure (Statement.twins_assignment hi he) v

theorem parallel_print (keyword : Token) (s : State) :
    ParallelStatement known known' (print keyword) s :=
  (parallel_expr s).bind fun _ _ t he _ => parallel_pure (Statement.twins_print he _) t

theorem parallel_read (s : State) : ParallelStatement known known' read s :=
  (parallel_identifier s).bind fun _ _ t hi _ => parallel_pure (Statement.twins_read hi) t

theorem parallel_assertion (keyword : Token) (s : State) :
    ParallelStatement known known' (assertion keyword) s := by
  refine (parallel_expect _ s).bind fun _ _ t _ _ => ?_
  refine (parallel_expr t).bind fun e e' u he _ => ?_
  refine (parallel_expect _ u).bind fun _ _ v _ _ => ?_
  exact parallel_pure (Statement.twins_assert he _) v

/-- Loop headers on two sides. -/
structure TwinHeaders (known known' : TypeTable) (header header' : LoopHeader) : Prop where
  counter : header.counter.Twins known known' header'.counter
  start : header.start.Twins known known' header'.start
  stop : header.stop.Twins known known' header'.stop

theorem parallel_loopHeader (s : State) :
    Parallel known known' (TwinHeaders known known') loopHeader loopHeader s := by
  refine (parallel_identifier s).bind fun i j t hi _ => ?_
  refine (parallel_expect _ t).bind fun _ _ u _ _ => ?_
  refine (parallel_expr u).bind fun x x' v hx _ => ?_
  refine (parallel_expect _ v).bind fun _ _ w _ _ => ?_
  refine (parallel_expr w).bind fun y y' p hy _ => ?_
  refine (parallel_expect _ p).bind fun _ _ q _ _ => ?_
  exact parallel_pure ⟨hi, hx, hy⟩ q

theorem parallel_loopEnd (s : State) : Parallel known known' (· = ·) loopEnd loopEnd s := by
  refine (parallel_expect _ s).bind fun _ _ t _ _ => ?_
  exact (parallel_expect _ t).bind fun _ _ u _ _ => parallel_pure rfl u

end Rule

/-! ### Loops and blocks -/

/-- On a state and on the same state with the table of the other side, a block leaves the same
tokens and reports, and its statements are twins. -/
def ParallelBlock (known known' : TypeTable) (inLoop : Bool) (s : State) : Prop :=
  ∀ types', known.Sides known' s.types types' → ∃ b' types'',
    blockRun inLoop (s.withTypes types') = (b', (blockRun inLoop s).2.withTypes types'') ∧
      Block.Twins known known' (blockRun inLoop s).1 b' ∧
      known.Sides known' (blockRun inLoop s).2.types types''

section
variable {known known' : TypeTable} {inLoop : Bool} {s t : State}

theorem parallel_loop (hbody : ∀ t, s.Reaches t → ParallelBlock known known' true t) :
    Rule.ParallelStatement known known' Rule.loop s := by
  intro types' hsides
  have hheader := Rule.parallel_loopHeader s types' hsides
  rw [Rule.run_loop, Rule.run_loop]
  cases hrun : Rule.loopHeader.run s with
  | error fault t =>
    rw [hrun] at hheader
    obtain ⟨types₁, hrun', hsides₁⟩ := hheader
    rw [hrun']
    have hreaches := (Rule.reaches_of_run_error hrun).trans t.reaches_skipHeader
    obtain ⟨b', types₂, hblock, -, hsides₂⟩ := hbody _ hreaches types₁ hsides₁
    have hblock' : blockRun true (t.withTypes types₁).skipHeader =
        (b', (blockRun true t.skipHeader).2.withTypes types₂) := hblock
    dsimp only
    rw [hblock']
    exact ⟨types₂, rfl, hsides₂⟩
  | ok header t =>
    rw [hrun] at hheader
    obtain ⟨header', types₁, hrun', htwins, hsides₁⟩ := hheader
    rw [hrun']
    obtain ⟨b', types₂, hblock, hb, hsides₂⟩ :=
      hbody t (Rule.reaches_of_run_ok hrun) types₁ hsides₁
    have hend := Rule.parallel_loopEnd (blockRun true t).2 types₂ hsides₂
    dsimp only
    rw [hblock]
    cases hloopEnd : Rule.loopEnd.run (blockRun true t).2 with
    | error fault u =>
      rw [hloopEnd] at hend
      obtain ⟨types₃, hrun₃, hsides₃⟩ := hend
      dsimp only
      rw [hrun₃]
      exact ⟨types₃, rfl, hsides₃⟩
    | ok value u =>
      rw [hloopEnd] at hend
      obtain ⟨value', types₃, hrun₃, -, hsides₃⟩ := hend
      dsimp only
      rw [hrun₃]
      exact ⟨_, types₃, rfl,
        Statement.twins_loop htwins.counter htwins.start htwins.stop hb, hsides₃⟩

theorem parallel_statement (form : StatementForm) (first : Token)
    (hbody : ∀ t, s.Reaches t → ParallelBlock known known' true t) :
    Rule.ParallelStatement known known' (Rule.statement form first) s := by
  have hrule : Rule.ParallelStatement known known' (form.rule first) s := by
    cases form with
    | declaration => exact Rule.parallel_declaration s
    | assignment => exact Rule.parallel_assignment first s
    | loop => exact parallel_loop hbody
    | print => exact Rule.parallel_print first s
    | read => exact Rule.parallel_read s
    | assertion => exact Rule.parallel_assertion first s
  refine .of_run_eq (Rule.run_statement form first s) (fun _ => Rule.run_statement form first _) rfl
    (hrule.bind fun v v' t hv _ => ?_)
  exact (Rule.parallel_expect _ t).bind fun _ _ u _ _ => Rule.parallel_pure hv u

/-- What a block reads from a later state, it reads from there on both sides. -/
theorem ParallelBlock.of_eq (h : ParallelBlock known known' inLoop t)
    (hrun : blockRun inLoop s = blockRun inLoop t)
    (hrun' : ∀ types', blockRun inLoop (s.withTypes types') = blockRun inLoop (t.withTypes types'))
    (htypes : t.types = s.types) : ParallelBlock known known' inLoop s := by
  intro types' hsides
  rw [hrun, hrun']
  exact h types' (htypes ▸ hsides)

theorem parallelBlock_of_stop (hrun : blockRun inLoop s = ([], t))
    (hrun' : ∀ types', blockRun inLoop (s.withTypes types') = ([], t.withTypes types'))
    (htypes : t.types = s.types) : ParallelBlock known known' inLoop s := by
  intro types' hsides
  rw [hrun, hrun']
  exact ⟨[], types', rfl, Block.twins_nil, htypes ▸ hsides⟩

end

/-- Blocks are read on both sides in the same way. -/
theorem parallelBlock (known known' : TypeTable) (inLoop : Bool) (s : State) :
    ParallelBlock known known' inLoop s := by
  cases hrest : s.rest with
  | nil => exact parallelBlock_of_stop (blockRun_of_nil hrest) (fun _ => blockRun_of_nil hrest) rfl
  | cons token rest =>
    have hlength : ∀ t : State, t.rest <:+ rest → t.rest.length < s.rest.length := by
      intro t ht
      rw [hrest, List.length_cons]
      exact Nat.lt_succ_of_le ht.length_le
    have hrun := @blockRun_of_cons inLoop s token rest hrest
    have hrun' := fun types' => @blockRun_of_cons inLoop (s.withTypes types') token rest hrest
    by_cases hend : inLoop = true ∧ token.kind = .keyword .end
    · simp only [if_pos hend] at hrun hrun'
      exact parallelBlock_of_stop hrun hrun' rfl
    by_cases hunknown : token.kind = .unknown
    · simp only [if_neg hend, if_pos hunknown] at hrun hrun'
      have := hlength ((s.report (.unclassified token)).skipTo rest) (List.suffix_refl _)
      exact (parallelBlock known known' inLoop _).of_eq hrun hrun' rfl
    simp only [if_neg hend, if_neg hunknown] at hrun hrun'
    cases hform : StatementForm.ofKind? token.kind with
    | some form =>
      simp only [hform] at hrun hrun'
      have hstatement : Rule.ParallelStatement known known' (Rule.statement form token)
          (s.skipTo rest) := parallel_statement form token fun t ht =>
        have := hlength t ht.rest
        parallelBlock known known' true t
      intro types' hsides
      have hrule := hstatement types' hsides
      have hskip : (s.withTypes types').skipTo rest = (s.skipTo rest).withTypes types' := rfl
      rw [hrun, hrun', hskip]
      cases hread : (Rule.statement form token).run (s.skipTo rest) with
      | ok v t =>
        rw [hread] at hrule
        obtain ⟨v', types₁, hread', hv, hsides₁⟩ := hrule
        have := hlength t (Rule.reaches_of_run_ok hread).rest
        obtain ⟨b', types₂, hblock, hb, hsides₂⟩ :=
          parallelBlock known known' inLoop t types₁ hsides₁
        rw [hread']
        dsimp only
        rw [hblock]
        exact ⟨v' :: b', types₂, rfl, .cons hv hb, hsides₂⟩
      | error fault t =>
        rw [hread] at hrule
        obtain ⟨types₁, hread', hsides₁⟩ := hrule
        have := hlength (t.report fault).synchronize
          ((behindSemicolon_suffix _).trans (Rule.reaches_of_run_error hread).rest)
        rw [hread']
        exact parallelBlock known known' inLoop (t.report fault).synchronize types₁ hsides₁
    | none =>
      simp only [hform] at hrun hrun'
      have hne : s.rest ≠ [] := by
        rw [hrest]
        exact List.cons_ne_nil _ _
      have : (s.report (.unexpected .statement token)).synchronize.rest.length < s.rest.length :=
        length_behindSemicolon_lt hne
      cases hkind : token.kind with
      | keyword keyword =>
        simp only [hkind] at hrun hrun'
        exact parallelBlock_of_stop hrun hrun' rfl
      | _ =>
        simp only [hkind] at hrun hrun'
        exact (parallelBlock known known' inLoop _).of_eq hrun hrun' rfl
termination_by s.rest.length

end Parser

/-- Known types influence nothing but tags.  Two parses of a stream of tokens with different known
types report the same, and their trees are the same but for the tags of the mentions, one by one;
where the tags of two mentions differ, each is the type that its own table has for the name. -/
theorem known_types_only_tag {σ : Type} [TokenStream σ] (stream : σ) (known known' : TypeTable) :
    (parse stream known).diagnostics = (parse stream known').diagnostics ∧
      Block.untagged (parse stream known).program.statements =
        Block.untagged (parse stream known').program.statements ∧
      List.Forall₂ (fun i j => i.name = j.name ∧ i.position = j.position ∧
          (i.ty ≠ j.ty → i.ty = known i.name ∧ j.ty = known' j.name))
        (Block.mentions (parse stream known).program.statements)
        (Block.mentions (parse stream known').program.statements) := by
  let s := Parser.State.initial known (TokenStream.drain stream)
  obtain ⟨b', types', hrun, hb, -⟩ :=
    Parser.parallelBlock known known' false s known' (known.sides_refl known')
  have hblock : (parse stream known').program.statements = b' := congrArg Prod.fst hrun
  have hafter : (parse stream known').diagnostics = (parse stream known).diagnostics :=
    congrArg (fun run => run.2.diagnostics) hrun
  rw [hblock]
  exact ⟨hafter.symm, hb.untagged, hb.mentions.imp fun i j h => ⟨h.name, h.position, h.ty⟩⟩

end MiniPL
