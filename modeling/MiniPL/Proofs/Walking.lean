import MiniPL.Proofs.Statements
import MiniPL.Proofs.Steps

/-!
# What the rules of the grammar can do

Expressions, loop headers and all statements other than loops are read in small steps: a token is
taken, a token that could not be classified is reported and taken for another, or a declared type is
recorded (`State.Walks`).  Where such a rule gives up, its fault points at the token in front of
which it stops (`Rule.Walks`).

A block is read in rounds, each of which reads a statement, leaves one out with a report, or ends
the block (`BlockWalk`).  What holds of each step holds of all rules, by induction on these two
relations.

Main statements: `Rule.walks_expr`, `Rule.walks_loopHeader`, `Rule.walks_statement` and
`blockWalk_blockRun`.
-/

namespace MiniPL.Parser

/-- Whether one state is reached from another by the steps of a rule without a body. -/
inductive State.Walks : State → State → Prop
  | refl (s : State) : Walks s s
  /-- The current token is taken. -/
  | take {s t : State} (hrest : s.rest ≠ []) (h : Walks s.advance t) : Walks s t
  /-- The current token is reported, and taken for one of the kind that is asked for. -/
  | standIn {s t : State} (hkind : s.current.kind = .unknown)
    (h : Walks (s.report (.unclassified s.current)).advance t) : Walks s t
  /-- The declared type of a name is recorded. -/
  | declare {s t : State} (name : String) (ty : ValueType) (h : Walks (s.declare name ty) t) :
    Walks s t

theorem State.Walks.trans {s t u : State} (h : s.Walks t) (k : t.Walks u) : s.Walks u := by
  induction h with
  | refl => exact k
  | take hrest _ ih => exact .take hrest (ih k)
  | standIn hkind _ ih => exact .standIn hkind (ih k)
  | declare name ty _ ih => exact .declare name ty (ih k)

theorem State.rest_ne_nil_of_kind {s : State} {kind : TokenKind} (h : s.current.kind = kind)
    (hkind : kind ≠ .eof) : s.rest ≠ [] := by
  intro hnil
  exact hkind (h.symm.trans (kind_current_of_nil hnil))

theorem State.walks_advance {s : State} {kind : TokenKind} (h : s.current.kind = kind)
    (hkind : kind ≠ .eof) : s.Walks s.advance :=
  .take (rest_ne_nil_of_kind h hkind) (.refl _)

namespace Rule

variable {α β : Type} {s : State}

/-- A rule that walks, and points its fault at the token in front of which it stops. -/
structure Walks (rule : Rule α) (s : State) : Prop where
  ok : ∀ value t, rule.run s = .ok value t → s.Walks t
  error : ∀ fault t, rule.run s = .error fault t →
    s.Walks t ∧ fault.position = t.current.position

theorem walks_of_run_ok {rule : Rule α} {value : α} {t : State} (hrun : rule.run s = .ok value t)
    (h : s.Walks t) : rule.Walks s where
  ok value' t' hrun' := by
    rw [hrun] at hrun'
    cases hrun'
    exact h
  error fault t' hrun' := by
    rw [hrun] at hrun'
    cases hrun'

theorem walks_of_run_error {rule : Rule α} {fault : Diagnostic}
    (hrun : rule.run s = .error fault s) (hfault : fault.position = s.current.position) :
    rule.Walks s where
  ok value t' hrun' := by
    rw [hrun] at hrun'
    cases hrun'
  error fault' t' hrun' := by
    rw [hrun] at hrun'
    cases hrun'
    exact ⟨.refl s, hfault⟩

/-- A rule may first walk to another state, and do there what another rule does. -/
theorem Walks.of_run_eq {rule rule' : Rule α} {t : State} (hrun : rule.run s = rule'.run t)
    (h : s.Walks t) (k : rule'.Walks t) : rule.Walks s where
  ok value u hrun' := h.trans (k.ok value u (hrun.symm.trans hrun'))
  error fault u hrun' :=
    have hu := k.error fault u (hrun.symm.trans hrun')
    ⟨h.trans hu.1, hu.2⟩

theorem walks_pure (value : α) (s : State) : (pure value : Rule α).Walks s :=
  walks_of_run_ok (run_pure value s) (.refl s)

theorem Walks.bind {rule : Rule α} {next : α → Rule β} (h : rule.Walks s)
    (k : ∀ value t, s.Reaches t → (next value).Walks t) : (rule >>= next).Walks s := by
  cases hrun : rule.run s with
  | ok value t =>
    have hbind : (rule >>= next).run s = (next value).run t := by rw [run_bind, hrun]
    exact .of_run_eq hbind (h.ok value t hrun) (k value t (reaches_of_run_ok hrun))
  | error fault t =>
    have hbind : (rule >>= next).run s = .error fault t := by rw [run_bind, hrun]
    constructor
    · intro value u hrun'
      rw [hbind] at hrun'
      cases hrun'
    · intro fault' u hrun'
      rw [hbind] at hrun'
      cases hrun'
      exact h.error fault t hrun

theorem walks_expect {kind : TokenKind} (hkind : kind ≠ .eof) (s : State) :
    (expect kind).Walks s := by
  have hrun := run_expect kind s
  split at hrun
  · rename_i h
    exact walks_of_run_ok hrun (State.walks_advance h hkind)
  split at hrun
  · rename_i h
    exact walks_of_run_ok hrun (.standIn h (.refl _))
  · exact walks_of_run_error hrun rfl

theorem walks_reference (token : Token) (s : State) : (reference token).Walks s :=
  walks_of_run_ok (run_reference token s) (.refl s)

theorem walks_identifier (s : State) : Rule.identifier.Walks s :=
  (walks_expect (by decide) s).bind fun token t _ => walks_reference token t

/-! ### Expressions -/

theorem walks_chainFrom {level : Level} {left : Expr}
    (h : ∀ sign rest op, s.rest = sign :: rest → level.operator? sign.kind = some op →
      (operand level).Walks s.advance ∧ ∀ right t, s.advance.Reaches t →
        (chainFrom level (.binary op left right sign.position)).Walks t) :
    (chainFrom level left).Walks s := by
  have hrun := run_chainFrom level left s
  split at hrun
  · exact walks_of_run_ok hrun (.refl s)
  · rename_i op hop
    have hkind : s.current.kind ≠ .eof := by
      intro heof
      rw [heof] at hop
      cases level <;> cases hop
    obtain ⟨rest, hrest, -⟩ := State.rest_eq_of_kind rfl hkind
    obtain ⟨hoperand, hmore⟩ := h _ _ op hrest hop
    exact .of_run_eq hrun (State.walks_advance rfl hkind) (hoperand.bind hmore)

theorem walks_factor
    (hparen : ∀ token rest, s.rest = token :: rest → token.kind = .leftParen →
      (chain .loose).Walks s.advance)
    (hnot : ∀ token rest, s.rest = token :: rest → token.kind = .not → factor.Walks s.advance) :
    factor.Walks s := by
  have hrun := run_factor s
  split at hrun
  · rename_i hkind
    split at hrun
    · exact walks_of_run_ok hrun (State.walks_advance hkind (by decide))
    · exact walks_of_run_error hrun rfl
  · rename_i hkind
    exact walks_of_run_ok hrun (State.walks_advance hkind (by decide))
  · rename_i hkind
    exact walks_of_run_ok hrun (State.walks_advance hkind (by decide))
  · rename_i hkind
    exact walks_of_run_ok hrun (State.walks_advance hkind (by decide))
  · rename_i hkind
    obtain ⟨rest, hrest, -⟩ := State.rest_eq_of_kind hkind (by decide)
    refine .of_run_eq hrun (State.walks_advance hkind (by decide)) ?_
    have hinner : expr.Walks s.advance := hparen _ _ hrest hkind
    refine hinner.bind fun inner t _ => ?_
    exact (walks_expect (by decide) t).bind fun _ u _ => walks_pure inner u
  · rename_i hkind
    obtain ⟨rest, hrest, -⟩ := State.rest_eq_of_kind hkind (by decide)
    refine .of_run_eq hrun (State.walks_advance hkind (by decide)) ?_
    exact (hnot _ _ hrest hkind).bind fun operand t _ => walks_pure _ t
  · exact walks_of_run_error hrun rfl

theorem walks_expr (s : State) : expr.Walks s := by
  refine (expr_induction (fun level s => (chain level).Walks s)
    (fun level s => (operand level).Walks s) (fun level left s => (chainFrom level left).Walks s)
    (fun s => factor.Walks s) ?chain ?loop ?loose ?tight ?factor).1 .loose s
  case chain =>
    intro level s hoperand hloop
    exact .of_run_eq (run_chain level s) (.refl s) (hoperand.bind hloop)
  case loop => exact fun level left s => walks_chainFrom
  case loose => exact fun s h => .of_run_eq (run_operand_loose s) (.refl s) h
  case tight => exact fun s h => .of_run_eq (run_operand_tight s) (.refl s) h
  case factor => exact fun s => walks_factor

/-! ### Statements without a body -/

theorem walks_typeName (s : State) : typeName.Walks s := by
  have hrun := run_typeName s
  split at hrun
  · rename_i hkind
    exact walks_of_run_ok hrun (State.walks_advance hkind (by decide))
  · rename_i hkind
    exact walks_of_run_ok hrun (State.walks_advance hkind (by decide))
  · rename_i hkind
    exact walks_of_run_ok hrun (State.walks_advance hkind (by decide))
  · exact walks_of_run_error hrun rfl

theorem walks_initializer (s : State) : initializer.Walks s := by
  have hrun := run_initializer s
  split at hrun
  · rename_i hkind
    refine .of_run_eq hrun (State.walks_advance hkind (by decide)) ?_
    exact (walks_expr _).bind fun e t _ => walks_pure (some e) t
  · exact walks_of_run_ok hrun (.refl s)

theorem walks_declaration (s : State) : declaration.Walks s := by
  refine (walks_expect (by decide) s).bind fun name t _ => ?_
  refine (walks_expect (by decide) t).bind fun _ u _ => ?_
  refine (walks_typeName u).bind fun ty v _ => ?_
  have hdeclare : (declare name.lexeme ty).Walks v :=
    walks_of_run_ok (run_declare name.lexeme ty v) (.declare name.lexeme ty (.refl _))
  refine hdeclare.bind fun _ w _ => ?_
  exact (walks_initializer w).bind fun value x _ => walks_pure _ x

theorem walks_assignment (target : Token) (s : State) : (assignment target).Walks s := by
  refine (walks_reference target s).bind fun identifier t _ => ?_
  refine (walks_expect (by decide) t).bind fun _ u _ => ?_
  exact (walks_expr u).bind fun e v _ => walks_pure _ v

theorem walks_print (keyword : Token) (s : State) : (print keyword).Walks s :=
  (walks_expr s).bind fun _ t _ => walks_pure _ t

theorem walks_read (s : State) : read.Walks s :=
  (walks_identifier s).bind fun _ t _ => walks_pure _ t

theorem walks_assertion (keyword : Token) (s : State) : (assertion keyword).Walks s := by
  refine (walks_expect (by decide) s).bind fun _ t _ => ?_
  refine (walks_expr t).bind fun condition u _ => ?_
  exact (walks_expect (by decide) u).bind fun _ v _ => walks_pure _ v

/-! ### The brackets of a loop -/

theorem walks_loopHeader (s : State) : loopHeader.Walks s := by
  refine (walks_identifier s).bind fun counter t _ => ?_
  refine (walks_expect (by decide) t).bind fun _ u _ => ?_
  refine (walks_expr u).bind fun start v _ => ?_
  refine (walks_expect (by decide) v).bind fun _ w _ => ?_
  refine (walks_expr w).bind fun stop x _ => ?_
  exact (walks_expect (by decide) x).bind fun _ y _ => walks_pure _ y

theorem walks_loopEnd (s : State) : loopEnd.Walks s := by
  refine (walks_expect (by decide) s).bind fun _ t _ => ?_
  exact (walks_expect (by decide) t).bind fun _ u _ => walks_pure () u

end Rule

/-- A statement other than a loop walks, through its `;`. -/
theorem Rule.walks_statement {form : StatementForm} (hform : form ≠ .loop) (first : Token)
    (s : State) : (statement form first).Walks s := by
  have hrule : (form.rule first).Walks s := by
    cases form with
    | declaration => exact walks_declaration s
    | assignment => exact walks_assignment first s
    | loop => exact absurd rfl hform
    | print => exact walks_print first s
    | read => exact walks_read s
    | assertion => exact walks_assertion first s
  refine .of_run_eq (run_statement form first s) (.refl s) (hrule.bind fun v t _ => ?_)
  exact (walks_expect (by decide) t).bind fun _ u _ => walks_pure v u

/-! ### What a rule gives -/

namespace Rule

variable {α β : Type}

/-- All values of a rule are good. -/
def Gives (good : α → Prop) (rule : Rule α) : Prop :=
  ∀ s value t, rule.run s = .ok value t → good value

theorem gives_pure {good : α → Prop} {value : α} (h : good value) :
    (pure value : Rule α).Gives good := by
  rintro s value' t ⟨⟩
  exact h

theorem Gives.bind {good : β → Prop} {rule : Rule α} {next : α → Rule β}
    (h : ∀ value, (next value).Gives good) : (rule >>= next).Gives good := by
  intro s value t hrun
  rw [run_bind] at hrun
  cases hrule : rule.run s with
  | ok a u =>
    rw [hrule] at hrun
    exact h a u value t hrun
  | error fault u =>
    rw [hrule] at hrun
    cases hrun

/-- Only the form of loops gives loops. -/
theorem gives_statement {form : StatementForm} (hform : form ≠ .loop) (first : Token) :
    (statement form first).Gives fun v => v.isLoop = false := by
  have hrule : (form.rule first).Gives fun v => v.isLoop = false := by
    cases form with
    | declaration =>
      exact .bind fun _ => .bind fun _ => .bind fun _ => .bind fun _ => .bind fun _ =>
        gives_pure rfl
    | assignment => exact .bind fun _ => .bind fun _ => .bind fun _ => gives_pure rfl
    | loop => exact absurd rfl hform
    | print => exact .bind fun _ => gives_pure rfl
    | read => exact .bind fun _ => gives_pure rfl
    | assertion => exact .bind fun _ => .bind fun _ => .bind fun _ => gives_pure rfl
  intro s v t hrun
  rw [run_statement, run_bind] at hrun
  cases hform : (form.rule first).run s with
  | ok value u =>
    rw [hform] at hrun
    have hgood : (do
        let _ ← expect .semicolon
        return value : Rule Statement).Gives fun v => v.isLoop = false :=
      .bind fun _ => gives_pure (hrule s value u hform)
    exact hgood u v t hrun
  | error fault u =>
    rw [hform] at hrun
    cases hrun

/-! ### Loops -/

/-- What stands behind the body of a loop. -/
def loopClose : Rule Unit := do
  loopEnd
  let _ ← expect .semicolon

theorem walks_loopClose (s : State) : loopClose.Walks s :=
  (walks_loopEnd s).bind fun _ t _ => (walks_expect (by decide) t).bind fun _ u _ => walks_pure () u

/-- A loop is closed in front of `end`, or of a token that stands in for it. -/
theorem kind_of_run_loopClose {s t : State} {value : Unit} (h : loopClose.run s = .ok value t) :
    s.current.kind = .keyword .end ∨ s.current.kind = .unknown := by
  by_cases hend : s.current.kind = .keyword .end
  · exact .inl hend
  by_cases hunknown : s.current.kind = .unknown
  · exact .inr hunknown
  have hexpect : (expect (.keyword .end)).run s =
      .error (.unexpected (.token (.keyword .end)) s.current) s := by
    rw [run_expect, if_neg hend, if_neg hunknown]
  unfold loopClose loopEnd at h
  rw [run_bind, run_bind, hexpect] at h
  cases h

/-- A loop through its `;`: a faulty header is the fault, whatever stands behind the body. -/
theorem run_statement_loop (first : Token) (s : State) :
    (statement .loop first).run s =
      match loopHeader.run s with
      | .ok header t =>
        match loopClose.run (blockRun true t).2 with
        | .ok _ u => .ok (.loop header.counter header.start header.stop (blockRun true t).1) u
        | .error fault u => .error fault u
      | .error fault t => .error fault (blockRun true t.skipHeader).2 := by
  have hloop : StatementForm.loop.rule first = loop := rfl
  rw [run_statement, hloop, run_bind, run_loop]
  cases loopHeader.run s with
  | error fault t => rfl
  | ok header t =>
    unfold loopClose
    dsimp only
    rw [run_bind]
    cases loopEnd.run (blockRun true t).2 with
    | error fault u => rfl
    | ok value u =>
      dsimp only
      rw [run_bind, run_bind]
      cases (expect .semicolon).run u <;> rfl

end Rule

/-! ### Blocks -/

/-- How a block, in the body of a loop or not, leads from one state through its statements to
another. -/
inductive BlockWalk : Bool → State → Block → State → Prop
  /-- The input ends. -/
  | ends {inLoop : Bool} {s : State} (hrest : s.rest = []) : BlockWalk inLoop s [] s
  /-- The body of a loop ends. -/
  | stops {s : State} (hkind : s.current.kind = .keyword .end) : BlockWalk true s [] s
  /-- A keyword that starts no statement ends the block. -/
  | unrecognized {inLoop : Bool} {s : State} {keyword : Keyword}
    (hkind : s.current.kind = .keyword keyword) (hend : inLoop = true → keyword ≠ .end) :
    BlockWalk inLoop s [] (s.report (.unrecognizedStatement s.current))
  /-- A token that could not be classified is left out. -/
  | unclassified {inLoop : Bool} {s t : State} {b : Block} (hkind : s.current.kind = .unknown)
    (h : BlockWalk inLoop (s.report (.unclassified s.current)).advance b t) : BlockWalk inLoop s b t
  /-- A token that starts no statement is left out, through the next `;`. -/
  | stray {inLoop : Bool} {s t : State} {b : Block} (hrest : s.rest ≠ [])
    (h : BlockWalk inLoop (s.report (.unexpected .statement s.current)).synchronize b t) :
    BlockWalk inLoop s b t
  /-- A statement without a body is read. -/
  | simple {inLoop : Bool} {s t u : State} {v : Statement} {b : Block} (hrest : s.rest ≠ [])
    (hloop : v.isLoop = false) (hwalks : s.advance.Walks u) (h : BlockWalk inLoop u b t) :
    BlockWalk inLoop s (v :: b) t
  /-- A faulty statement without a body is left out. -/
  | faulty {inLoop : Bool} {s t u : State} {fault : Diagnostic} {b : Block} (hrest : s.rest ≠ [])
    (hwalks : s.advance.Walks u) (hfault : fault.position = u.current.position)
    (h : BlockWalk inLoop (u.report fault).synchronize b t) : BlockWalk inLoop s b t
  /-- A loop is read. -/
  | loop {inLoop : Bool} {s t u v w : State} {counter : Identifier} {start stop : Expr}
    {body b : Block} (hrest : s.rest ≠ []) (hheader : s.advance.Walks u)
    (hbody : BlockWalk true u body v)
    (hend : v.current.kind = .keyword .end ∨ v.current.kind = .unknown) (hclose : v.Walks w)
    (h : BlockWalk inLoop w b t) : BlockWalk inLoop s (.loop counter start stop body :: b) t
  /-- A loop that is not closed is left out. -/
  | unclosed {inLoop : Bool} {s t u v w : State} {fault : Diagnostic} {body b : Block}
    (hrest : s.rest ≠ []) (hheader : s.advance.Walks u) (hbody : BlockWalk true u body v)
    (hclose : v.Walks w) (hfault : fault.position = w.current.position)
    (h : BlockWalk inLoop (w.report fault).synchronize b t) : BlockWalk inLoop s b t
  /-- A loop with a faulty header is left out; its fault is reported behind its body. -/
  | faultyHeader {inLoop : Bool} {s t u v : State} {fault : Diagnostic} {body b : Block}
    (hkind : s.current.kind = .keyword .for)
    (hheader : Rule.loopHeader.run s.advance = .error fault u)
    (hbody : BlockWalk true u.skipHeader body v)
    (h : BlockWalk inLoop (v.report fault).synchronize b t) : BlockWalk inLoop s b t

section
variable {inLoop : Bool} {s : State} {token : Token} {rest : List Token}

theorem State.resume_suffix {t : State} (h : s.Reaches t) (fault : Diagnostic) :
    (t.report fault).synchronize.rest <:+ s.rest :=
  (behindSemicolon_suffix _).trans h.rest

/-- A statement without a body in front of a block, if the rest of the block is as told. -/
theorem blockWalk_of_simple {form : StatementForm} (hrest : s.rest = token :: rest)
    (hform : token.kind = form.kind) (hloop : form ≠ .loop)
    (hnext : ∀ t : State, t.rest <:+ s.advance.rest →
      BlockWalk inLoop t (blockRun inLoop t).1 (blockRun inLoop t).2) :
    BlockWalk inLoop s (blockRun inLoop s).1 (blockRun inLoop s).2 := by
  have hne : s.rest ≠ [] := hrest ▸ List.cons_ne_nil token rest
  rw [blockRun_of_form hrest hform, ← State.advance_eq hrest]
  cases hrun : (Rule.statement form token).run s.advance with
  | error fault u =>
    have hreaches : s.advance.Reaches u := Rule.reaches_of_run_error hrun
    obtain ⟨hwalks, hfault⟩ := (Rule.walks_statement hloop token _).error _ _ hrun
    exact .faulty hne hwalks hfault (hnext _ (State.resume_suffix hreaches fault))
  | ok v u =>
    have hreaches : s.advance.Reaches u := Rule.reaches_of_run_ok hrun
    have hv : v.isLoop = false := Rule.gives_statement hloop token _ v u hrun
    have hwalks : s.advance.Walks u := (Rule.walks_statement hloop token _).ok _ _ hrun
    exact .simple hne hv hwalks (hnext u hreaches.rest)

/-- A loop in front of a block, if its body and the rest of the block are as told. -/
theorem blockWalk_of_loop (hrest : s.rest = token :: rest) (hkind : token.kind = .keyword .for)
    (hnext : ∀ t : State, t.rest <:+ s.advance.rest →
      ∀ inLoop, BlockWalk inLoop t (blockRun inLoop t).1 (blockRun inLoop t).2) :
    BlockWalk inLoop s (blockRun inLoop s).1 (blockRun inLoop s).2 := by
  have hne : s.rest ≠ [] := hrest ▸ List.cons_ne_nil token rest
  have hform : token.kind = StatementForm.loop.kind := hkind
  rw [blockRun_of_form hrest hform, ← State.advance_eq hrest, Rule.run_statement_loop]
  cases hheader : Rule.loopHeader.run s.advance with
  | error fault u =>
    have hskip : s.advance.Reaches u.skipHeader :=
      (Rule.reaches_of_run_error hheader).trans u.reaches_skipHeader
    have hend : s.advance.Reaches (blockRun true u.skipHeader).2 :=
      hskip.trans (reaches_blockRun true _)
    have hcurrent : s.current.kind = .keyword .for := State.current_eq hrest ▸ hkind
    exact .faultyHeader hcurrent hheader (hnext _ hskip.rest true)
      (hnext _ (State.resume_suffix hend fault) inLoop)
  | ok header u =>
    have hreaches : s.advance.Reaches u := Rule.reaches_of_run_ok hheader
    have hend : s.advance.Reaches (blockRun true u).2 := hreaches.trans (reaches_blockRun true _)
    have hwalks : s.advance.Walks u := (Rule.walks_loopHeader _).ok _ _ hheader
    have hbody : BlockWalk true u (blockRun true u).1 (blockRun true u).2 :=
      hnext u hreaches.rest true
    dsimp only
    cases hclose : Rule.loopClose.run (blockRun true u).2 with
    | error fault w =>
      obtain ⟨hafter, hfault⟩ := (Rule.walks_loopClose _).error _ _ hclose
      have hw : s.advance.Reaches w := hend.trans (Rule.reaches_of_run_error hclose)
      exact .unclosed hne hwalks hbody hafter hfault
        (hnext _ (State.resume_suffix hw fault) inLoop)
    | ok value w =>
      have hafter : (blockRun true u).2.Walks w := (Rule.walks_loopClose _).ok _ _ hclose
      have hw : s.advance.Reaches w := hend.trans (Rule.reaches_of_run_ok hclose)
      exact .loop hne hwalks hbody (Rule.kind_of_run_loopClose hclose) hafter
        (hnext w hw.rest inLoop)

end

/-- Every block is read in this way. -/
theorem blockWalk_blockRun (inLoop : Bool) (s : State) :
    BlockWalk inLoop s (blockRun inLoop s).1 (blockRun inLoop s).2 := by
  cases hrest : s.rest with
  | nil =>
    rw [blockRun_of_nil hrest]
    exact .ends hrest
  | cons token rest =>
    have hcurrent : s.current = token := State.current_eq hrest
    have hne : s.rest ≠ [] := hrest ▸ List.cons_ne_nil token rest
    have hlength : ∀ t : State, t.rest <:+ s.advance.rest → t.rest.length < s.rest.length :=
      fun t ht => Nat.lt_of_le_of_lt ht.length_le (State.length_advance_lt hrest)
    -- a body and the rest of the block start behind the first token
    have hnext : ∀ t : State, t.rest <:+ s.advance.rest →
        ∀ inLoop, BlockWalk inLoop t (blockRun inLoop t).1 (blockRun inLoop t).2 := by
      intro t ht inLoop
      have := hlength t ht
      exact blockWalk_blockRun inLoop t
    cases hform : StatementForm.ofKind? token.kind with
    | some form =>
      have hkind : token.kind = form.kind := StatementForm.kind_of_ofKind? hform
      by_cases hloop : form = .loop
      · subst hloop
        exact blockWalk_of_loop hrest hkind hnext
      · exact blockWalk_of_simple hrest hkind hloop fun t ht => hnext t ht inLoop
    | none =>
      rw [blockRun_of_cons hrest, hform]
      split
      · rename_i hend
        obtain ⟨rfl, hkind⟩ := hend
        exact .stops (by rw [hcurrent, hkind])
      rename_i hend
      split
      · rename_i hkind
        refine .unclassified (by rw [hcurrent, hkind]) ?_
        rw [hcurrent, ← State.advance_eq (s := s.report _) hrest]
        exact hnext (s.report (.unclassified token)).advance (List.suffix_refl _) inLoop
      · dsimp only
        split
        · rename_i keyword hkind
          have hwalk : BlockWalk inLoop s [] (s.report (.unrecognizedStatement s.current)) :=
            .unrecognized (hcurrent ▸ hkind) fun hloop hk => hend ⟨hloop, by rw [hkind, hk]⟩
          rw [hcurrent] at hwalk
          exact hwalk
        · have : (s.report (.unexpected .statement token)).synchronize.rest.length <
              s.rest.length := length_behindSemicolon_lt hne
          refine .stray hne ?_
          rw [hcurrent]
          exact blockWalk_blockRun inLoop _
termination_by s.rest.length

end MiniPL.Parser
