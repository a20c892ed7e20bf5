import MiniPL.Proofs.Statements

/-!
# What the grammar builds

A rule of the grammar takes tokens, reports faults, and puts a tree together.  What is said of all
states, faults and trees of a parse is therefore settled by what these single steps keep
(`GrammarInvariant`): that is enough for every rule, and with it for blocks of statements however
often the reader resumes after a fault.

Main statement: `GrammarInvariant.block`.
-/

namespace MiniPL.Parser

/-- What is to hold of the states of a parse, of the tokens that are taken, of the faults, and of
what is built from them.  Each step of the grammar keeps it. -/
structure GrammarInvariant where
  state : State → Prop
  taken : Token → Prop
  fault : Diagnostic → Prop
  type : ValueType → Prop
  identifier : Identifier → Prop
  expr : Expr → Prop
  statement : Statement → Prop
  -- tokens and states
  taken_current {s : State} (hs : state s) : taken s.current
  taken_standIn {token : Token} (h : taken token) (kind : TokenKind) :
    taken ⟨kind, token.lexeme, token.position⟩
  fault_of_taken {token : Token} {reported : Diagnostic} (h : taken token)
    (hposition : reported.position = token.position) : fault reported
  state_skipTo {s : State} {rest : List Token} (hs : state s) (hrest : rest <:+ s.rest) :
    state (s.skipTo rest)
  state_report {s : State} {reported : Diagnostic} (hs : state s) (h : fault reported) :
    state (s.report reported)
  state_declare {s : State} {ty : ValueType} (hs : state s) (name : String) (h : type ty) :
    state (s.declare name ty)
  -- types, mentions and expressions
  type_int : type .int
  type_bool : type .bool
  type_string {s : State} (hs : state s) (hkind : s.current.kind = .keyword .string) :
    type .string
  identifier_reference {s : State} {token : Token} (hs : state s) (h : taken token) :
    identifier (s.reference token)
  expr_int (n : Int32) : expr (.int n)
  expr_bool (b : Bool) : expr (.bool b)
  expr_string {s : State} (hs : state s) (hkind : s.current.kind = .stringLiteral) :
    expr (.string s.current.lexeme)
  expr_var {target : Identifier} (h : identifier target) : expr (.var target)
  expr_not {token : Token} {operand : Expr} (h : taken token) (hoperand : expr operand) :
    expr (.not operand token.position)
  expr_binary {token : Token} {left right : Expr} (op : BinaryOp) (h : taken token)
    (hleft : expr left) (hright : expr right) : expr (.binary op left right token.position)
  -- statements
  declaration {name : Token} {ty : ValueType} {initializer : Option Expr} (hname : taken name)
    (hty : type ty) (hinitializer : ∀ e, initializer = some e → expr e) :
    statement (.declaration name.lexeme name.position ty initializer)
  assignment {target : Identifier} {value : Expr} (htarget : identifier target)
    (hvalue : expr value) : statement (.assignment target value)
  loop {counter : Identifier} {start stop : Expr} {body : Block} (hcounter : identifier counter)
    (hstart : expr start) (hstop : expr stop) (hbody : ∀ v ∈ body, statement v) :
    statement (.loop counter start stop body)
  print {keyword : Token} {value : Expr} (h : taken keyword) (hvalue : expr value) :
    statement (.print value keyword.position)
  read {s : State} {target : Identifier} (hs : state s) (hkind : s.current.kind = .keyword .read)
    (htarget : identifier target) : statement (.read target)
  assertion {keyword : Token} {condition : Expr} (h : taken keyword)
    (hcondition : expr condition) : statement (.assert condition keyword.position)

namespace GrammarInvariant

variable {α β : Type} {I : GrammarInvariant} {s t : State}

theorem state_advance (I : GrammarInvariant) {s : State} (hs : I.state s) : I.state s.advance :=
  I.state_skipTo hs (List.tail_suffix _)

theorem fault_current (hs : I.state s) {reported : Diagnostic}
    (h : reported.position = s.current.position) : I.fault reported :=
  I.fault_of_taken (I.taken_current hs) h

theorem state_report_current (hs : I.state s) {reported : Diagnostic}
    (h : reported.position = s.current.position) : I.state (s.report reported) :=
  I.state_report hs (I.fault_current hs h)

/-! ### Rules -/

/-- From a state of the invariant the rule leads to one, with a value that is good or with a fault
of the invariant. -/
def Guards (I : GrammarInvariant) (rule : Rule α) (good : α → Prop) (s : State) : Prop :=
  I.state s →
    (∀ value t, rule.run s = .ok value t → I.state t ∧ good value) ∧
      ∀ fault t, rule.run s = .error fault t → I.state t ∧ I.fault fault

variable {good : α → Prop} {good' : β → Prop} {rule : Rule α}

theorem guards_of_run_ok {value : α} (hrun : rule.run s = .ok value t)
    (h : I.state s → I.state t ∧ good value) : I.Guards rule good s := by
  intro hs
  rw [hrun]
  constructor
  · rintro _ _ ⟨⟩
    exact h hs
  · rintro _ _ ⟨⟩

theorem guards_of_run_error {fault : Diagnostic} (hrun : rule.run s = .error fault s)
    (h : fault.position = s.current.position) : I.Guards rule good s := by
  intro hs
  rw [hrun]
  constructor
  · rintro _ _ ⟨⟩
  · rintro _ _ ⟨⟩
    exact ⟨hs, I.fault_current hs h⟩

/-- A rule may first take the current token. -/
theorem Guards.of_run_eq {rule' : Rule α} (hrun : rule.run s = rule'.run t)
    (h : I.state s → I.state t) (k : I.Guards rule' good t) : I.Guards rule good s := by
  intro hs
  rw [hrun]
  exact k (h hs)

theorem guards_pure {value : α} (h : good value) (s : State) : I.Guards (pure value) good s :=
  guards_of_run_ok (Rule.run_pure value s) fun hs => ⟨hs, h⟩

theorem Guards.bind {next : α → Rule β} (h : I.Guards rule good s)
    (k : ∀ value t, good value → s.Reaches t → I.Guards (next value) good' t) :
    I.Guards (rule >>= next) good' s := by
  intro hs
  obtain ⟨hok, herror⟩ := h hs
  rw [Rule.run_bind]
  cases hrule : rule.run s with
  | ok value t =>
    obtain ⟨ht, hvalue⟩ := hok value t hrule
    exact k value t hvalue (Rule.reaches_of_run_ok hrule) ht
  | error fault t =>
    constructor
    · rintro _ _ ⟨⟩
    · rintro _ _ ⟨⟩
      exact herror fault t hrule

theorem guards_expect (kind : TokenKind) (s : State) :
    I.Guards (Rule.expect kind) I.taken s := by
  have hrun := Rule.run_expect kind s
  split at hrun
  · exact guards_of_run_ok hrun fun hs => ⟨I.state_advance hs, I.taken_current hs⟩
  · split at hrun
    · refine guards_of_run_ok hrun fun hs => ⟨?_, I.taken_standIn (I.taken_current hs) kind⟩
      exact I.state_advance (I.state_report_current hs rfl)
    · exact guards_of_run_error hrun rfl

/-! ### Expressions -/

theorem guards_chainFrom {level : Level} {left : Expr}
    (h : ∀ sign rest op, s.rest = sign :: rest → level.operator? sign.kind = some op →
      I.Guards (Rule.operand level) I.expr s.advance ∧
        ∀ right t, s.advance.Reaches t → (I.expr (.binary op left right sign.position) →
          I.Guards (Rule.chainFrom level (.binary op left right sign.position)) I.expr t))
    (hleft : I.expr left) : I.Guards (Rule.chainFrom level left) I.expr s := by
  have hrun := Rule.run_chainFrom level left s
  cases hop : level.operator? s.current.kind with
  | none =>
    rw [hop] at hrun
    exact guards_of_run_ok hrun fun hs => ⟨hs, hleft⟩
  | some op =>
    rw [hop] at hrun
    cases hrest : s.rest with
    | nil =>
      rw [State.kind_current_of_nil hrest] at hop
      cases level <;> cases hop
    | cons sign rest =>
      intro hs
      have hsign : I.taken s.current := I.taken_current hs
      rw [State.current_eq hrest] at hop hrun hsign
      obtain ⟨hoperand, hmore⟩ := h sign rest op hrest hop
      refine Guards.of_run_eq hrun I.state_advance (hoperand.bind ?_) hs
      exact fun right t hright hreaches =>
        hmore right t hreaches (I.expr_binary op hsign hleft hright)

theorem guards_factor
    (hparen : ∀ token rest, s.rest = token :: rest → token.kind = .leftParen →
      I.Guards (Rule.chain .loose) I.expr s.advance)
    (hnot : ∀ token rest, s.rest = token :: rest → token.kind = .not →
      I.Guards Rule.factor I.expr s.advance) : I.Guards Rule.factor I.expr s := by
  have hrun := Rule.run_factor s
  split at hrun
  · split at hrun
    · exact guards_of_run_ok hrun fun hs => ⟨I.state_advance hs, I.expr_int _⟩
    · exact guards_of_run_error hrun rfl
  · rename_i hkind
    exact guards_of_run_ok hrun fun hs => ⟨I.state_advance hs, I.expr_string hs hkind⟩
  · exact guards_of_run_ok hrun fun hs => ⟨I.state_advance hs, I.expr_bool _⟩
  · refine guards_of_run_ok hrun fun hs => ⟨I.state_advance hs, I.expr_var ?_⟩
    exact I.identifier_reference hs (I.taken_current hs)
  · rename_i hkind
    obtain ⟨rest, hrest, -⟩ := State.rest_eq_of_kind hkind (by decide)
    have hinner : I.Guards Rule.expr I.expr s.advance := hparen _ _ hrest hkind
    refine .of_run_eq hrun I.state_advance (hinner.bind fun inner t hgood _ => ?_)
    exact (guards_expect _ t).bind fun _ u _ _ => guards_pure hgood u
  · rename_i hkind
    obtain ⟨rest, hrest, -⟩ := State.rest_eq_of_kind hkind (by decide)
    intro hs
    refine Guards.of_run_eq hrun I.state_advance ?_ hs
    refine (hnot _ _ hrest hkind).bind fun operand t hgood _ => ?_
    exact guards_pure (I.expr_not (I.taken_current hs) hgood) t
  · exact guards_of_run_error hrun rfl

theorem guards_expr (s : State) : I.Guards Rule.expr I.expr s := by
  refine (expr_induction (fun level s => I.Guards (Rule.chain level) I.expr s)
    (fun level s => I.Guards (Rule.operand level) I.expr s)
    (fun level left s => I.expr left → I.Guards (Rule.chainFrom level left) I.expr s)
    (fun s => I.Guards Rule.factor I.expr s) ?chain ?loop ?loose ?tight ?factor).1 .loose s
  case chain =>
    intro level s hoperand hloop
    exact .of_run_eq (Rule.run_chain level s) id
      (hoperand.bind fun left t hleft hreaches => hloop left t hreaches hleft)
  case loop => exact fun level left s => guards_chainFrom
  case loose => exact fun s h => .of_run_eq (Rule.run_operand_loose s) id h
  case tight => exact fun s h => .of_run_eq (Rule.run_operand_tight s) id h
  case factor => exact fun s => guards_factor

/-! ### Statements -/

theorem guards_reference {token : Token} (h : I.taken token) (s : State) :
    I.Guards (Rule.reference token) I.identifier s :=
  guards_of_run_ok (Rule.run_reference token s) fun hs => ⟨hs, I.identifier_reference hs h⟩

theorem guards_identifier (s : State) : I.Guards Rule.identifier I.identifier s :=
  (guards_expect .identifier s).bind fun _ t htoken _ => guards_reference htoken t

theorem guards_typeName (s : State) : I.Guards Rule.typeName I.type s := by
  have hrun := Rule.run_typeName s
  split at hrun
  · exact guards_of_run_ok hrun fun hs => ⟨I.state_advance hs, I.type_int⟩
  · rename_i hkind
    exact guards_of_run_ok hrun fun hs => ⟨I.state_advance hs, I.type_string hs hkind⟩
  · exact guards_of_run_ok hrun fun hs => ⟨I.state_advance hs, I.type_bool⟩
  · exact guards_of_run_error hrun rfl

theorem guards_initializer (s : State) :
    I.Guards Rule.initializer (fun value => ∀ e, value = some e → I.expr e) s := by
  have hrun := Rule.run_initializer s
  split at hrun
  · refine .of_run_eq hrun I.state_advance ((guards_expr _).bind fun e t he _ => ?_)
    apply guards_pure
    rintro _ ⟨⟩
    exact he
  · exact guards_of_run_ok hrun fun hs => ⟨hs, nofun⟩

theorem guards_declaration (s : State) : I.Guards Rule.declaration I.statement s := by
  refine (guards_expect _ s).bind fun name t hname _ => ?_
  refine (guards_expect _ t).bind fun _ u _ _ => ?_
  refine (guards_typeName u).bind fun ty v hty _ => ?_
  have hdeclare : I.Guards (Rule.declare name.lexeme ty) (fun _ => True) v :=
    guards_of_run_ok (Rule.run_declare name.lexeme ty v) fun hv =>
      ⟨I.state_declare hv name.lexeme hty, trivial⟩
  refine hdeclare.bind fun _ w _ _ => ?_
  refine (guards_initializer w).bind fun value x hvalue _ => ?_
  exact guards_pure (I.declaration hname hty hvalue) x

theorem guards_assignment {target : Token} (htarget : I.taken target) (s : State) :
    I.Guards (Rule.assignment target) I.statement s := by
  refine (guards_reference htarget s).bind fun identifier t hidentifier _ => ?_
  refine (guards_expect _ t).bind fun _ u _ _ => ?_
  refine (guards_expr u).bind fun e v he _ => ?_
  exact guards_pure (I.assignment hidentifier he) v

theorem guards_print {keyword : Token} (h : I.taken keyword) (s : State) :
    I.Guards (Rule.print keyword) I.statement s :=
  (guards_expr s).bind fun _ t he _ => guards_pure (I.print h he) t

theorem guards_assertion {keyword : Token} (h : I.taken keyword) (s : State) :
    I.Guards (Rule.assertion keyword) I.statement s := by
  refine (guards_expect _ s).bind fun _ t _ _ => ?_
  refine (guards_expr t).bind fun e u he _ => ?_
  refine (guards_expect _ u).bind fun _ v _ _ => ?_
  exact guards_pure (I.assertion h he) v

/-- The parts of a loop header are those of the invariant. -/
def Header (I : GrammarInvariant) (header : LoopHeader) : Prop :=
  I.identifier header.counter ∧ I.expr header.start ∧ I.expr header.stop

theorem guards_loopHeader (s : State) : I.Guards Rule.loopHeader I.Header s := by
  refine (guards_identifier s).bind fun counter t hcounter _ => ?_
  refine (guards_expect _ t).bind fun _ u _ _ => ?_
  refine (guards_expr u).bind fun start v hstart _ => ?_
  refine (guards_expect _ v).bind fun _ w _ _ => ?_
  refine (guards_expr w).bind fun stop x hstop _ => ?_
  refine (guards_expect _ x).bind fun _ y _ _ => ?_
  apply guards_pure
  exact ⟨hcounter, hstart, hstop⟩

theorem guards_loopEnd (s : State) : I.Guards Rule.loopEnd (fun _ => True) s := by
  refine (guards_expect _ s).bind fun _ t _ _ => ?_
  refine (guards_expect _ t).bind fun _ u _ _ => ?_
  exact guards_pure trivial u

/-! ### Loops and blocks -/

/-- What a block has to keep for the loops around it. -/
def GuardsBlock (I : GrammarInvariant) (inLoop : Bool) (s : State) : Prop :=
  I.state s → I.state (blockRun inLoop s).2 ∧ ∀ v ∈ (blockRun inLoop s).1, I.statement v

theorem guards_loop (s : State) (hbody : ∀ t, s.Reaches t → I.GuardsBlock true t) :
    I.Guards Rule.loop I.statement s := by
  intro hs
  obtain ⟨hok, herror⟩ := guards_loopHeader s hs
  rw [Rule.run_loop]
  cases hheader : Rule.loopHeader.run s with
  | error fault t =>
    obtain ⟨ht, hfault⟩ := herror fault t hheader
    have hreaches := (Rule.reaches_of_run_error hheader).trans t.reaches_skipHeader
    have hskip : I.state t.skipHeader := I.state_skipTo ht (behindHeader_suffix _)
    constructor
    · rintro _ _ ⟨⟩
    · rintro _ _ ⟨⟩
      exact ⟨(hbody _ hreaches hskip).1, hfault⟩
  | ok header t =>
    obtain ⟨ht, hcounter, hstart, hstop⟩ := hok header t hheader
    obtain ⟨hafter, hstatements⟩ := hbody t (Rule.reaches_of_run_ok hheader) ht
    obtain ⟨hend, hunend⟩ := guards_loopEnd _ hafter
    dsimp only
    cases hloopEnd : Rule.loopEnd.run (blockRun true t).2 with
    | error fault u =>
      constructor
      · rintro _ _ ⟨⟩
      · rintro _ _ ⟨⟩
        exact hunend fault u hloopEnd
    | ok value u =>
      constructor
      · rintro _ _ ⟨⟩
        exact ⟨(hend value u hloopEnd).1, I.loop hcounter hstart hstop hstatements⟩
      · rintro _ _ ⟨⟩

/-- A statement behind its first token, if the bodies behind it keep the invariant. -/
theorem guards_statement {form : StatementForm} (hs : I.state s)
    (hkind : s.current.kind = form.kind) (t : State)
    (hbody : ∀ u, t.Reaches u → I.GuardsBlock true u) :
    I.Guards (Rule.statement form s.current) I.statement t := by
  have hfirst : I.taken s.current := I.taken_current hs
  have hrule : I.Guards (form.rule s.current) I.statement t := by
    cases form with
    | declaration => exact guards_declaration t
    | assignment => exact guards_assignment hfirst t
    | loop => exact guards_loop t hbody
    | print => exact guards_print hfirst t
    | read => exact (guards_identifier t).bind fun _ u htarget _ =>
        guards_pure (I.read hs hkind htarget) u
    | assertion => exact guards_assertion hfirst t
  refine .of_run_eq (Rule.run_statement form s.current t) id (hrule.bind fun v u hv _ => ?_)
  exact (guards_expect _ u).bind fun _ w _ _ => guards_pure hv w

theorem state_resume (hs : I.state s) {reported : Diagnostic} (h : I.fault reported) :
    I.state (s.report reported).synchronize :=
  I.state_skipTo (I.state_report hs h) (behindSemicolon_suffix _)

/-- From a state of the invariant, a block builds statements of the invariant and leaves such a
state, whatever it leaves out. -/
theorem block (I : GrammarInvariant) (inLoop : Bool) (s : State) : I.GuardsBlock inLoop s := by
  intro hs
  cases hrest : s.rest with
  | nil =>
    rw [blockRun_of_nil hrest]
    exact ⟨hs, List.forall_mem_nil _⟩
  | cons token rest =>
    have hcurrent : s.current = token := State.current_eq hrest
    have hsuffix : rest <:+ s.rest := hrest ▸ List.suffix_cons token rest
    have hlength : ∀ t : State, t.rest <:+ rest → t.rest.length < s.rest.length := by
      intro t ht
      rw [hrest, List.length_cons]
      exact Nat.lt_succ_of_le ht.length_le
    rw [blockRun_of_cons hrest]
    split
    · exact ⟨hs, List.forall_mem_nil _⟩
    split
    · have hreport : I.state (s.report (.unclassified token)) :=
        I.state_report_current hs (by rw [hcurrent]; rfl)
      have := hlength ((s.report (.unclassified token)).skipTo rest) (List.suffix_refl _)
      exact I.block inLoop _ (I.state_skipTo hreport hsuffix)
    split
    · rename_i form hform
      have hkind : s.current.kind = form.kind := by
        rw [hcurrent]
        exact StatementForm.kind_of_ofKind? hform
      have hguards := guards_statement hs hkind (s.skipTo rest) fun u hu =>
        have := hlength u hu.rest
        I.block true u
      rw [hcurrent] at hguards
      obtain ⟨hok, herror⟩ := hguards (I.state_skipTo hs hsuffix)
      cases hrun : (Rule.statement form token).run (s.skipTo rest) with
      | ok v t =>
        obtain ⟨ht, hv⟩ := hok v t hrun
        have := hlength t (Rule.reaches_of_run_ok hrun).rest
        obtain ⟨hafter, hstatements⟩ := I.block inLoop t ht
        exact ⟨hafter, List.forall_mem_cons.2 ⟨hv, hstatements⟩⟩
      | error fault t =>
        obtain ⟨ht, hfault⟩ := herror fault t hrun
        have := hlength (t.report fault).synchronize
          ((behindSemicolon_suffix _).trans (Rule.reaches_of_run_error hrun).rest)
        exact I.block inLoop _ (I.state_resume ht hfault)
    · split
      · refine ⟨I.state_report_current hs ?_, List.forall_mem_nil _⟩
        rw [hcurrent]
        rfl
      · have hfault : I.fault (.unexpected .statement token) :=
          I.fault_current hs (by rw [hcurrent]; rfl)
        have hne : s.rest ≠ [] := by
          rw [hrest]
          exact List.cons_ne_nil _ _
        have : (s.report (.unexpected .statement token)).synchronize.rest.length < s.rest.length :=
          length_behindSemicolon_lt hne
        exact I.block inLoop _ (I.state_resume hs hfault)
termination_by s.rest.length

end GrammarInvariant

end MiniPL.Parser
