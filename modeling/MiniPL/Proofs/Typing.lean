import MiniPL.Proofs.Sentences
import MiniPL.Proofs.VariableTypes

/-!
# Type tags and the types of values

The tags of an expression are fixed while it is read, from the declarations in front of it; the
types of the variables change while the program runs.  In a run of a clean program the two meet at
every moment at which an expression is evaluated (`Program.moments`).

* `tags_sound_of_declaresAs`: where every name has one type throughout, a tag is the type of the
  value.
* `tags_eq_types_of_declaresOutsideLoops`: where declarations stand outside of the loops, the tag of
  a mention is the type of the variable at that moment, and it is missing exactly where the variable
  is not bound.  The exception is a declaration that mentions its own name: its initial value is
  read with the type that is being declared, and evaluated with the binding in front of it.

Both rest on `Grammar.IsBlock.exists_taggedBy`, by which the tags of a step come from one table.
-/

namespace MiniPL

/-! ### Mentions and parts -/

namespace Expr

/-- The variables that an expression mentions, from left to right. -/
def mentions : Expr → List Identifier
  | var identifier => [identifier]
  | not operand _ => operand.mentions
  | binary _ left right _ => left.mentions ++ right.mentions
  | _ => []

/-- Every mention carries the type that the table has for its name. -/
def TaggedBy (e : Expr) (types : TypeTable) : Prop :=
  ∀ identifier ∈ e.mentions, identifier.ty = types identifier.name

theorem taggedBy_binary {op : BinaryOp} {left right : Expr} {position : Position}
    {types : TypeTable} (hleft : left.TaggedBy types) (hright : right.TaggedBy types) :
    (binary op left right position).TaggedBy types := by
  intro identifier hmem
  rcases List.mem_append.1 hmem with hmem | hmem
  · exact hleft identifier hmem
  · exact hright identifier hmem

/-- What a part of an expression mentions, the expression mentions. -/
theorem mentions_subset_of_mem_nodes {e part : Expr} (h : .expr part ∈ e.nodes) :
    part.mentions ⊆ e.mentions := by
  induction e with
  | int | string | bool | var =>
    obtain rfl := Node.expr.inj (List.mem_singleton.1 h)
    exact List.Subset.refl _
  | not operand position ih =>
    rcases List.mem_cons.1 h with h | h
    · obtain rfl := Node.expr.inj h
      exact List.Subset.refl _
    · exact ih h
  | binary op left right position ihleft ihright =>
    rcases List.mem_cons.1 h with h | h
    · obtain rfl := Node.expr.inj h
      exact List.Subset.refl _
    · rcases List.mem_append.1 h with h | h
      · exact List.Subset.trans (ihleft h) (List.subset_append_left _ _)
      · exact List.Subset.trans (ihright h) (List.subset_append_right _ _)

end Expr

/-- The tags of a phrase are those of the table in front of it. -/
theorem Grammar.Derives.taggedBy {types : TypeTable} {phrase : Phrase} {tokens : List Token}
    {e : Expr} (h : Derives types phrase tokens e) : e.TaggedBy types := by
  induction h with
  | term _ ih | factor _ ih | parens _ _ _ ih | not _ _ ih => exact ih
  | sum _ _ _ _ ihleft ihright | product _ _ _ _ ihleft ihright =>
    exact Expr.taggedBy_binary ihleft ihright
  | int | string | bool => exact fun _ hmem => nomatch hmem
  | var =>
    intro identifier hmem
    obtain rfl := List.mem_singleton.1 hmem
    rfl

/-! ### The values of expressions -/

section
variable {ε α β γ : Type}

/-- What goes on from a computation goes on from what it gives. -/
theorem exists_of_bind {x : Except ε α} {f : α → Except ε β} {b : β} (h : (x >>= f) = .ok b) :
    ∃ a, f a = .ok b := by
  cases x with
  | error fault => cases h
  | ok a => exact ⟨a, h⟩

theorem exists_of_bind_bind {x : Except ε α} {y : Except ε β} {f : α → β → Except ε γ} {c : γ}
    (h : (do f (← x) (← y)) = .ok c) : ∃ a b, f a b = .ok c := by
  obtain ⟨a, ha⟩ := exists_of_bind h
  obtain ⟨b, hb⟩ := exists_of_bind ha
  exact ⟨a, b, hb⟩

end

theorem eq_ok_of_placed {α : Type} {position : Position} {x : Except Cause α} {a : α}
    (h : placed position x = .ok a) : x = .ok a := by
  cases x with
  | error cause => cases h
  | ok a' =>
    cases h
    rfl

/-- The type of what an operator gives. -/
def BinaryOp.resultType (onText : Bool) : BinaryOp → ValueType
  | add => if onText then .string else .int
  | sub | mul | div => .int
  | less | equal | and => .bool

theorem BinaryOp.ty_of_apply {op : BinaryOp} {onText : Bool} {left right value : Value}
    (h : op.apply onText left right = .ok value) : value.ty = op.resultType onText := by
  cases op with
  | add | less | equal =>
    cases onText with
    | true =>
      cases h
      rfl
    | false =>
      obtain ⟨a, b, hab⟩ := exists_of_bind_bind h
      cases hab
      rfl
  | sub | mul | and =>
    rw [apply] at h
    obtain ⟨a, b, hab⟩ := exists_of_bind_bind h
    cases hab
    rfl
  | div =>
    rw [apply] at h
    obtain ⟨a, b, hab⟩ := exists_of_bind_bind h
    obtain ⟨q, hq⟩ := exists_of_bind hab
    cases hq
    rfl

namespace Expr

/-- Operators are tagged with the type of what they give. -/
theorem tag_binary (op : BinaryOp) (left right : Expr) (position : Position) :
    (binary op left right position).tag = some (op.resultType (left.bothText right)) := by
  cases op with
  | add =>
    by_cases h : left.tag = some .string ∧ right.tag = some .string
    · simp [tag, bothText, BinaryOp.resultType, h]
    · rw [tag, if_neg h]
      have hboth : left.bothText right = false := by
        simpa [bothText] using h
      rw [hboth]
      rfl
  | _ => rfl

/-- What has a tag evaluates to a value of that type, if every variable that it mentions does. -/
theorem ty_of_eval {e : Expr} {store : Store} {value : Value} {ty : ValueType}
    (hmentions : ∀ identifier ∈ e.mentions, ∀ ty, identifier.ty = some ty →
      ∀ value, store.get? identifier.name = some value → value.ty = ty)
    (htag : e.tag = some ty) (heval : e.eval store = .ok value) : value.ty = ty := by
  cases e with
  | int | string | bool =>
    cases htag
    cases heval
    rfl
  | var identifier =>
    rw [eval, Store.lookup] at heval
    cases hget : store.get? identifier.name with
    | none =>
      rw [hget] at heval
      cases heval
    | some bound =>
      rw [hget] at heval
      cases heval
      exact hmentions identifier (List.mem_singleton_self _) ty htag _ hget
  | not operand position =>
    cases htag
    rw [eval] at heval
    obtain ⟨v, hv⟩ := exists_of_bind heval
    obtain ⟨truth, htruth⟩ := exists_of_bind hv
    cases htruth
    rfl
  | binary op left right position =>
    rw [tag_binary] at htag
    obtain rfl := Option.some.inj htag
    rw [eval] at heval
    obtain ⟨a, b, hab⟩ := exists_of_bind_bind heval
    exact BinaryOp.ty_of_apply (eq_ok_of_placed hab)

end Expr

/-! ### The tables behind the tags of a block -/

/-- Whether a statement is a declaration. -/
def Statement.isDeclaration : Statement → Bool
  | .declaration _ _ _ _ => true
  | _ => false

/-- The expression of a step carries the tags of the table. -/
def Step.TaggedBy (step : Step) (types : TypeTable) : Prop :=
  ∀ e, step.expr? = some e → e.TaggedBy types

/-- A statement without a body is one step. -/
theorem Step.IsOf.eq_simple {step : Step} {v : Statement} (h : step.IsOf v)
    (hloop : v.isLoop = false) : step = .simple v hloop := by
  cases h with
  | simple => rfl
  | start | stop | count => cases hloop

namespace Grammar

section
variable {types types' : TypeTable} {tokens : List Token}

theorem IsSimple.isLoop_eq_false {v : Statement} (h : IsSimple types tokens v types') :
    v.isLoop = false := by
  cases h <;> rfl

/-- A statement without a body carries the tags of the table behind it. -/
theorem IsSimple.taggedBy {v : Statement} (h : IsSimple types tokens v types')
    (hloop : v.isLoop = false) : (Step.simple v hloop).TaggedBy types' := by
  intro e he
  cases h with
  | declaration | read => cases he
  | initialized _ _ _ _ _ h | assignment _ _ h | print _ h | assert _ _ h =>
    cases he
    exact h.taggedBy

/-- Only a declaration changes the table. -/
theorem IsSimple.types_eq {v : Statement} (h : IsSimple types tokens v types') :
    (∃ name position ty initializer, v = .declaration name position ty initializer ∧
        types' = types.declare name ty) ∨
      types' = types ∧ v.isDeclaration = false := by
  cases h with
  | declaration | initialized => exact .inl ⟨_, _, _, _, rfl, rfl⟩
  | assignment | print | read | assert => exact .inr ⟨rfl, rfl⟩

/-- The bounds of a loop carry the tags of the table in front of it. -/
theorem IsHeader.taggedBy {counter : Identifier} {start stop : Expr} {body : Block} {step : Step}
    (h : IsHeader types tokens counter start stop)
    (hstep : step.IsOf (.loop counter start stop body)) : step.TaggedBy types := by
  intro e he
  cases h with
  | mk _ _ hstart _ hstop =>
    cases hstep with
    | simple hloop => cases hloop
    | start =>
      cases he
      exact hstart.taggedBy
    | stop =>
      cases he
      exact hstop.taggedBy
    | count => cases he

/-- The tags of each step of a block come from one table, and the tables of all steps share what the
table in front has and the declarations keep. -/
theorem IsBlock.exists_taggedBy {b : Block} (h : IsBlock types tokens b types')
    (good : TypeTable → Prop) (htypes : good types)
    (hdeclare : ∀ name position ty initializer,
      .declaration name position ty initializer ∈ Block.allStatements b →
        ∀ table, good table → good (table.declare name ty)) :
    good types' ∧ ∀ w ∈ Block.allStatements b, ∀ step : Step, step.IsOf w →
      ∃ table, good table ∧ step.TaggedBy table := by
  induction h with
  | nil => exact ⟨htypes, fun _ hmem => nomatch hmem⟩
  | @simple types types' _ _ _ v b h _ ih =>
    have hloop := h.isLoop_eq_false
    have hself : v ∈ Block.allStatements (v :: b) :=
      List.mem_append_left _ v.mem_allStatements_self
    have hgood : good types' := by
      rcases h.types_eq with ⟨name, position, ty, initializer, rfl, rfl⟩ | ⟨rfl, -⟩
      · exact hdeclare name position ty initializer hself types htypes
      · exact htypes
    obtain ⟨hgood', hrest⟩ := ih hgood fun name position ty initializer hmem =>
      hdeclare name position ty initializer (List.mem_append_right _ hmem)
    refine ⟨hgood', fun w hw step hstep => ?_⟩
    rcases List.mem_append.1 hw with hw | hw
    · rw [Statement.allStatements_of_not_isLoop hloop] at hw
      obtain rfl := List.mem_singleton.1 hw
      rw [hstep.eq_simple hloop]
      exact ⟨types', hgood, h.taggedBy hloop⟩
    · exact hrest w hw step hstep
  | @loop types _ _ _ _ _ _ _ _ _ _ _ _ _ hheader _ _ _ ihbody ih =>
    obtain ⟨hbody, hinner⟩ := ihbody htypes fun name position ty initializer hmem =>
      hdeclare name position ty initializer
        (List.mem_append_left _ (List.mem_cons_of_mem _ hmem))
    obtain ⟨hgood, hrest⟩ := ih hbody fun name position ty initializer hmem =>
      hdeclare name position ty initializer (List.mem_append_right _ hmem)
    refine ⟨hgood, fun w hw step hstep => ?_⟩
    rcases List.mem_append.1 hw with hw | hw
    · rcases List.mem_cons.1 hw with rfl | hw
      · exact ⟨types, htypes, hheader.taggedBy hstep⟩
      · exact hinner w hw step hstep
    · exact hrest w hw step hstep

end

end Grammar

/-! ### Names with one type -/

namespace TypeTable

/-- Every type that the table has is the one that `assigned` has. -/
def Within (types assigned : TypeTable) : Prop :=
  ∀ name ty, types name = some ty → assigned name = some ty

theorem Within.declare {types assigned : TypeTable} {name : String} {ty : ValueType}
    (h : types.Within assigned) (hname : assigned name = some ty) :
    (types.declare name ty).Within assigned := by
  intro other ty' hother
  unfold TypeTable.declare at hother
  split at hother
  · rename_i heq
    cases hother
    rw [heq, hname]
  · exact h other ty' hother

end TypeTable

/-- Whether a statement, if it is a declaration, gives its name the type that the table has. -/
def Statement.declaresAs (types : TypeTable) : Statement → Bool
  | .declaration name _ ty _ => types name == some ty
  | _ => true

theorem Step.declares?_of_isOf {types : TypeTable} {step : Step} {v : Statement} (h : step.IsOf v)
    (hv : v.declaresAs types = true) {name : String} {ty : ValueType}
    (hname : step.declares? name = some ty) : types name = some ty := by
  cases h with
  | start | stop | count => cases hname
  | simple hloop =>
    cases v with
    | loop => cases hloop
    | assignment | print | read | assert => cases hname
    | declaration other position ty' initializer =>
      rw [declares?] at hname
      split at hname
      · rename_i heq
        cases hname
        rw [heq]
        exact eq_of_beq hv
      · cases hname

theorem Step.within_after {assigned : TypeTable} {step : Step} {m : Machine}
    (hdeclares : ∀ name ty, step.declares? name = some ty → assigned name = some ty)
    (hm : m.store.types.Within assigned) : (step.run.after m).store.types.Within assigned := by
  rcases step.types_after m with heq | ⟨name, ty, hname, heq⟩
  · rw [heq]
    exact hm
  · rw [heq]
    exact hm.declare (hdeclares name ty hname)

/-- Static tags are sound where every name has one type: then a bound name has that type at every
moment, and whatever a part of an expression evaluates to has the type of its tag. -/
theorem tags_sound_of_declaresAs (source : String) (known assigned : TypeTable) (m : Machine)
    (hclean : (parseText source known).isClean = true)
    (hdeclared : ∀ w ∈ Block.allStatements (parseText source known).program.statements,
      w.declaresAs assigned = true)
    (hknown : known.Within assigned) (hm : m.store.types.Within assigned) :
    ((parseText source known).program.exec.after m).store.types.Within assigned ∧
      ∀ moment ∈ (parseText source known).program.moments m,
        moment.machine.store.types.Within assigned ∧
        ∀ e, moment.step.expr? = some e → ∀ part, .expr part ∈ e.nodes → ∀ ty value,
          part.tag = some ty → part.eval moment.machine.store = .ok value → value.ty = ty := by
  obtain ⟨types', hblock⟩ := Parser.isBlock_of_isClean hclean
  generalize (parseText source known).program = program at *
  have htagged := (hblock.exists_taggedBy (fun table => table.Within assigned) hknown
    fun name position ty initializer hmem table h => h.declare (eq_of_beq (hdeclared _ hmem))).2
  let inv (m : Machine) : Prop := m.store.types.Within assigned
  let allowed (step : Step) : Prop :=
    (∀ name ty, step.declares? name = some ty → assigned name = some ty) ∧
      ∃ table : TypeTable, table.Within assigned ∧ step.TaggedBy table
  have hinv : ∀ step m, allowed step → inv m → inv (step.run.after m) := by
    intro step m hstep hm
    exact Step.within_after hstep.1 hm
  have hkeeps : (Block.log program.statements).Keeps inv allowed :=
    Block.keeps_log hinv _ fun w hw step hstep =>
      ⟨fun _ _ => Step.declares?_of_isOf hstep (hdeclared w hw), htagged w hw step hstep⟩
  obtain ⟨hmoments, hafter⟩ := hkeeps m hm
  rw [Block.run_log] at hafter
  refine ⟨hafter, fun moment hmoment => ?_⟩
  obtain ⟨hstore, -, table, htable, htags⟩ := hmoments moment hmoment
  refine ⟨hstore, fun e he part hpart ty value htag heval => ?_⟩
  refine Expr.ty_of_eval (fun identifier hmem ty hty bound hbound => ?_) htag heval
  have hassigned : assigned identifier.name = some ty := by
    rw [htags e he identifier (Expr.mentions_subset_of_mem_nodes hpart hmem)] at hty
    exact htable _ _ hty
  have hassigned' : assigned identifier.name = some bound.ty :=
    hstore _ _ (congrArg (Option.map Value.ty) hbound)
  exact Option.some.inj (hassigned'.symm.trans hassigned)

/-- A loop whose body declares a name, with names known in front of the program. -/
theorem tags_sound_in_loop :
    let source := "for i in 0..1 do var t : string := s + s; s := t; end for;"
    let assigned := ((TypeTable.empty.declare "i" .int).declare "s" .string).declare "t" .string
    let m : Machine := ⟨(Store.empty.declare "i" (.int 0)).declare "s" (.string "a"), .empty, {}⟩
    let program := (parseText source assigned).program
    (parseText source assigned).isClean = true ∧
      (∀ w ∈ Block.allStatements program.statements, w.declaresAs assigned = true) ∧
      assigned.Within assigned ∧ m.store.types.Within assigned ∧
      (program.exec.after m).store.types.Within assigned ∧
      ∀ moment ∈ program.moments m,
        moment.machine.store.types.Within assigned ∧
        ∀ e, moment.step.expr? = some e → ∀ part, .expr part ∈ e.nodes → ∀ ty value,
          part.tag = some ty → part.eval moment.machine.store = .ok value → value.ty = ty := by
  intro source assigned m program
  have hclean : (parseText source assigned).isClean = true := by decide +kernel
  have hdeclared : ∀ w ∈ Block.allStatements program.statements, w.declaresAs assigned = true := by
    decide +kernel
  have hm : m.store.types.Within assigned := by
    have hempty : Store.empty.types.Within assigned := fun _ _ h => nomatch h
    show ((Store.empty.declare "i" (.int 0)).declare "s" (.string "a")).types.Within assigned
    rw [Store.types_declare, Store.types_declare]
    exact (hempty.declare rfl).declare rfl
  exact ⟨hclean, hdeclared, fun _ _ h => h, hm,
    tags_sound_of_declaresAs source assigned assigned m hclean hdeclared (fun _ _ h => h) hm⟩

/-! ### Declarations outside of loops -/

/-- Whether a statement holds a declaration in its body. -/
def Statement.declaresInBody : Statement → Bool
  | .loop _ _ _ body => Block.any Statement.isDeclaration body
  | _ => false

/-- Whether all declarations of a block stand outside of its loops. -/
def Block.declaresOutsideLoops (b : Block) : Bool :=
  b.all fun v => !v.declaresInBody

theorem Block.declaresOutsideLoops_cons {v : Statement} {b : Block}
    (h : Block.declaresOutsideLoops (v :: b) = true) :
    v.declaresInBody = false ∧ Block.declaresOutsideLoops b = true := by
  simpa [Block.declaresOutsideLoops] using h

mutual

theorem Statement.eq_false_of_any {p : Statement → Bool} :
    ∀ v : Statement, v.any p = false → ∀ w ∈ v.allStatements, p w = false
  | .declaration _ _ _ _, h, w, hw | .assignment _ _, h, w, hw | .print _ _, h, w, hw
  | .read _, h, w, hw | .assert _ _, h, w, hw => by
    obtain rfl := List.mem_singleton.1 hw
    exact h
  | .loop counter start stop body, h, w, hw => by
    obtain ⟨hself, hbody⟩ := Bool.or_eq_false_iff.1 h
    rcases List.mem_cons.1 hw with rfl | hw
    · exact hself
    · exact Block.eq_false_of_any body hbody w hw

theorem Block.eq_false_of_any {p : Statement → Bool} :
    ∀ b : Block, Block.any p b = false → ∀ w ∈ Block.allStatements b, p w = false
  | [], _, _, hw => nomatch hw
  | v :: rest, h, w, hw => by
    obtain ⟨hv, hrest⟩ := Bool.or_eq_false_iff.1 h
    rcases List.mem_append.1 hw with hw | hw
    · exact v.eq_false_of_any hv w hw
    · exact Block.eq_false_of_any rest hrest w hw

end

theorem Step.declares?_eq_none {step : Step} {v : Statement} (h : step.IsOf v)
    (hv : v.isDeclaration = false) (name : String) : step.declares? name = none := by
  cases h with
  | start | stop | count => rfl
  | simple hloop =>
    cases v with
    | declaration => cases hv
    | loop | assignment | print | read | assert => rfl

/-- Every mention in the expression of the step has the type that the step declares for its name or,
where it declares none, the type of the variable. -/
def Moment.Agrees (moment : Moment) : Prop :=
  ∀ e, moment.step.expr? = some e → ∀ identifier ∈ e.mentions,
    identifier.ty =
      (moment.step.declares? identifier.name).or (moment.machine.store.types identifier.name)

/-- From variables with the types of one table, all moments of the run agree, and if it does not
fail it leads to variables with the types of the other. -/
def Logged.Leads {α : Type} (x : Logged α) (types types' : TypeTable) : Prop :=
  ∀ m, m.store.types = types →
    (∀ moment ∈ x.moments m, moment.Agrees) ∧ ∀ a m', x.run m = .ok a m' → m'.store.types = types'

theorem Logged.Leads.bind {α β : Type} {x : Logged α} {f : α → Logged β}
    {types types' types'' : TypeTable} (hx : x.Leads types types')
    (hf : ∀ a, (f a).Leads types' types'') : (x >>= f).Leads types types'' := by
  intro m hm
  obtain ⟨hmoments, hend⟩ := hx m hm
  rcases bind_cases x f m with ⟨a, m', hfirst, hrun, hlog⟩ | ⟨fault, m', hfirst, hrun, hlog⟩
  · obtain ⟨hmoments', hend'⟩ := hf a m' (hend a m' hfirst)
    rw [hrun, hlog]
    exact ⟨List.forall_mem_append.2 ⟨hmoments, hmoments'⟩, hend'⟩
  · rw [hrun, hlog]
    exact ⟨hmoments, fun _ _ h => nomatch h⟩

theorem Statement.log_of_not_isLoop {v : Statement} (h : v.isLoop = false) :
    v.log = .simple v h := by
  cases v with
  | loop => cases h
  | declaration | assignment | print | read | assert => simp only [Statement.log]

namespace Grammar

variable {types types' : TypeTable} {tokens : List Token}

/-- A statement without a body leads from the table in front of it to the table behind it. -/
theorem IsSimple.leads {v : Statement} (h : IsSimple types tokens v types') :
    v.log.Leads types types' := by
  have hloop := h.isLoop_eq_false
  have htagged := h.taggedBy hloop
  rw [Statement.log_of_not_isLoop hloop]
  intro m hm
  constructor
  · intro moment hmoment e he identifier hmem
    obtain rfl := List.mem_singleton.1 hmoment
    rw [htagged e he identifier hmem]
    rcases h.types_eq with ⟨name, position, ty, initializer, rfl, rfl⟩ | ⟨rfl, hv⟩
    · simp only [TypeTable.declare, Step.declares?, hm]
      split <;> rfl
    · rw [Step.declares?_eq_none (.simple hloop) hv, hm]
      rfl
  · intro a m' hrun
    replace hrun : v.exec m = .ok a m' := hrun
    rcases h.types_eq with ⟨name, position, ty, initializer, rfl, rfl⟩ | ⟨rfl, hv⟩
    · have htypes := Run.types_of_declaration name position ty initializer m
      rw [hrun] at htypes
      rw [htypes, hm]
    · have htypes : (v.exec.after m).store.types = m.store.types :=
        Step.preserves_types (Step.declares?_eq_none (.simple hloop) hv) m
      rwa [Run.after_eq_of_ok hrun, hm] at htypes

/-- A loop without declarations leaves the variables with their types. -/
theorem IsHeader.leads {inner : List Token} {counter : Identifier} {start stop : Expr}
    {body : Block} (h : IsHeader types tokens counter start stop)
    (hbody : IsBlock types inner body types')
    (hout : Block.any Statement.isDeclaration body = false) :
    types' = types ∧ (Statement.loop counter start stop body).log.Leads types types := by
  have hnone := Block.eq_false_of_any body hout
  obtain ⟨htypes, htagged⟩ := hbody.exists_taggedBy (fun table => table = types) rfl
    fun name position ty initializer hmem => nomatch hnone _ hmem
  refine ⟨htypes, fun m hm => ?_⟩
  let allowed (step : Step) : Prop :=
    (∀ name, step.declares? name = none) ∧ step.TaggedBy types
  have hinv : ∀ step m, allowed step → m.store.types = types →
      (step.run.after m).store.types = types := fun step m hstep hm =>
    (Step.preserves_types hstep.1 m).trans hm
  have hkeeps : (Statement.loop counter start stop body).log.Keeps
      (fun m => m.store.types = types) allowed := by
    refine Statement.keeps_log hinv _ fun w hw step hstep => ?_
    rcases List.mem_cons.1 hw with rfl | hw
    · exact ⟨Step.declares?_eq_none hstep rfl, h.taggedBy hstep⟩
    · obtain ⟨table, rfl, htable⟩ := htagged w hw step hstep
      exact ⟨Step.declares?_eq_none hstep (hnone w hw), htable⟩
  obtain ⟨hmoments, hafter⟩ := hkeeps m hm
  refine ⟨fun moment hmoment e he identifier hmem => ?_, fun a m' hrun => ?_⟩
  · obtain ⟨hstore, hnone, htags⟩ := hmoments moment hmoment
    rw [hnone, htags e he identifier hmem, hstore]
    rfl
  · rwa [Run.after_eq_of_ok hrun] at hafter

/-- A block that declares outside of its loops leads from the table in front of it to the table
behind it. -/
theorem IsBlock.leads {b : Block} (h : IsBlock types tokens b types')
    (hout : Block.declaresOutsideLoops b = true) : (Block.log b).Leads types types' := by
  induction h with
  | nil =>
    intro m hm
    refine ⟨fun _ hmem => (List.not_mem_nil hmem).elim, fun a m' hrun => ?_⟩
    cases hrun
    exact hm
  | simple h _ ih =>
    rw [Block.log]
    exact h.leads.bind fun _ => ih (Block.declaresOutsideLoops_cons hout).2
  | loop _ hheader hbody _ _ _ ih =>
    obtain ⟨hbodyOut, hrestOut⟩ := Block.declaresOutsideLoops_cons hout
    obtain ⟨rfl, hloop⟩ := hheader.leads hbody hbodyOut
    rw [Block.log]
    exact hloop.bind fun _ => ih hrestOut

end Grammar

/-- Reader and run agree on what a name refers to.  When an expression is evaluated, each of its
mentions is tagged with the type of the variable, and has no tag exactly where the name is not
bound; only in the initial value of its own declaration a name is tagged with the type being
declared. -/
theorem tags_eq_types_of_declaresOutsideLoops (source : String) (input : Input) (output : Output)
    (hclean : (parseText source).isClean = true)
    (hout : Block.declaresOutsideLoops (parseText source).program.statements = true) :
    ∀ moment ∈ (parseText source).program.moments ⟨.empty, input, output⟩,
      ∀ e, moment.step.expr? = some e → ∀ identifier ∈ e.mentions,
        (moment.step.declares? identifier.name = none →
          identifier.ty = moment.machine.store.typeOf? identifier.name ∧
          (identifier.ty = none ↔ moment.machine.store.contains identifier.name = false) ∧
          ∀ value, (Expr.var identifier).eval moment.machine.store = .ok value →
            identifier.ty = some value.ty) ∧
        ∀ ty, moment.step.declares? identifier.name = some ty → identifier.ty = some ty := by
  intro moment hmoment e he identifier hmem
  obtain ⟨types', hblock⟩ := Parser.isBlock_of_isClean hclean
  have hagrees := (hblock.leads hout ⟨.empty, input, output⟩ rfl).1 moment hmoment e he
    identifier hmem
  constructor
  · intro hnone
    rw [hnone, Option.none_or] at hagrees
    refine ⟨hagrees, ?_, fun value heval => ?_⟩
    · rw [hagrees]
      simp [Store.types, Store.typeOf?, Store.contains]
    · rw [hagrees]
      rw [Expr.eval, Store.lookup] at heval
      cases hget : moment.machine.store.get? identifier.name with
      | none =>
        rw [hget] at heval
        cases heval
      | some bound =>
        rw [hget] at heval
        cases heval
        rw [Store.types, Store.typeOf?, hget]
        rfl
  · intro ty hty
    rw [hagrees, hty, Option.some_or]

/-- The exception is needed: here both operands of the sum are tagged as text, and are numbers. -/
theorem tag_of_redeclared_name :
    let parsed := parseText "var x : int := 5; var x : string := x + x;"
    parsed.isClean = true ∧ Block.declaresOutsideLoops parsed.program.statements = true ∧
      ∃ moment ∈ parsed.program.moments (.initial .empty), ∃ e ∈ moment.step.expr?,
        ∃ identifier ∈ e.mentions,
          identifier.ty ≠ moment.machine.store.typeOf? identifier.name := by
  decide +kernel

/-- A name that changes its type in front of a loop and behind it, and one that is never bound. -/
theorem tags_eq_types_around_loop :
    let source := "var x : int; for x in 1..2 do print x; end for; var x : string; print x + y;"
    (parseText source).isClean = true ∧
      Block.declaresOutsideLoops (parseText source).program.statements = true ∧
      ∀ moment ∈ (parseText source).program.moments ⟨.empty, .empty, {}⟩,
        ∀ e, moment.step.expr? = some e → ∀ identifier ∈ e.mentions,
          (moment.step.declares? identifier.name = none →
            identifier.ty = moment.machine.store.typeOf? identifier.name ∧
            (identifier.ty = none ↔ moment.machine.store.contains identifier.name = false) ∧
            ∀ value, (Expr.var identifier).eval moment.machine.store = .ok value →
              identifier.ty = some value.ty) ∧
          ∀ ty, moment.step.declares? identifier.name = some ty → identifier.ty = some ty := by
  intro source
  have hclean : (parseText source).isClean = true := by decide +kernel
  have hout : Block.declaresOutsideLoops (parseText source).program.statements = true := by
    decide +kernel
  exact ⟨hclean, hout, tags_eq_types_of_declaresOutsideLoops source .empty {} hclean hout⟩

end MiniPL
