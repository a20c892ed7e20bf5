import MiniPL.Proofs.Sentences

/-!
# Printing and parsing

Every tree whose integer literals are not negative is written by some list of tokens, with
parentheses where the two levels of operators need them and anywhere else as well; and every such
list is read as the same tree, up to type tags and places.

Main statement: `bare_parse_of_writes`.  The notions are `Slot.needsParens`, which tells where
parentheses are needed, `Grammar.Writes` for expressions and `Grammar.WritesBlock` for statements.
-/

namespace MiniPL

/-! ### Places of expressions -/

/-- Where an expression stands. -/
inductive Slot
  /-- In a statement, or between parentheses. -/
  | whole
  | leftOfLoose
  | rightOfLoose
  | leftOfTight
  | rightOfTight
  /-- Behind `!`. -/
  | negated
  deriving DecidableEq, Repr

/-- Whether an expression needs parentheses where it stands. -/
def Slot.needsParens : Slot → Expr → Bool
  | rightOfLoose, .binary op _ _ _ | leftOfTight, .binary op _ _ _ => op.additive
  | rightOfTight, .binary _ _ _ _ | negated, .binary _ _ _ _ => true
  | _, _ => false

/-- The phrase that an expression has to be where it stands. -/
def Slot.phrase : Slot → Grammar.Phrase
  | whole | leftOfLoose => .expr
  | rightOfLoose | leftOfTight => .term
  | rightOfTight | negated => .factor

/-- Where the left operand of an operator stands. -/
def BinaryOp.leftSlot (op : BinaryOp) : Slot :=
  if op.additive then .leftOfLoose else .leftOfTight

/-- Where the right operand of an operator stands. -/
def BinaryOp.rightSlot (op : BinaryOp) : Slot :=
  if op.additive then .rightOfLoose else .rightOfTight

/-! ### Trees without negative literals -/

/-- No integer literal is negative. -/
def Expr.Nonneg : Expr → Prop
  | .int value => 0 ≤ value.toInt
  | .not operand _ => operand.Nonneg
  | .binary _ left right _ => left.Nonneg ∧ right.Nonneg
  | _ => True

mutual

/-- No integer literal of a statement is negative. -/
def Statement.Nonneg : Statement → Prop
  | .declaration _ _ _ (some value) => value.Nonneg
  | .assignment _ value => value.Nonneg
  | .loop _ start stop body => start.Nonneg ∧ stop.Nonneg ∧ Block.Nonneg body
  | .print value _ => value.Nonneg
  | .assert condition _ => condition.Nonneg
  | _ => True

/-- No integer literal of a block is negative. -/
def Block.Nonneg : Block → Prop
  | [] => True
  | statement :: rest => statement.Nonneg ∧ Block.Nonneg rest

end

namespace Grammar

/-! ### Written trees -/

/-- `Writes slot tokens e`: the tokens write the expression where it stands. -/
inductive Writes : Slot → List Token → Expr → Prop
  | parens {slot : Slot} {opening closing : Token} {tokens : List Token} {e : Expr}
    (hopening : opening.kind = .leftParen) (h : Writes .whole tokens e)
    (hclosing : closing.kind = .rightParen) : Writes slot (opening :: tokens ++ [closing]) e
  | int {slot : Slot} {token : Token} {n : Nat} {value : Int32} (hkind : token.kind = .intLiteral)
    (hnumber : token.number? = some n) (hvalue : value.toInt = n) :
    Writes slot [token] (.int value)
  | string {slot : Slot} {token : Token} (hkind : token.kind = .stringLiteral) :
    Writes slot [token] (.string token.lexeme)
  | bool {slot : Slot} {token : Token} {value : Bool} (hkind : token.kind = .boolLiteral)
    (hlexeme : token.lexeme = if value then "true" else "false") :
    Writes slot [token] (.bool value)
  | var {slot : Slot} {token : Token} {identifier : Identifier} (hkind : token.kind = .identifier)
    (hlexeme : token.lexeme = identifier.name) : Writes slot [token] (.var identifier)
  | not {slot : Slot} {sign : Token} {tokens : List Token} {e : Expr} {position : Position}
    (hsign : sign.kind = .not) (h : Writes .negated tokens e) :
    Writes slot (sign :: tokens) (.not e position)
  | binary {slot : Slot} {op : BinaryOp} {sign : Token} {left right : List Token} {l r : Expr}
    {position : Position} (hslot : slot.needsParens (.binary op l r position) = false)
    (hsign : sign.kind = op.sign) (hleft : Writes op.leftSlot left l)
    (hright : Writes op.rightSlot right r) :
    Writes slot (left ++ sign :: right) (.binary op l r position)

/-- `WritesSimple tokens statement`: the tokens write a statement without a body. -/
inductive WritesSimple : List Token → Statement → Prop
  | declaration {var name colon typeName semicolon : Token} {ty : ValueType} {position : Position}
    (hvar : var.kind = .keyword .var) (hname : name.kind = .identifier)
    (hcolon : colon.kind = .colon) (htype : typeName.kind = .keyword ty.keyword)
    (hsemicolon : semicolon.kind = .semicolon) :
    WritesSimple [var, name, colon, typeName, semicolon]
      (.declaration name.lexeme position ty none)
  | initialized {var name colon typeName assign semicolon : Token} {ty : ValueType}
    {position : Position} {tokens : List Token} {e : Expr}
    (hvar : var.kind = .keyword .var) (hname : name.kind = .identifier)
    (hcolon : colon.kind = .colon) (htype : typeName.kind = .keyword ty.keyword)
    (hassign : assign.kind = .assign) (h : Writes .whole tokens e)
    (hsemicolon : semicolon.kind = .semicolon) :
    WritesSimple (var :: name :: colon :: typeName :: assign :: tokens ++ [semicolon])
      (.declaration name.lexeme position ty (some e))
  | assignment {name assign semicolon : Token} {target : Identifier} {tokens : List Token}
    {e : Expr} (hname : name.kind = .identifier) (hlexeme : name.lexeme = target.name)
    (hassign : assign.kind = .assign) (h : Writes .whole tokens e)
    (hsemicolon : semicolon.kind = .semicolon) :
    WritesSimple (name :: assign :: tokens ++ [semicolon]) (.assignment target e)
  | print {print semicolon : Token} {tokens : List Token} {e : Expr} {position : Position}
    (hprint : print.kind = .keyword .print) (h : Writes .whole tokens e)
    (hsemicolon : semicolon.kind = .semicolon) :
    WritesSimple (print :: tokens ++ [semicolon]) (.print e position)
  | read {read name semicolon : Token} {target : Identifier} (hread : read.kind = .keyword .read)
    (hname : name.kind = .identifier) (hlexeme : name.lexeme = target.name)
    (hsemicolon : semicolon.kind = .semicolon) :
    WritesSimple [read, name, semicolon] (.read target)
  | assert {assert opening closing semicolon : Token} {tokens : List Token} {e : Expr}
    {position : Position} (hassert : assert.kind = .keyword .assert)
    (hopening : opening.kind = .leftParen) (h : Writes .whole tokens e)
    (hclosing : closing.kind = .rightParen) (hsemicolon : semicolon.kind = .semicolon) :
    WritesSimple (assert :: opening :: tokens ++ [closing, semicolon]) (.assert e position)

/-- `WritesBlock tokens block`: the tokens write the statements of the block one after another. -/
inductive WritesBlock : List Token → Block → Prop
  | nil : WritesBlock [] []
  | simple {tokens rest : List Token} {statement : Statement} {block : Block}
    (h : WritesSimple tokens statement) (hrest : WritesBlock rest block) :
    WritesBlock (tokens ++ rest) (statement :: block)
  | loop {«for» name within range «do» : Token} {first last inner ending rest : List Token}
    {counter : Identifier} {start stop : Expr} {body block : Block}
    (hfor : «for».kind = .keyword .for) (hname : name.kind = .identifier)
    (hlexeme : name.lexeme = counter.name) (hin : within.kind = .keyword .in)
    (hstart : Writes .whole first start) (hrange : range.kind = .range)
    (hstop : Writes .whole last stop) (hdo : «do».kind = .keyword .do)
    (hbody : WritesBlock inner body) (hend : IsEnd ending) (hrest : WritesBlock rest block) :
    WritesBlock
      («for» :: (name :: within :: first ++ range :: last ++ [«do»]) ++ inner ++ ending ++ rest)
      (.loop counter start stop body :: block)

/-! ### What is written is derived -/

theorem ofNat_of_toInt {value : Int32} {n : Nat} (h : value.toInt = n) :
    Int32.ofNat n = value ∧ n ≤ 2147483647 := by
  have hlt : value.toInt < 2147483648 := value.toInt_lt
  refine ⟨?_, by omega⟩
  rw [← Int32.ofInt_eq_ofNat, ← h, Int32.ofInt_toInt]

/-- What is written where an expression stands is a phrase of the kind that has to stand there. -/
theorem derives_of_writes {slot : Slot} {tokens : List Token} {e : Expr}
    (h : Writes slot tokens e) (types : TypeTable) :
    ∃ e', Derives types slot.phrase tokens e' ∧ e'.bare = e.bare := by
  induction h with
  | parens hopening _ hclosing ih =>
    obtain ⟨e', hderives, hbare⟩ := ih
    exact ⟨e', (Derives.parens hopening hderives hclosing).ofFactor _, hbare⟩
  | int hkind hnumber hvalue =>
    obtain ⟨hofNat, hle⟩ := ofNat_of_toInt hvalue
    exact ⟨_, (Derives.int hkind hnumber hle).ofFactor _, by rw [hofNat]⟩
  | string hkind => exact ⟨_, (Derives.string hkind).ofFactor _, rfl⟩
  | @bool _ token value hkind hlexeme =>
    refine ⟨_, (Derives.bool hkind).ofFactor _, ?_⟩
    rw [hlexeme]
    cases value <;> rfl
  | var hkind hlexeme =>
    refine ⟨_, (Derives.var hkind).ofFactor _, ?_⟩
    simp only [Expr.bare, Expr.relabel, Identifier.relabel, Token.mention, hlexeme]
  | not hsign _ ih =>
    obtain ⟨e', hderives, hbare⟩ := ih
    refine ⟨_, (Derives.not hsign hderives).ofFactor _, ?_⟩
    exact congrArg (Expr.not · .unknown) hbare
  | @binary slot op sign left right l r position hslot hsign _ _ ihleft ihright =>
    obtain ⟨l', hleft, hl⟩ := ihleft
    obtain ⟨r', hright, hr⟩ := ihright
    have hbare :
        (Expr.binary op l' r' sign.position).bare = (Expr.binary op l r position).bare := by
      show Expr.binary op l'.bare r'.bare .unknown = _
      rw [hl, hr]
      rfl
    refine ⟨_, ?_, hbare⟩
    cases hop : op.additive with
    | true =>
      have hleftSlot : op.leftSlot = .leftOfLoose := if_pos hop
      have hrightSlot : op.rightSlot = .rightOfLoose := if_pos hop
      rw [hleftSlot] at hleft
      rw [hrightSlot] at hright
      have hsum := Derives.sum hop hsign hleft hright
      cases slot with
      | whole | leftOfLoose => exact hsum
      | rightOfLoose | leftOfTight => exact absurd (hop.symm.trans hslot) (by decide)
      | rightOfTight | negated => cases hslot
    | false =>
      have hleftSlot : op.leftSlot = .leftOfTight := if_neg (by rw [hop]; decide)
      have hrightSlot : op.rightSlot = .rightOfTight := if_neg (by rw [hop]; decide)
      rw [hleftSlot] at hleft
      rw [hrightSlot] at hright
      have hproduct := Derives.product hop hsign hleft hright
      cases slot with
      | whole | leftOfLoose => exact .term hproduct
      | rightOfLoose | leftOfTight => exact hproduct
      | rightOfTight | negated => cases hslot

theorem isSimple_of_writes {tokens : List Token} {v : Statement} (h : WritesSimple tokens v)
    (types : TypeTable) : ∃ v' types', IsSimple types tokens v' types' ∧ v'.bare = v.bare := by
  cases h with
  | declaration hvar hname hcolon htype hsemicolon =>
    exact ⟨_, _, .declaration hvar hname hcolon htype hsemicolon, rfl⟩
  | @initialized _ name _ _ _ _ ty _ _ e hvar hname hcolon htype hassign h hsemicolon =>
    obtain ⟨e', hderives, hbare⟩ := derives_of_writes h (types.declare name.lexeme ty)
    refine ⟨_, _, .initialized hvar hname hcolon htype hassign hderives hsemicolon, ?_⟩
    exact congrArg (fun e => Statement.declaration name.lexeme .unknown ty (some e)) hbare
  | @assignment name _ _ target _ e hname hlexeme hassign h hsemicolon =>
    obtain ⟨e', hderives, hbare⟩ := derives_of_writes h types
    refine ⟨_, _, .assignment hname hassign hderives hsemicolon, ?_⟩
    show Statement.assignment ⟨name.lexeme, none, .unknown⟩ e'.bare = _
    rw [hlexeme, hbare]
    rfl
  | print hprint h hsemicolon =>
    obtain ⟨e', hderives, hbare⟩ := derives_of_writes h types
    exact ⟨_, _, .print hprint hderives hsemicolon, congrArg (Statement.print · .unknown) hbare⟩
  | @read _ name _ target hread hname hlexeme hsemicolon =>
    refine ⟨_, _, .read hread hname hsemicolon, ?_⟩
    show Statement.read ⟨name.lexeme, none, .unknown⟩ = _
    rw [hlexeme]
    rfl
  | assert hassert hopening h hclosing hsemicolon =>
    obtain ⟨e', hderives, hbare⟩ := derives_of_writes h types
    exact ⟨_, _, .assert hassert hopening hderives hclosing hsemicolon,
      congrArg (Statement.assert · .unknown) hbare⟩

theorem isBlock_of_writes {tokens : List Token} {b : Block} (h : WritesBlock tokens b)
    (types : TypeTable) : ∃ b' types', IsBlock types tokens b' types' ∧ b'.bare = b.bare := by
  induction h generalizing types with
  | nil => exact ⟨[], types, .nil, rfl⟩
  | simple h _ ih =>
    obtain ⟨v', types', hsimple, hv⟩ := isSimple_of_writes h types
    obtain ⟨b', types'', hblock, hb⟩ := ih types'
    refine ⟨v' :: b', types'', .simple hsimple hblock, ?_⟩
    show v'.bare :: b'.bare = _
    rw [hv, hb]
    rfl
  | @loop _ name _ _ _ _ _ _ _ _ counter start stop body block hfor hname hlexeme hin hstart hrange
      hstop hdo _ hend _ ihbody ih =>
    obtain ⟨start', hderives, hs⟩ := derives_of_writes hstart types
    obtain ⟨stop', hderives', ht⟩ := derives_of_writes hstop types
    obtain ⟨body', types', hisBlock, hbody⟩ := ihbody types
    obtain ⟨b', types'', hblock, hb⟩ := ih types'
    have hheader := IsHeader.mk hname hin hderives hrange hderives' hdo
    refine ⟨_, types'', .loop hfor hheader hisBlock hend hblock, ?_⟩
    show Statement.loop ⟨name.lexeme, none, .unknown⟩ start'.bare stop'.bare body'.bare ::
      b'.bare = _
    rw [hlexeme, hs, ht, hbody, hb]
    rfl

/-! ### Every tree is written -/

/-- Some token of a kind. -/
def sample (kind : TokenKind) : Token := ⟨kind, kind.text, .unknown⟩

/-- The token that names a variable. -/
def nameToken (name : String) : Token := ⟨.identifier, name, .unknown⟩

/-- An expression without negative literals is written in every place. -/
theorem exists_writes {e : Expr} (h : e.Nonneg) (slot : Slot) : ∃ tokens, Writes slot tokens e := by
  induction e generalizing slot with
  | int value =>
    have hvalue : value.toInt = value.toInt.natAbs := by
      have hnonneg : 0 ≤ value.toInt := h
      omega
    have hnumber : Text.Decimal.natural? (String.ofList (Nat.toDigits 10 value.toInt.natAbs)).toList
        = some value.toInt.natAbs := by
      rw [String.toList_ofList, Text.Decimal.natural?_toDigits]
    exact ⟨[⟨.intLiteral, String.ofList (Nat.toDigits 10 value.toInt.natAbs), .unknown⟩],
      .int rfl hnumber hvalue⟩
  | string value => exact ⟨[⟨.stringLiteral, value, .unknown⟩], .string rfl⟩
  | bool value =>
    exact ⟨[⟨.boolLiteral, if value then "true" else "false", .unknown⟩], .bool rfl rfl⟩
  | var identifier => exact ⟨[nameToken identifier.name], .var rfl rfl⟩
  | not operand position ih =>
    obtain ⟨tokens, hwrites⟩ := ih h .negated
    exact ⟨sample .not :: tokens, .not rfl hwrites⟩
  | binary op left right position ihleft ihright =>
    obtain ⟨first, hfirst⟩ := ihleft h.1 op.leftSlot
    obtain ⟨last, hlast⟩ := ihright h.2 op.rightSlot
    have hjoin : ∀ slot : Slot, slot.needsParens (.binary op left right position) = false →
        Writes slot (first ++ sample op.sign :: last) (.binary op left right position) :=
      fun slot hslot => .binary hslot rfl hfirst hlast
    cases hslot : slot.needsParens (.binary op left right position) with
    | false => exact ⟨_, hjoin slot hslot⟩
    | true =>
      have hwhole := hjoin .whole rfl
      exact ⟨sample .leftParen :: _ ++ [sample .rightParen], .parens rfl hwhole rfl⟩

mutual

/-- A statement without negative literals is written in front of everything. -/
theorem exists_writes_cons : (v : Statement) → v.Nonneg →
    ∃ tokens, ∀ rest b, WritesBlock rest b → WritesBlock (tokens ++ rest) (v :: b)
  | .declaration name position ty none, _ =>
    ⟨[sample (.keyword .var), nameToken name, sample .colon, sample (.keyword ty.keyword),
      sample .semicolon], fun _ _ hrest => .simple (.declaration rfl rfl rfl rfl rfl) hrest⟩
  | .declaration name position ty (some value), h => by
    obtain ⟨tokens, hwrites⟩ := exists_writes h .whole
    exact ⟨sample (.keyword .var) :: nameToken name :: sample .colon ::
      sample (.keyword ty.keyword) :: sample .assign :: tokens ++ [sample .semicolon],
      fun _ _ hrest => .simple (.initialized rfl rfl rfl rfl rfl hwrites rfl) hrest⟩
  | .assignment target value, h => by
    obtain ⟨tokens, hwrites⟩ := exists_writes h .whole
    exact ⟨nameToken target.name :: sample .assign :: tokens ++ [sample .semicolon],
      fun _ _ hrest => .simple (.assignment rfl rfl rfl hwrites rfl) hrest⟩
  | .loop counter start stop body, h => by
    obtain ⟨first, hfirst⟩ := exists_writes h.1 .whole
    obtain ⟨last, hlast⟩ := exists_writes h.2.1 .whole
    obtain ⟨inner, hinner⟩ := exists_writesBlock body h.2.2
    have hend : IsEnd [sample (.keyword .end), sample (.keyword .for), sample .semicolon] :=
      .mk rfl rfl rfl
    exact ⟨sample (.keyword .for) :: (nameToken counter.name :: sample (.keyword .in) :: first ++
      sample .range :: last ++ [sample (.keyword .do)]) ++ inner ++ _, fun _ _ hrest =>
      .loop rfl rfl rfl rfl hfirst rfl hlast rfl hinner hend hrest⟩
  | .print value position, h => by
    obtain ⟨tokens, hwrites⟩ := exists_writes h .whole
    exact ⟨sample (.keyword .print) :: tokens ++ [sample .semicolon],
      fun _ _ hrest => .simple (.print rfl hwrites rfl) hrest⟩
  | .read target, _ =>
    ⟨[sample (.keyword .read), nameToken target.name, sample .semicolon],
      fun _ _ hrest => .simple (.read rfl rfl rfl rfl) hrest⟩
  | .assert condition position, h => by
    obtain ⟨tokens, hwrites⟩ := exists_writes h .whole
    exact ⟨sample (.keyword .assert) :: sample .leftParen :: tokens ++
      [sample .rightParen, sample .semicolon],
      fun _ _ hrest => .simple (.assert rfl rfl hwrites rfl rfl) hrest⟩

/-- A block without negative literals is written by some tokens. -/
theorem exists_writesBlock : (b : Block) → b.Nonneg → ∃ tokens, WritesBlock tokens b
  | [], _ => ⟨[], .nil⟩
  | v :: rest, h => by
    obtain ⟨tokens, hcons⟩ := exists_writes_cons v h.1
    obtain ⟨after, hrest⟩ := exists_writesBlock rest h.2
    exact ⟨tokens ++ after, hcons after rest hrest⟩

end

/-! ### Reading what was written -/

/-- Printing and parsing: a tree without negative literals is written by some tokens, and whatever
tokens write it, they are read without a report as the same tree up to type tags and places. -/
theorem bare_parse_of_writes (b : Block) (h : b.Nonneg) (types : TypeTable) :
    (∃ tokens, WritesBlock tokens b) ∧
      ∀ tokens, WritesBlock tokens b →
        (parse tokens types).diagnostics = [] ∧
          (parse tokens types).program.statements.bare = b.bare := by
  refine ⟨exists_writesBlock b h, fun tokens hwrites => ?_⟩
  obtain ⟨b', types', hblock, hbare⟩ := isBlock_of_writes hwrites types
  have hrun := Parser.blockRun_initial_of_isBlock hblock
  have hparse : parse tokens types = parseTokens tokens types :=
    congrArg (parseTokens · types) (TokenStream.drain_list tokens)
  rw [hparse]
  refine ⟨congrArg (fun run => run.2.diagnostics) hrun, ?_⟩
  rw [← hbare]
  exact congrArg (fun run => Block.bare run.1) hrun

/-- `assert(1 - (2 - x) * !3);` is written, and read back from whatever writes it. -/
theorem bare_parse_nested_difference :
    let b : Block := [.assert (.binary .sub (.int 1) (.binary .mul
      (.binary .sub (.int 2) (.var ⟨"x", none, .unknown⟩) .unknown) (.not (.int 3) .unknown)
      .unknown) .unknown) .unknown]
    b.Nonneg ∧ (∃ tokens, WritesBlock tokens b) ∧
      ∀ tokens, WritesBlock tokens b →
        (parse tokens .empty).diagnostics = [] ∧
          (parse tokens .empty).program.statements.bare = b.bare := by
  intro b
  have h : b.Nonneg := by simp [b, Block.Nonneg, Statement.Nonneg, Expr.Nonneg]
  exact ⟨h, bare_parse_of_writes b h .empty⟩

end Grammar
end MiniPL
