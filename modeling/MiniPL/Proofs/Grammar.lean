import MiniPL.Syntax
import MiniPL.Text.Decimal
import MiniPL.Token

/-!
# The grammar of the language

The grammar as derivations of trees from token lists.  Where the grammar says `X*`, the operators of
a level group to the left.  An integer literal has to be at most 2147483647.

    Program   := Statement*
    Statement := "var" ID ":" type [":=" Expr] ";"
               | ID ":=" Expr ";"
               | "for" ID "in" Expr ".." Expr "do" Statement* "end" "for" ";"
               | "print" Expr ";"
               | "read" ID ";"
               | "assert" "(" Expr ")" ";"
    Expr      := Term (("+" | "-") Term)*
    Term      := Factor (("*" | "/" | "<" | "&" | "=") Factor)*
    Factor    := INT | STRING | BOOL | ID | "(" Expr ")" | "!" Factor

A derivation also says which types the variables have: a table of the types known in front goes
through the statements in the order of the text, and each declaration adds to it, already for its
own initial value.

Definitions: `Grammar.Derives` for expressions, `Grammar.IsSimple`, `Grammar.IsHeader`,
`Grammar.IsBlock` and `Grammar.IsStatement` for statements, and `Grammar.IsProgram`;
`Block.untagged` and `Block.bare` forget the type tags, and the places, of a tree.
-/

namespace MiniPL

/-- The kind of the sign of an operator. -/
def BinaryOp.sign : BinaryOp → TokenKind
  | add => .plus
  | sub => .minus
  | mul => .star
  | div => .slash
  | less => .less
  | equal => .equal
  | and => .and

/-- Whether an operator binds loosely. -/
def BinaryOp.additive : BinaryOp → Bool
  | add | sub => true
  | _ => false

/-- The keyword that names a type. -/
def ValueType.keyword : ValueType → Keyword
  | int => .int
  | string => .string
  | bool => .bool

/-- Whether a token of this kind stands inside of a statement: it ends none, and is neither in front
of the body of a loop nor behind it. -/
def TokenKind.isInner : TokenKind → Bool
  | .semicolon | .keyword .for | .keyword .do | .keyword .end | .unknown | .eof => false
  | _ => true

/-- The number that the lexeme of an integer literal writes. -/
def Token.number? (token : Token) : Option Nat :=
  Text.Decimal.natural? token.lexeme.toList

/-- The variable that a token mentions. -/
def Token.mention (token : Token) (types : TypeTable) : Identifier :=
  ⟨token.lexeme, types token.lexeme, token.position⟩

/-! ### Trees up to tags and places -/

/-- A mention with its type tag and its place changed. -/
def Identifier.relabel (tag : Option ValueType → Option ValueType) (place : Position → Position)
    (identifier : Identifier) : Identifier :=
  ⟨identifier.name, tag identifier.ty, place identifier.position⟩

/-- An expression with its type tags and its places changed. -/
def Expr.relabel (tag : Option ValueType → Option ValueType) (place : Position → Position) :
    Expr → Expr
  | .int value => .int value
  | .string value => .string value
  | .bool value => .bool value
  | .var identifier => .var (identifier.relabel tag place)
  | .not operand position => .not (operand.relabel tag place) (place position)
  | .binary op left right position =>
    .binary op (left.relabel tag place) (right.relabel tag place) (place position)

mutual

/-- A statement with its type tags and its places changed. -/
def Statement.relabel (tag : Option ValueType → Option ValueType) (place : Position → Position) :
    Statement → Statement
  | .declaration name position ty initializer =>
    .declaration name (place position) ty (initializer.map (Expr.relabel tag place))
  | .assignment target value => .assignment (target.relabel tag place) (value.relabel tag place)
  | .loop counter start stop body =>
    .loop (counter.relabel tag place) (start.relabel tag place) (stop.relabel tag place)
      (Block.relabel tag place body)
  | .print value position => .print (value.relabel tag place) (place position)
  | .read target => .read (target.relabel tag place)
  | .assert condition position => .assert (condition.relabel tag place) (place position)

/-- The statements of a block with their type tags and their places changed. -/
def Block.relabel (tag : Option ValueType → Option ValueType) (place : Position → Position) :
    Block → Block
  | [] => []
  | statement :: rest => statement.relabel tag place :: Block.relabel tag place rest

end

/-- An expression without its type tags and places. -/
def Expr.bare (e : Expr) : Expr := e.relabel (fun _ => none) fun _ => .unknown

/-- A statement without its type tags and places. -/
def Statement.bare (v : Statement) : Statement := v.relabel (fun _ => none) fun _ => .unknown

/-- An expression without its type tags. -/
def Expr.untagged (e : Expr) : Expr := e.relabel (fun _ => none) id

theorem Expr.untagged_binary (op : BinaryOp) (position : Position) {l l' r r' : Expr}
    (hl : l'.untagged = l.untagged) (hr : r'.untagged = r.untagged) :
    (binary op l' r' position).untagged = (binary op l r position).untagged := by
  show binary op l'.untagged r'.untagged position = _
  rw [hl, hr]
  rfl

/-- A statement without its type tags. -/
def Statement.untagged (v : Statement) : Statement := v.relabel (fun _ => none) id

/-- A block without its type tags. -/
def Block.untagged (b : Block) : Block := b.relabel (fun _ => none) id

/-- A block without its type tags and places. -/
def Block.bare (b : Block) : Block := b.relabel (fun _ => none) fun _ => .unknown

namespace Grammar

/-! ### Expressions -/

/-- The phrases that expressions are made of. -/
inductive Phrase
  | expr
  | term
  | factor
  deriving DecidableEq

/-- `Derives types phrase tokens e`: the tokens are a phrase with the tree `e`. -/
inductive Derives (types : TypeTable) : Phrase → List Token → Expr → Prop
  | term {tokens : List Token} {e : Expr} (h : Derives types .term tokens e) :
    Derives types .expr tokens e
  | sum {op : BinaryOp} {sign : Token} {left right : List Token} {l r : Expr}
    (hop : op.additive = true) (hsign : sign.kind = op.sign)
    (hleft : Derives types .expr left l) (hright : Derives types .term right r) :
    Derives types .expr (left ++ sign :: right) (.binary op l r sign.position)
  | factor {tokens : List Token} {e : Expr} (h : Derives types .factor tokens e) :
    Derives types .term tokens e
  | product {op : BinaryOp} {sign : Token} {left right : List Token} {l r : Expr}
    (hop : op.additive = false) (hsign : sign.kind = op.sign)
    (hleft : Derives types .term left l) (hright : Derives types .factor right r) :
    Derives types .term (left ++ sign :: right) (.binary op l r sign.position)
  | int {token : Token} {n : Nat} (hkind : token.kind = .intLiteral)
    (hnumber : token.number? = some n) (hle : n ≤ 2147483647) :
    Derives types .factor [token] (.int (Int32.ofNat n))
  | string {token : Token} (hkind : token.kind = .stringLiteral) :
    Derives types .factor [token] (.string token.lexeme)
  | bool {token : Token} (hkind : token.kind = .boolLiteral) :
    Derives types .factor [token] (.bool (token.lexeme == "true"))
  | var {token : Token} (hkind : token.kind = .identifier) :
    Derives types .factor [token] (.var (token.mention types))
  | parens {opening closing : Token} {tokens : List Token} {e : Expr}
    (hopening : opening.kind = .leftParen) (h : Derives types .expr tokens e)
    (hclosing : closing.kind = .rightParen) :
    Derives types .factor (opening :: tokens ++ [closing]) e
  | not {sign : Token} {tokens : List Token} {e : Expr} (hsign : sign.kind = .not)
    (h : Derives types .factor tokens e) :
    Derives types .factor (sign :: tokens) (.not e sign.position)

/-- A factor is a phrase of every kind. -/
theorem Derives.ofFactor {types : TypeTable} {tokens : List Token} {e : Expr}
    (h : Derives types .factor tokens e) (phrase : Phrase) : Derives types phrase tokens e := by
  cases phrase with
  | expr => exact .term (.factor h)
  | term => exact .factor h
  | factor => exact h

/-! ### Statements -/

/-- `IsSimple types tokens statement types'`: the tokens are a statement without a body, through its
`;`; the tables hold the types known in front and behind. -/
inductive IsSimple (types : TypeTable) : List Token → Statement → TypeTable → Prop
  | declaration {var name colon typeName semicolon : Token} {ty : ValueType}
    (hvar : var.kind = .keyword .var) (hname : name.kind = .identifier)
    (hcolon : colon.kind = .colon) (htype : typeName.kind = .keyword ty.keyword)
    (hsemicolon : semicolon.kind = .semicolon) :
    IsSimple types [var, name, colon, typeName, semicolon]
      (.declaration name.lexeme name.position ty none) (types.declare name.lexeme ty)
  | initialized {var name colon typeName assign semicolon : Token} {ty : ValueType}
    {tokens : List Token} {e : Expr}
    (hvar : var.kind = .keyword .var) (hname : name.kind = .identifier)
    (hcolon : colon.kind = .colon) (htype : typeName.kind = .keyword ty.keyword)
    (hassign : assign.kind = .assign)
    (h : Derives (types.declare name.lexeme ty) .expr tokens e)
    (hsemicolon : semicolon.kind = .semicolon) :
    IsSimple types (var :: name :: colon :: typeName :: assign :: tokens ++ [semicolon])
      (.declaration name.lexeme name.position ty (some e)) (types.declare name.lexeme ty)
  | assignment {name assign semicolon : Token} {tokens : List Token} {e : Expr}
    (hname : name.kind = .identifier) (hassign : assign.kind = .assign)
    (h : Derives types .expr tokens e) (hsemicolon : semicolon.kind = .semicolon) :
    IsSimple types (name :: assign :: tokens ++ [semicolon])
      (.assignment (name.mention types) e) types
  | print {print semicolon : Token} {tokens : List Token} {e : Expr}
    (hprint : print.kind = .keyword .print) (h : Derives types .expr tokens e)
    (hsemicolon : semicolon.kind = .semicolon) :
    IsSimple types (print :: tokens ++ [semicolon]) (.print e print.position) types
  | read {read name semicolon : Token} (hread : read.kind = .keyword .read)
    (hname : name.kind = .identifier) (hsemicolon : semicolon.kind = .semicolon) :
    IsSimple types [read, name, semicolon] (.read (name.mention types)) types
  | assert {assert opening closing semicolon : Token} {tokens : List Token} {e : Expr}
    (hassert : assert.kind = .keyword .assert) (hopening : opening.kind = .leftParen)
    (h : Derives types .expr tokens e) (hclosing : closing.kind = .rightParen)
    (hsemicolon : semicolon.kind = .semicolon) :
    IsSimple types (assert :: opening :: tokens ++ [closing, semicolon])
      (.assert e assert.position) types

/-- `IsHeader types tokens counter start stop`: the tokens are what stands between the `for` of a
loop and its body. -/
inductive IsHeader (types : TypeTable) : List Token → Identifier → Expr → Expr → Prop
  | mk {name within range «do» : Token} {first last : List Token} {start stop : Expr}
    (hname : name.kind = .identifier) (hin : within.kind = .keyword .in)
    (hstart : Derives types .expr first start) (hrange : range.kind = .range)
    (hstop : Derives types .expr last stop) (hdo : «do».kind = .keyword .do) :
    IsHeader types (name :: within :: first ++ range :: last ++ [«do»]) (name.mention types)
      start stop

/-- `IsEnd tokens`: the tokens are `end for ;`. -/
inductive IsEnd : List Token → Prop
  | mk {«end» «for» semicolon : Token} (hend : «end».kind = .keyword .end)
    (hfor : «for».kind = .keyword .for) (hsemicolon : semicolon.kind = .semicolon) :
    IsEnd [«end», «for», semicolon]

/-- `IsBlock types tokens block types'`: the tokens are statements one after another, and the
statements of the block are theirs, in the same order at every level of nesting. -/
inductive IsBlock : TypeTable → List Token → Block → TypeTable → Prop
  | nil {types : TypeTable} : IsBlock types [] [] types
  | simple {types types' types'' : TypeTable} {tokens rest : List Token} {statement : Statement}
    {block : Block} (h : IsSimple types tokens statement types')
    (hrest : IsBlock types' rest block types'') :
    IsBlock types (tokens ++ rest) (statement :: block) types''
  | loop {types types' types'' : TypeTable} {«for» : Token} {header inner ending rest : List Token}
    {counter : Identifier} {start stop : Expr} {body block : Block}
    (hfor : «for».kind = .keyword .for) (hheader : IsHeader types header counter start stop)
    (hbody : IsBlock types inner body types') (hend : IsEnd ending)
    (hrest : IsBlock types' rest block types'') :
    IsBlock types («for» :: header ++ inner ++ ending ++ rest)
      (.loop counter start stop body :: block) types''

/-- `IsStatement types tokens statement types'`: the tokens are one statement. -/
def IsStatement (types : TypeTable) (tokens : List Token) (statement : Statement)
    (types' : TypeTable) : Prop :=
  IsBlock types tokens [statement] types'

/-- `IsProgram tokens block`: the tokens are a program with these statements. -/
def IsProgram (tokens : List Token) (block : Block) : Prop :=
  ∃ types, IsBlock .empty tokens block types

/-! ### Where the tokens that hold statements together stand -/

theorem kind_ne_of_isInner {token : Token} {kind : TokenKind} (h : token.kind.isInner = true)
    (hkind : kind.isInner = false) : token.kind ≠ kind := by
  rintro rfl
  rw [h] at hkind
  cases hkind

theorem isInner_sign (op : BinaryOp) : TokenKind.isInner op.sign = true := by
  cases op <;> rfl

theorem sign_ne_of_isInner (op : BinaryOp) {kind : TokenKind} (hkind : kind.isInner = false) :
    op.sign ≠ kind := by
  rintro rfl
  rw [isInner_sign] at hkind
  cases hkind

theorem Derives.isInner {types : TypeTable} {phrase : Phrase} {tokens : List Token} {e : Expr}
    (h : Derives types phrase tokens e) : ∀ token ∈ tokens, token.kind.isInner = true := by
  induction h with
  | term _ ih | factor _ ih => exact ih
  | sum _ hsign _ _ ihleft ihright | product _ hsign _ _ ihleft ihright =>
    exact List.forall_mem_append.2
      ⟨ihleft, List.forall_mem_cons.2 ⟨hsign ▸ isInner_sign _, ihright⟩⟩
  | int hkind | string hkind | bool hkind | var hkind => simp [hkind, TokenKind.isInner]
  | parens hopening _ hclosing ih =>
    simpa [hopening, hclosing, or_imp, forall_and, TokenKind.isInner] using ih
  | not hsign _ ih => simpa [hsign, TokenKind.isInner] using ih

/-- A statement without a body has its only `;` at its end. -/
theorem IsSimple.exists_inner {types types' : TypeTable} {tokens : List Token} {v : Statement}
    (h : IsSimple types tokens v types') :
    ∃ body semicolon, tokens = body ++ [semicolon] ∧ semicolon.kind = .semicolon ∧
      ∀ token ∈ body, token.kind.isInner = true := by
  cases h with
  | @declaration var name colon typeName semicolon ty hvar hname hcolon htype hsemicolon =>
    refine ⟨[var, name, colon, typeName], semicolon, rfl, hsemicolon, ?_⟩
    have hkeyword : TokenKind.isInner (.keyword ty.keyword) = true := by cases ty <;> rfl
    simp only [List.forall_mem_cons, hvar, hname, hcolon, htype, hkeyword]
    exact ⟨rfl, rfl, rfl, trivial, fun _ hmem => nomatch hmem⟩
  | @initialized var name colon typeName assign semicolon ty tokens _ hvar hname hcolon htype
      hassign h hsemicolon =>
    refine ⟨var :: name :: colon :: typeName :: assign :: tokens, semicolon, rfl, hsemicolon, ?_⟩
    have hkeyword : TokenKind.isInner (.keyword ty.keyword) = true := by cases ty <;> rfl
    simp only [List.forall_mem_cons, hvar, hname, hcolon, htype, hassign, hkeyword]
    exact ⟨rfl, rfl, rfl, trivial, rfl, h.isInner⟩
  | @assignment name assign semicolon tokens _ hname hassign h hsemicolon =>
    refine ⟨name :: assign :: tokens, semicolon, rfl, hsemicolon, ?_⟩
    simp only [List.forall_mem_cons, hname, hassign]
    exact ⟨rfl, rfl, h.isInner⟩
  | @print print semicolon tokens _ hprint h hsemicolon =>
    refine ⟨print :: tokens, semicolon, rfl, hsemicolon, ?_⟩
    simp only [List.forall_mem_cons, hprint]
    exact ⟨rfl, h.isInner⟩
  | @read read name semicolon hread hname hsemicolon =>
    refine ⟨[read, name], semicolon, rfl, hsemicolon, ?_⟩
    simp only [List.forall_mem_cons, hread, hname]
    exact ⟨rfl, rfl, fun _ hmem => nomatch hmem⟩
  | @assert assert opening closing semicolon tokens _ hassert hopening h hclosing hsemicolon =>
    refine ⟨assert :: opening :: tokens ++ [closing], semicolon, by simp, hsemicolon, ?_⟩
    simp only [List.cons_append, List.forall_mem_cons, List.forall_mem_append, hassert, hopening,
      hclosing]
    exact ⟨rfl, rfl, h.isInner, rfl, fun _ hmem => nomatch hmem⟩

theorem IsSimple.kind_ne {types types' : TypeTable} {tokens : List Token} {v : Statement}
    {kind : TokenKind} (h : IsSimple types tokens v types') (hkind : kind.isInner = false)
    (hsemicolon : kind ≠ .semicolon) : ∀ token ∈ tokens, token.kind ≠ kind := by
  obtain ⟨body, semicolon, rfl, hlast, hinner⟩ := h.exists_inner
  refine List.forall_mem_append.2 ⟨fun token hmem => ?_, ?_⟩
  · exact kind_ne_of_isInner (hinner token hmem) hkind
  · rw [List.forall_mem_singleton, hlast]
    exact hsemicolon.symm

/-- The header of a loop has its only `do` at its end. -/
theorem IsHeader.exists_inner {types : TypeTable} {tokens : List Token} {counter : Identifier}
    {start stop : Expr} (h : IsHeader types tokens counter start stop) :
    ∃ body «do», tokens = body ++ [«do»] ∧ «do».kind = .keyword .do ∧
      ∀ token ∈ body, token.kind.isInner = true := by
  cases h with
  | @mk name within range «do» first last _ _ hname hin hstart hrange hstop hdo =>
    refine ⟨name :: within :: first ++ range :: last, «do», by simp, hdo, ?_⟩
    simp only [List.cons_append, List.forall_mem_cons, List.forall_mem_append, hname, hin, hrange]
    exact ⟨rfl, rfl, hstart.isInner, rfl, hstop.isInner⟩

/-- Only four kinds of tokens that hold statements together are in a block. -/
theorem IsBlock.kind_ne {types types' : TypeTable} {tokens : List Token} {b : Block}
    {kind : TokenKind} (h : IsBlock types tokens b types') (hkind : kind.isInner = false)
    (hne : ∀ outer ∈ [.semicolon, .keyword .for, .keyword .do, .keyword .end], outer ≠ kind) :
    ∀ token ∈ tokens, token.kind ≠ kind := by
  simp only [List.forall_mem_cons] at hne
  obtain ⟨hsemicolon, hfor, hdo, hend, -⟩ := hne
  induction h with
  | nil => exact List.forall_mem_nil _
  | simple h _ ih => exact List.forall_mem_append.2 ⟨h.kind_ne hkind hsemicolon.symm, ih⟩
  | loop hfor' hheader _ hend' _ ihbody ih =>
    obtain ⟨inner, «do», rfl, hdo', hinner⟩ := hheader.exists_inner
    have hplain : ∀ token ∈ inner, token.kind ≠ kind :=
      fun token hmem => kind_ne_of_isInner (hinner token hmem) hkind
    cases hend' with
    | mk hend' hfor'' hsemicolon' =>
      simp only [List.cons_append, List.forall_mem_cons, List.forall_mem_append, hfor', hdo', hend',
        hfor'', hsemicolon']
      exact ⟨hfor, ⟨⟨⟨hplain, hdo, List.forall_mem_nil _⟩, ihbody⟩, hend, hfor, hsemicolon,
        List.forall_mem_nil _⟩, ih⟩

theorem IsBlock.kind_ne_eof {types types' : TypeTable} {tokens : List Token} {b : Block}
    (h : IsBlock types tokens b types') : ∀ token ∈ tokens, token.kind ≠ .eof :=
  h.kind_ne rfl (by decide)

/-- Blocks one after another are a block. -/
theorem IsBlock.append {types types' types'' : TypeTable} {tokens tokens' : List Token}
    {b b' : Block} (h : IsBlock types tokens b types') (h' : IsBlock types' tokens' b' types'') :
    IsBlock types (tokens ++ tokens') (b ++ b') types'' := by
  induction h with
  | nil => exact h'
  | simple h _ ih =>
    rw [List.append_assoc]
    exact .simple h (ih h')
  | loop hfor hheader hbody hend _ _ ih =>
    rw [List.append_assoc]
    exact .loop hfor hheader hbody hend (ih h')

/-! ### The types known in front only tag the tree -/

theorem Derives.retype {types : TypeTable} {phrase : Phrase} {tokens : List Token} {e : Expr}
    (h : Derives types phrase tokens e) (types' : TypeTable) :
    ∃ e', Derives types' phrase tokens e' ∧ e'.untagged = e.untagged := by
  induction h with
  | term _ ih =>
    obtain ⟨e', hderives, huntagged⟩ := ih
    exact ⟨e', .term hderives, huntagged⟩
  | factor _ ih =>
    obtain ⟨e', hderives, huntagged⟩ := ih
    exact ⟨e', .factor hderives, huntagged⟩
  | @sum op sign _ _ _ _ hop hsign _ _ ihleft ihright =>
    obtain ⟨l', hleft, hl⟩ := ihleft
    obtain ⟨r', hright, hr⟩ := ihright
    exact ⟨_, .sum hop hsign hleft hright, Expr.untagged_binary op sign.position hl hr⟩
  | @product op sign _ _ _ _ hop hsign _ _ ihleft ihright =>
    obtain ⟨l', hleft, hl⟩ := ihleft
    obtain ⟨r', hright, hr⟩ := ihright
    exact ⟨_, .product hop hsign hleft hright, Expr.untagged_binary op sign.position hl hr⟩
  | int hkind hnumber hle => exact ⟨_, .int hkind hnumber hle, rfl⟩
  | string hkind => exact ⟨_, .string hkind, rfl⟩
  | bool hkind => exact ⟨_, .bool hkind, rfl⟩
  | var hkind => exact ⟨_, .var hkind, rfl⟩
  | parens hopening _ hclosing ih =>
    obtain ⟨e', hderives, huntagged⟩ := ih
    exact ⟨e', .parens hopening hderives hclosing, huntagged⟩
  | @not sign _ _ hsign _ ih =>
    obtain ⟨e', hderives, huntagged⟩ := ih
    exact ⟨_, .not hsign hderives, congrArg (Expr.not · sign.position) huntagged⟩

theorem IsSimple.retype {types types₁ : TypeTable} {tokens : List Token} {v : Statement}
    (h : IsSimple types tokens v types₁) (types' : TypeTable) :
    ∃ v' types₁', IsSimple types' tokens v' types₁' ∧ v'.untagged = v.untagged := by
  cases h with
  | declaration hvar hname hcolon htype hsemicolon =>
    exact ⟨_, _, .declaration hvar hname hcolon htype hsemicolon, rfl⟩
  | @initialized _ name _ _ _ _ ty _ _ hvar hname hcolon htype hassign h hsemicolon =>
    obtain ⟨e', hderives, he⟩ := h.retype (types'.declare name.lexeme ty)
    refine ⟨_, _, .initialized hvar hname hcolon htype hassign hderives hsemicolon, ?_⟩
    exact congrArg (fun e => Statement.declaration name.lexeme name.position ty (some e)) he
  | @assignment name _ _ _ _ hname hassign h hsemicolon =>
    obtain ⟨e', hderives, he⟩ := h.retype types'
    refine ⟨_, _, .assignment hname hassign hderives hsemicolon, ?_⟩
    exact congrArg (Statement.assignment ⟨name.lexeme, none, name.position⟩ ·) he
  | @print print _ _ _ hprint h hsemicolon =>
    obtain ⟨e', hderives, he⟩ := h.retype types'
    exact ⟨_, _, .print hprint hderives hsemicolon, congrArg (Statement.print · print.position) he⟩
  | read hread hname hsemicolon => exact ⟨_, _, .read hread hname hsemicolon, rfl⟩
  | @assert assert _ _ _ _ _ hassert hopening h hclosing hsemicolon =>
    obtain ⟨e', hderives, he⟩ := h.retype types'
    exact ⟨_, _, .assert hassert hopening hderives hclosing hsemicolon,
      congrArg (Statement.assert · assert.position) he⟩

theorem IsHeader.retype {types : TypeTable} {tokens : List Token} {counter : Identifier}
    {start stop : Expr} (h : IsHeader types tokens counter start stop) (types' : TypeTable) :
    ∃ counter' start' stop', IsHeader types' tokens counter' start' stop' ∧
      counter'.relabel (fun _ => none) id = counter.relabel (fun _ => none) id ∧
      start'.untagged = start.untagged ∧ stop'.untagged = stop.untagged := by
  cases h with
  | mk hname hin hstart hrange hstop hdo =>
    obtain ⟨start', hderives, hs⟩ := hstart.retype types'
    obtain ⟨stop', hderives', ht⟩ := hstop.retype types'
    exact ⟨_, start', stop', .mk hname hin hderives hrange hderives' hdo, rfl, hs, ht⟩

theorem IsBlock.retype {types types₁ : TypeTable} {tokens : List Token} {b : Block}
    (h : IsBlock types tokens b types₁) (types' : TypeTable) :
    ∃ b' types₁', IsBlock types' tokens b' types₁' ∧ b'.untagged = b.untagged := by
  induction h generalizing types' with
  | nil => exact ⟨[], types', .nil, rfl⟩
  | simple h _ ih =>
    obtain ⟨v', types₁', hsimple, hv⟩ := h.retype types'
    obtain ⟨b', types₂', hblock, hb⟩ := ih types₁'
    refine ⟨v' :: b', types₂', .simple hsimple hblock, ?_⟩
    show v'.untagged :: b'.untagged = _
    rw [hv, hb]
    rfl
  | loop hfor hheader _ hend _ ihbody ih =>
    obtain ⟨counter', start', stop', hheader', hc, hs, ht⟩ := hheader.retype types'
    obtain ⟨body', types₁', hbody', hb⟩ := ihbody types'
    obtain ⟨b', types₂', hblock, hrest⟩ := ih types₁'
    refine ⟨.loop counter' start' stop' body' :: b', types₂',
      .loop hfor hheader' hbody' hend hblock, ?_⟩
    show Statement.loop (counter'.relabel _ id) start'.untagged stop'.untagged body'.untagged ::
      b'.untagged = _
    rw [hc, hs, ht, hb, hrest]
    rfl

end Grammar

end MiniPL
