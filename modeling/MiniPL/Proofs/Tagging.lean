import Mathlib.Data.List.Induction
import MiniPL.Proofs.KnownTypes
import MiniPL.Proofs.Order

/-!
# Type tags follow the text

While a program is read, the types of its variables are in a table that each declaration changes.
The tags that this table leaves in the tree can be told from the tree alone: an identifier has the
type of the last declaration of its name that stands in front of it in the text, or around it, when
it is in the initial value of that declaration; it does not matter whether the declaration is in a
loop, or ever runs.  Where there is no such declaration, the tag is the type known in front of the
program, if there is one.

The proof relates the tokens of a block to its tree, one piece after another (`Grammar.Tagged`):
what is declared in later tokens is at later places (`Grammar.Tagged.append`).

Main statement: `Parser.tags_follow_declarations`.
-/

namespace MiniPL

/-! ### Places behind one another -/

namespace Position

/-- Whether a place is in front of another. -/
def Before (p q : Position) : Prop :=
  p.line < q.line ∨ p.line = q.line ∧ p.column < q.column

instance (p q : Position) : Decidable (p.Before q) :=
  inferInstanceAs (Decidable (_ ∨ _))

variable {p q r : Position}

theorem Before.precedes (h : p.Before q) : p.Precedes q := by
  unfold Before at h
  unfold Precedes
  omega

theorem Before.not_precedes (h : p.Before q) : ¬ q.Precedes p := by
  unfold Before at h
  unfold Precedes
  omega

theorem Before.trans_precedes (h : p.Before q) (k : q.Precedes r) : p.Before r := by
  unfold Before Precedes at *
  omega

theorem before_advance (p : Position) {cs : List Char} (h : cs ≠ []) :
    p.Before (p.advance cs) := by
  cases cs with
  | nil => exact absurd rfl h
  | cons c cs =>
    have hafter : p.Before (p.after c) := by
      unfold Before after
      split
      · exact .inl (Nat.lt_succ_self _)
      · exact .inr ⟨rfl, Nat.lt_succ_self _⟩
    exact hafter.trans_precedes (precedes_advance _ cs)

end Position

/-- Every token is in front of the tokens that follow it. -/
def InTextOrder (tokens : List Token) : Prop :=
  tokens.Pairwise fun s t => s.position.Before t.position

theorem Lexer.Splits.inTextOrder {before cs : List Char} {tokens : List Token}
    (h : Splits before cs tokens) : InTextOrder tokens := by
  induction h with
  | last => exact .nil
  | @token before gap raw rest token tokens _ hne _ hposition hrest ih =>
    refine .cons (fun t hmem => ?_) ih
    have hplace : token.position.Before (placeAfter (before ++ gap ++ raw)) := by
      rw [hposition, ← advance_placeAfter (before ++ gap) raw]
      exact Position.before_advance _ hne
    exact hplace.trans_precedes (hrest.pairwise.1 t hmem)

theorem inTextOrder_tokenize (text : String) : InTextOrder (tokenize text) :=
  (Lexer.splits_tokens (.ofText text) [] rfl).inTextOrder

/-! ### Declarations and identifiers of a tree -/

/-- A declared name, its place and its type. -/
structure Declaration where
  name : String
  position : Position
  ty : ValueType
  deriving DecidableEq, Repr

/-- What a statement declares itself. -/
def Statement.declaration? : Statement → Option Declaration
  | .declaration name position ty _ => some ⟨name, position, ty⟩
  | _ => none

/-- The declarations of a block and of the bodies in it, in the order of the text. -/
def Block.declarations (b : Block) : List Declaration :=
  (Block.allStatements b).filterMap Statement.declaration?

theorem Block.declarations_cons (v : Statement) (b : Block) :
    Block.declarations (v :: b) =
      v.allStatements.filterMap Statement.declaration? ++ Block.declarations b :=
  List.filterMap_append

mutual

/-- The identifiers of a statement, in the order of the text: its mentions of variables and the
names that it declares, which are the targets of their initial values.  The counter of a loop is
target and condition of the loop. -/
def Statement.identifiers : Statement → List Identifier
  | .declaration name position ty initializer =>
    .declared name position ty :: initializer.elim [] Expr.mentions
  | .loop counter start stop body =>
    counter :: start.mentions ++ stop.mentions ++ Block.identifiers body
  | statement => statement.mentions

/-- The identifiers of a block, in the order of the text. -/
def Block.identifiers : Block → List Identifier
  | [] => []
  | statement :: rest => statement.identifiers ++ Block.identifiers rest

end

/-- The declaration that an identifier is tagged by: the last one of its name up to its place. -/
def Identifier.declarationIn? (identifier : Identifier) (declarations : List Declaration) :
    Option Declaration :=
  (declarations.filter fun declaration =>
    declaration.position.Precedes identifier.position ∧
      declaration.name = identifier.name).getLast?

/-! ### Tables and declarations -/

namespace TypeTable

/-- The table after declarations. -/
def declareAll (types : TypeTable) (declarations : List Declaration) : TypeTable :=
  declarations.foldl (fun types declaration => types.declare declaration.name declaration.ty) types

theorem declareAll_append (types : TypeTable) (ds ds' : List Declaration) :
    types.declareAll (ds ++ ds') = (types.declareAll ds).declareAll ds' :=
  List.foldl_append

/-- After declarations, a name has the type of the last one of that name, or else the type that it
had. -/
theorem declareAll_apply (types : TypeTable) (ds : List Declaration) (name : String) :
    types.declareAll ds name =
      ((ds.filter fun d => d.name = name).getLast?.map Declaration.ty).or (types name) := by
  induction ds using List.reverseRecOn with
  | nil => rfl
  | append_singleton ds d ih =>
    rw [declareAll_append, List.filter_append]
    show (types.declareAll ds).declare d.name d.ty name = _
    unfold declare
    by_cases hname : d.name = name
    · simp [hname]
    · simpa [hname, Ne.symm hname] using ih

end TypeTable

/-! ### Tokens and their tree -/

namespace Grammar

/-- `Tagged types tokens declarations identifiers types'`: what is declared and mentioned in a piece
of text is at places of its tokens, and each identifier is tagged with what the table in front has
after the declarations up to its place; the last table is the one behind all of them. -/
structure Tagged (types : TypeTable) (tokens : List Token) (declarations : List Declaration)
    (identifiers : List Identifier) (types' : TypeTable) : Prop where
  table : types' = types.declareAll declarations
  sorted : declarations.Pairwise fun d e => d.position.Before e.position
  declared : ∀ declaration ∈ declarations, ∃ token ∈ tokens,
    token.position = declaration.position
  mentioned : ∀ identifier ∈ identifiers,
    (∃ token ∈ tokens, token.position = identifier.position) ∧
      identifier.ty = types.declareAll (declarations.filter fun declaration =>
        declaration.position.Precedes identifier.position) identifier.name

section
variable {types types' types'' : TypeTable} {tokens tokens' : List Token}

/-- A piece of text without declarations takes all tags from the table in front. -/
theorem tagged_of_mentions {identifiers : List Identifier}
    (h : ∀ identifier ∈ identifiers, ∃ token ∈ tokens, identifier = token.mention types) :
    Tagged types tokens [] identifiers types where
  table := rfl
  sorted := .nil
  declared := List.forall_mem_nil _
  mentioned identifier hmem := by
    obtain ⟨token, htoken, rfl⟩ := h identifier hmem
    exact ⟨⟨token, htoken, rfl⟩, rfl⟩

/-- Pieces of text one after another: what the first declares is in front of what the second
mentions, and what the second declares is behind what the first mentions. -/
theorem Tagged.append {ds ds' : List Declaration} {is is' : List Identifier}
    (h : Tagged types tokens ds is types') (h' : Tagged types' tokens' ds' is' types'')
    (horder : InTextOrder (tokens ++ tokens')) :
    Tagged types (tokens ++ tokens') (ds ++ ds') (is ++ is') types'' := by
  have hbefore : ∀ {p q : Position}, (∃ s ∈ tokens, s.position = p) →
      (∃ t ∈ tokens', t.position = q) → p.Before q := by
    rintro p q ⟨s, hs, rfl⟩ ⟨t, ht, rfl⟩
    exact (List.pairwise_append.1 horder).2.2 s hs t ht
  refine ⟨?_, ?_, ?_, ?_⟩
  · rw [h'.table, h.table, TypeTable.declareAll_append]
  · exact List.pairwise_append.2 ⟨h.sorted, h'.sorted, fun d hd e he =>
      hbefore (h.declared d hd) (h'.declared e he)⟩
  · rintro d hd
    rcases List.mem_append.1 hd with hd | hd
    · obtain ⟨token, htoken, hplace⟩ := h.declared d hd
      exact ⟨token, List.mem_append_left _ htoken, hplace⟩
    · obtain ⟨token, htoken, hplace⟩ := h'.declared d hd
      exact ⟨token, List.mem_append_right _ htoken, hplace⟩
  · rintro identifier hmem
    rw [List.filter_append]
    rcases List.mem_append.1 hmem with hmem | hmem
    · obtain ⟨hplace, hty⟩ := h.mentioned identifier hmem
      have hlater : (ds'.filter fun d => d.position.Precedes identifier.position) = [] := by
        refine List.filter_eq_nil_iff.2 fun d hd => ?_
        have hnot := (hbefore hplace (h'.declared d hd)).not_precedes
        rwa [decide_eq_true_iff]
      obtain ⟨token, htoken, hposition⟩ := hplace
      rw [hlater, List.append_nil]
      exact ⟨⟨token, List.mem_append_left _ htoken, hposition⟩, hty⟩
    · obtain ⟨hplace, hty⟩ := h'.mentioned identifier hmem
      have hearlier : (ds.filter fun d => d.position.Precedes identifier.position) = ds := by
        refine List.filter_eq_self.2 fun d hd => decide_eq_true ?_
        exact (hbefore (h.declared d hd) hplace).precedes
      obtain ⟨token, htoken, hposition⟩ := hplace
      rw [hearlier, TypeTable.declareAll_append, ← h.table]
      exact ⟨⟨token, List.mem_append_right _ htoken, hposition⟩, hty⟩

/-- Each mention in a phrase is one of its tokens. -/
theorem Derives.exists_mention {phrase : Phrase} {e : Expr} (h : Derives types phrase tokens e) :
    ∀ identifier ∈ e.mentions, ∃ token ∈ tokens, identifier = token.mention types := by
  induction h with
  | term _ ih | factor _ ih => exact ih
  | sum _ _ _ _ ihleft ihright | product _ _ _ _ ihleft ihright =>
    intro identifier hmem
    rcases List.mem_append.1 hmem with hmem | hmem
    · obtain ⟨token, htoken, heq⟩ := ihleft identifier hmem
      exact ⟨token, List.mem_append_left _ htoken, heq⟩
    · obtain ⟨token, htoken, heq⟩ := ihright identifier hmem
      exact ⟨token, List.mem_append_right _ (List.mem_cons_of_mem _ htoken), heq⟩
  | int | string | bool => exact List.forall_mem_nil _
  | var => exact List.forall_mem_singleton.2 ⟨_, List.mem_singleton_self _, rfl⟩
  | parens _ _ _ ih =>
    intro identifier hmem
    obtain ⟨token, htoken, heq⟩ := ih identifier hmem
    exact ⟨token, List.mem_append_left _ (List.mem_cons_of_mem _ htoken), heq⟩
  | not _ _ ih =>
    intro identifier hmem
    obtain ⟨token, htoken, heq⟩ := ih identifier hmem
    exact ⟨token, List.mem_cons_of_mem _ htoken, heq⟩

/-- Each mention in a phrase is one of the tokens around it. -/
theorem Derives.exists_mention_of_subset {phrase : Phrase} {e : Expr}
    (h : Derives types phrase tokens e) (hsub : tokens ⊆ tokens') :
    ∀ identifier ∈ e.mentions, ∃ token ∈ tokens', identifier = token.mention types := by
  intro identifier hmem
  obtain ⟨token, htoken, heq⟩ := h.exists_mention identifier hmem
  exact ⟨token, hsub htoken, heq⟩

/-- The declared name is tagged with the declared type. -/
theorem tagged_declared {name : Token} (h : name ∈ tokens) (ty : ValueType) :
    Tagged types tokens [⟨name.lexeme, name.position, ty⟩]
      [.declared name.lexeme name.position ty] (types.declare name.lexeme ty) where
  table := rfl
  sorted := List.pairwise_singleton _ _
  declared := List.forall_mem_singleton.2 ⟨name, h, rfl⟩
  mentioned := by
    refine List.forall_mem_singleton.2 ⟨⟨name, h, rfl⟩, ?_⟩
    have hself : name.position.Precedes name.position := .refl _
    simp [Identifier.declared, hself, TypeTable.declareAll, TypeTable.declare]

/-- A declaration is known in its own initial value. -/
theorem IsSimple.tagged {v : Statement} (h : IsSimple types tokens v types')
    (horder : InTextOrder tokens) :
    Tagged types tokens v.declaration?.toList v.identifiers types' := by
  cases h with
  | declaration => exact tagged_declared (by simp) _
  | @initialized var name colon typeName assign semicolon ty tokens e _ _ _ _ _ h =>
    have hname : name ∈ [var, name, colon, typeName] := by simp
    have hfront : Tagged types [var, name, colon, typeName] _ _ _ := tagged_declared hname ty
    have hvalue : Tagged (types.declare name.lexeme ty) (assign :: tokens ++ [semicolon]) []
        e.mentions _ := tagged_of_mentions (h.exists_mention_of_subset fun t ht => by simp [ht])
    exact hfront.append hvalue horder
  | @assignment name assign semicolon tokens e _ _ h =>
    exact tagged_of_mentions (List.forall_mem_cons.2
      ⟨⟨name, by simp, rfl⟩, h.exists_mention_of_subset fun t ht => by simp [ht]⟩)
  | print _ h | assert _ _ h =>
    exact tagged_of_mentions (h.exists_mention_of_subset fun t ht => by simp [ht])
  | @read read name semicolon =>
    exact tagged_of_mentions (List.forall_mem_singleton.2 ⟨name, by simp, rfl⟩)

/-- The header of a loop takes its tags from the table in front of the loop. -/
theorem IsHeader.tagged {counter : Identifier} {start stop : Expr}
    (h : IsHeader types tokens counter start stop) :
    Tagged types tokens [] (counter :: start.mentions ++ stop.mentions) types := by
  cases h with
  | @mk name within range «do» first last _ _ _ _ hstart _ hstop =>
    refine tagged_of_mentions (List.forall_mem_append.2 ⟨List.forall_mem_cons.2 ⟨?_, ?_⟩, ?_⟩)
    · exact ⟨name, by simp, rfl⟩
    · exact hstart.exists_mention_of_subset fun t ht => by simp [ht]
    · exact hstop.exists_mention_of_subset fun t ht => by simp [ht]

end

/-- The identifiers of a block are tagged by the table in front of it and by the declarations of the
block, those in the bodies of loops included. -/
theorem IsBlock.tagged {types types' : TypeTable} {tokens : List Token} {b : Block}
    (h : IsBlock types tokens b types') (horder : InTextOrder tokens) :
    Tagged types tokens (Block.declarations b) (Block.identifiers b) types' := by
  induction h with
  | nil => exact tagged_of_mentions (List.forall_mem_nil _)
  | @simple types types' types'' tokens rest v b h _ ih =>
    obtain ⟨hfirst, hbehind, -⟩ := List.pairwise_append.1 horder
    have hself : v.allStatements.filterMap Statement.declaration? = v.declaration?.toList := by
      rw [Statement.allStatements_of_not_isLoop h.isLoop_eq_false, List.filterMap_cons]
      cases v.declaration? <;> rfl
    rw [Block.declarations_cons, hself]
    exact (h.tagged hfirst).append (ih hbehind) horder
  | @loop types types' types'' «for» header inner ending rest counter start stop body b _ hheader _
      _ _ ihbody ih =>
    obtain ⟨hloop, hbehind, -⟩ := List.pairwise_append.1 horder
    obtain ⟨hopen, -, -⟩ := List.pairwise_append.1 hloop
    obtain ⟨hfront, hinner, -⟩ := List.pairwise_append.1 hopen
    have hfor : Tagged types [«for»] [] [] types := tagged_of_mentions (List.forall_mem_nil _)
    have hend : Tagged types' ending [] [] types' := tagged_of_mentions (List.forall_mem_nil _)
    have htagged := (((hfor.append hheader.tagged hfront).append (ihbody hinner) hopen).append hend
      hloop).append (ih hbehind) horder
    -- the loop itself declares nothing, and its body what the body of the tree declares
    have hself : (Statement.loop counter start stop body).allStatements.filterMap
        Statement.declaration? = Block.declarations body := rfl
    rw [Block.declarations_cons, hself]
    simpa [Block.identifiers, Statement.identifiers] using htagged

end Grammar

/-! ### Texts -/

namespace Parser

/-- In a clean program, the declarations stand in the order of the text, and each identifier is
tagged with the type of the last declaration of its name that stands in front of it or has it in its
initial value, whether in a loop or not; or else with the type known for its name, if there is
one. -/
theorem tags_follow_declarations (text : String) (known : TypeTable)
    (hclean : (parseText text known).isClean = true) :
    let statements := (parseText text known).program.statements
    ((Block.declarations statements).Pairwise fun d e => d.position.Before e.position) ∧
      ∀ identifier ∈ Block.identifiers statements,
        identifier.ty =
          ((identifier.declarationIn? (Block.declarations statements)).map Declaration.ty).or
            (known identifier.name) := by
  obtain ⟨types', hblock⟩ := isBlock_of_isClean hclean
  have htagged := hblock.tagged (inTextOrder_tokenize text)
  refine ⟨htagged.sorted, fun identifier hmem => ?_⟩
  rw [(htagged.mentioned identifier hmem).2, TypeTable.declareAll_apply, List.filter_filter]
  unfold Identifier.declarationIn?
  simp only [Bool.decide_and, Bool.and_comm]

/-- A name that is known in front of the program and declared again in a loop that never runs, with
itself as initial value. -/
theorem tags_follow_declaration_in_loop :
    let text := "read n; for i in 1..0 do var n : string := n; end for; print n + i;"
    let known := TypeTable.empty.declare "n" .int
    let statements := (parseText text known).program.statements
    (parseText text known).isClean = true ∧
      (Block.identifiers statements).map Identifier.ty =
        [some .int, none, some .string, some .string, some .string, none] ∧
      ((Block.declarations statements).Pairwise fun d e => d.position.Before e.position) ∧
      ∀ identifier ∈ Block.identifiers statements,
        identifier.ty =
          ((identifier.declarationIn? (Block.declarations statements)).map Declaration.ty).or
            (known identifier.name) := by
  intro text known statements
  have hclean : (parseText text known).isClean = true := by decide +kernel
  have htags : (Block.identifiers statements).map Identifier.ty =
      [some .int, none, some .string, some .string, some .string, none] := by decide +kernel
  exact ⟨hclean, htags, tags_follow_declarations text known hclean⟩

end Parser

end MiniPL
