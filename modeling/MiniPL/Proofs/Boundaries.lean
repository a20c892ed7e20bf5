import MiniPL.Proofs.Grammar
import MiniPL.Shell

/-!
# Where statements end

The shell takes a text for whole statements if its last token is `;` and no `do` is left without an
`end` (`EndsOutside`).  Where the tokens of whole statements are cut, this tells the cuts behind a
statement that stands outside of all loops: in front of any cut stand whole statements and a part of
the next one (`Grammar.IsBlock.isFront`), and that part ends with `;` only inside of a loop, where
more loops are opened than closed (`Grammar.IsPart`).

Main statements: `Grammar.IsBlock.endsOutside`, `Grammar.IsBlock.exists_front`.
-/

namespace MiniPL

/-- The number of loops whose bodies start among the tokens. -/
def opened (tokens : List Token) : Nat :=
  tokens.countP (·.isKeyword .do)

/-- The number of loops whose bodies end among the tokens. -/
def closed (tokens : List Token) : Nat :=
  tokens.countP (·.isKeyword .end)

/-- The tokens end behind a `;` and outside of all loops, as far as their `do` and `end` tell. -/
structure EndsOutside (tokens : List Token) : Prop where
  semicolon : ∀ last, tokens.getLast? = some last → last.kind = .semicolon
  loops : opened tokens ≤ closed tokens

theorem endsOutside_nil : EndsOutside [] :=
  ⟨fun _ h => (nomatch h), Nat.le_refl 0⟩

theorem isComplete_iff (text : String) : isComplete text = true ↔ EndsOutside (tokenize text) := by
  unfold isComplete
  dsimp only
  cases hlast : (tokenize text).getLast? with
  | none =>
    rw [List.getLast?_eq_none_iff] at hlast
    rw [hlast]
    exact iff_of_true rfl endsOutside_nil
  | some last =>
    rw [Bool.and_eq_true, beq_iff_eq, decide_eq_true_eq]
    constructor
    · rintro ⟨hkind, hloops⟩
      refine ⟨fun other hother => ?_, hloops⟩
      rw [hlast] at hother
      exact Option.some.inj hother ▸ hkind
    · exact fun h => ⟨h.semicolon last hlast, h.loops⟩

/-! ### Loops opened and closed -/

theorem opened_append (tokens tokens' : List Token) :
    opened (tokens ++ tokens') = opened tokens + opened tokens' :=
  List.countP_append

theorem closed_append (tokens tokens' : List Token) :
    closed (tokens ++ tokens') = closed tokens + closed tokens' :=
  List.countP_append

theorem opened_eq_zero {tokens : List Token} (h : ∀ token ∈ tokens, token.kind ≠ .keyword .do) :
    opened tokens = 0 :=
  List.countP_eq_zero.2 fun token hmem => by simpa [Token.isKeyword] using h token hmem

theorem closed_eq_zero {tokens : List Token} (h : ∀ token ∈ tokens, token.kind ≠ .keyword .end) :
    closed tokens = 0 :=
  List.countP_eq_zero.2 fun token hmem => by simpa [Token.isKeyword] using h token hmem

namespace Grammar

theorem opened_singleton {token : Token} (h : token.kind = .keyword .do) : opened [token] = 1 := by
  simp [opened, Token.isKeyword, h]

section
variable {types types' : TypeTable} {tokens : List Token}

theorem IsSimple.opened_eq_zero {v : Statement} (h : IsSimple types tokens v types') :
    opened tokens = 0 :=
  MiniPL.opened_eq_zero (h.kind_ne rfl nofun)

theorem IsSimple.closed_eq_zero {v : Statement} (h : IsSimple types tokens v types') :
    closed tokens = 0 :=
  MiniPL.closed_eq_zero (h.kind_ne rfl nofun)

theorem IsEnd.opened_eq_zero (h : IsEnd tokens) : opened tokens = 0 := by
  cases h with
  | mk hend hfor hsemicolon => simp [opened, Token.isKeyword, hend, hfor, hsemicolon]

theorem IsEnd.closed_eq_one (h : IsEnd tokens) : closed tokens = 1 := by
  cases h with
  | mk hend hfor hsemicolon => simp [closed, Token.isKeyword, hend, hfor, hsemicolon]

/-- Up to its body, a loop holds neither `;` nor `end`, and its `do` is at the end. -/
theorem IsHeader.opens {counter : Identifier} {start stop : Expr} {«for» : Token}
    (h : IsHeader types tokens counter start stop) (hfor : «for».kind = .keyword .for) :
    opened («for» :: tokens) = 1 ∧
      ∀ token ∈ «for» :: tokens, token.kind ≠ .keyword .end ∧ token.kind ≠ .semicolon := by
  obtain ⟨body, «do», rfl, hdo, hinner⟩ := h.exists_inner
  have hne : ∀ kind : TokenKind, kind.isInner = false → kind ≠ .keyword .for →
      ∀ token ∈ «for» :: body, token.kind ≠ kind := by
    intro kind hkind hne
    refine List.forall_mem_cons.2 ⟨fun heq => hne (heq ▸ hfor), fun token hmem => ?_⟩
    exact kind_ne_of_isInner (hinner token hmem) hkind
  rw [← List.cons_append]
  constructor
  · rw [opened_append, opened_eq_zero (hne _ rfl nofun), opened_singleton hdo]
  · refine List.forall_mem_append.2 ⟨fun token hmem => ?_, ?_⟩
    · exact ⟨hne (.keyword .end) rfl nofun token hmem, hne .semicolon rfl nofun token hmem⟩
    · rw [List.forall_mem_singleton, hdo]
      exact ⟨nofun, nofun⟩

end

section
variable {types types' : TypeTable} {tokens front back : List Token} {b : Block}

/-- In whole statements, every loop that is opened is closed. -/
theorem IsBlock.opened_eq_closed (h : IsBlock types tokens b types') :
    opened tokens = closed tokens := by
  induction h with
  | nil => rfl
  | simple h _ ih =>
    rw [opened_append, closed_append, h.opened_eq_zero, h.closed_eq_zero, ih]
  | @loop _ _ _ «for» header inner ending rest _ _ _ _ _ hfor hheader _ hend _ ihbody ih =>
    obtain ⟨hopened, hkinds⟩ := hheader.opens hfor
    have hclosed := closed_eq_zero fun token hmem => (hkinds token hmem).1
    simp only [opened_append, closed_append, hopened, hclosed, hend.opened_eq_zero,
      hend.closed_eq_one, ihbody, ih]
    omega

/-! ### Whole statements that are cut -/

/-- What stands in front of a cut inside of a statement: it ends with `;` only where more loops are
opened than closed. -/
structure IsPart (part : List Token) : Prop where
  loops : closed part ≤ opened part
  semicolon : ∀ last, part.getLast? = some last → last.kind = .semicolon → closed part < opened part

theorem IsPart.of_forall {part : List Token} (hend : ∀ token ∈ part, token.kind ≠ .keyword .end)
    (hsemicolon : ∀ token ∈ part, token.kind ≠ .semicolon) : IsPart part := by
  constructor
  · rw [closed_eq_zero hend]
    exact Nat.zero_le _
  · exact fun last hlast hkind => absurd hkind (hsemicolon last (List.mem_of_getLast? hlast))

/-- Inside of a loop, a part of its body is a part of the loop. -/
theorem IsPart.of_body {start part : List Token} (hopened : opened start = 1)
    (hclosed : closed start = 0) (h : closed part ≤ opened part) : IsPart (start ++ part) := by
  have hlt : closed (start ++ part) < opened (start ++ part) := by
    rw [opened_append, closed_append, hopened, hclosed]
    omega
  exact ⟨Nat.le_of_lt hlt, fun _ _ _ => hlt⟩

/-- The part of a loop in front of the `;` at its end. -/
theorem IsPart.of_end {start inner ending : List Token} {last : Token}
    (hopened : opened start = 1) (hclosed : closed start = 0) (hinner : opened inner = closed inner)
    (hending : closed ending = 1) (hlast : ending.getLast? = some last)
    (hkind : last.kind ≠ .semicolon) : IsPart (start ++ (inner ++ ending)) := by
  constructor
  · rw [opened_append, opened_append, closed_append, closed_append, hopened, hclosed, hending]
    omega
  · intro last' hlast' hkind'
    rw [List.getLast?_append, List.getLast?_append, hlast] at hlast'
    exact absurd (Option.some.inj hlast' ▸ hkind') hkind

/-- Whole statements and a part of the next one. -/
def IsFront (types : TypeTable) (front : List Token) : Prop :=
  ∃ whole part b types', front = whole ++ part ∧ IsBlock types whole b types' ∧ IsPart part

theorem IsPart.isFront (h : IsPart front) (types : TypeTable) : IsFront types front :=
  ⟨[], front, [], types, rfl, .nil, h⟩

theorem IsFront.behind (hfront : IsFront types' front) (h : IsBlock types tokens b types') :
    IsFront types (tokens ++ front) := by
  obtain ⟨whole, part, b', types'', rfl, hwhole, hpart⟩ := hfront
  exact ⟨tokens ++ whole, part, _, types'', (List.append_assoc ..).symm, h.append hwhole, hpart⟩

theorem isFront_nil (types : TypeTable) : IsFront types [] :=
  IsPart.isFront (.of_forall (List.forall_mem_nil _) (List.forall_mem_nil _)) types

/-- A statement without a body is cut behind its `;` or in front of it. -/
theorem IsSimple.cut {v : Statement} (h : IsSimple types (front ++ back) v types') :
    back = [] ∨ IsPart front := by
  obtain ⟨body, semicolon, hbody, -, hinner⟩ := h.exists_inner
  rcases List.eq_nil_or_concat back with rfl | ⟨init, last, rfl⟩
  · exact .inl rfl
  · rw [List.concat_eq_append, ← List.append_assoc] at hbody
    obtain ⟨rfl, -⟩ := List.append_inj' hbody rfl
    obtain ⟨hfront, -⟩ := List.forall_mem_append.1 hinner
    exact .inr (.of_forall (fun token hmem => kind_ne_of_isInner (hfront token hmem) rfl)
      fun token hmem => kind_ne_of_isInner (hfront token hmem) rfl)

/-- The end of a loop is cut in front of its `end`, behind its `;` or between them. -/
theorem IsEnd.cut (h : IsEnd (front ++ back)) :
    front = [] ∨ back = [] ∨
      closed front = 1 ∧ ∃ last, front.getLast? = some last ∧ last.kind ≠ .semicolon := by
  generalize htokens : front ++ back = tokens at h
  cases h with
  | @mk «end» «for» semicolon hend hfor hsemicolon =>
    match front with
    | [] => exact .inl rfl
    | [first] =>
      obtain ⟨rfl, -⟩ := List.cons.inj htokens
      exact .inr (.inr (by simp [closed, Token.isKeyword, hend]))
    | [first, second] =>
      obtain ⟨rfl, htail⟩ := List.cons.inj htokens
      obtain ⟨rfl, -⟩ := List.cons.inj htail
      exact .inr (.inr (by simp [closed, Token.isKeyword, hend, hfor]))
    | first :: second :: third :: front =>
      simp only [List.cons_append, List.cons.injEq, List.append_eq_nil_iff] at htokens
      exact .inr (.inl htokens.2.2.2.2)

/-- In front of a cut stand whole statements and a part of the next one. -/
theorem IsBlock.isFront (h : IsBlock types tokens b types') (htokens : tokens = front ++ back) :
    IsFront types front := by
  induction h generalizing front back with
  | nil =>
    obtain ⟨rfl, -⟩ := List.append_eq_nil_iff.1 htokens.symm
    exact isFront_nil _
  | @simple types _ _ tokens rest _ _ h _ ih =>
    have hblock := IsBlock.simple h .nil
    rw [List.append_nil] at hblock
    rcases List.append_eq_append_iff.1 htokens with ⟨behind, rfl, hbehind⟩ | ⟨_, rfl, -⟩
    · exact (ih hbehind).behind hblock
    · rcases h.cut with rfl | hfront
      · rw [List.append_nil] at hblock
        simpa using (isFront_nil _).behind hblock
      · exact hfront.isFront types
  | @loop types types' _ «for» header inner ending rest _ _ _ _ _ hfor hheader hbody hend _ ihbody
      ih =>
    have hblock := IsBlock.loop hfor hheader hbody hend .nil
    rw [List.append_nil, List.append_assoc] at hblock
    obtain ⟨hopened, hkinds⟩ := hheader.opens hfor
    have hclosed := closed_eq_zero fun token hmem => (hkinds token hmem).1
    rw [List.append_assoc, List.append_assoc] at htokens
    rcases List.append_eq_append_iff.1 htokens with ⟨inside, rfl, hinside⟩ | ⟨_, hstart, -⟩
    · rcases List.append_eq_append_iff.1 hinside with ⟨ends, rfl, hends⟩ | ⟨_, rfl, -⟩
      · rcases List.append_eq_append_iff.1 hends with ⟨behind, rfl, hbehind⟩ | ⟨_, rfl, -⟩
        · -- behind the loop
          simpa using (ih hbehind).behind hblock
        · -- in its end
          rcases hend.cut with rfl | rfl | ⟨hends, last, hlast, hkind⟩
          · have hle := Nat.le_of_eq hbody.opened_eq_closed.symm
            rw [List.append_nil]
            exact (IsPart.of_body hopened hclosed hle).isFront types
          · rw [List.append_nil] at hblock
            simpa using (isFront_nil _).behind hblock
          · have hbalance := hbody.opened_eq_closed
            exact (IsPart.of_end hopened hclosed hbalance hends hlast hkind).isFront types
      · -- in its body
        obtain ⟨whole, part, b₁, types₁, rfl, hwhole, hpart⟩ := ihbody rfl
        have hle : closed (whole ++ part) ≤ opened (whole ++ part) := by
          rw [opened_append, closed_append, hwhole.opened_eq_closed]
          exact Nat.add_le_add_left hpart.loops _
        exact (IsPart.of_body hopened hclosed hle).isFront types
    · -- in front of its body
      rw [hstart] at hkinds
      obtain ⟨hkinds, -⟩ := List.forall_mem_append.1 hkinds
      exact (IsPart.of_forall (fun token hmem => (hkinds token hmem).1)
        fun token hmem => (hkinds token hmem).2).isFront types

theorem IsSimple.getLast?_eq {v : Statement} (h : IsSimple types tokens v types') :
    ∃ last, tokens.getLast? = some last ∧ last.kind = .semicolon := by
  obtain ⟨body, semicolon, rfl, hkind, -⟩ := h.exists_inner
  exact ⟨semicolon, List.getLast?_concat, hkind⟩

theorem IsEnd.getLast?_eq (h : IsEnd tokens) :
    ∃ last, tokens.getLast? = some last ∧ last.kind = .semicolon := by
  cases h with
  | @mk _ _ semicolon _ _ hsemicolon => exact ⟨semicolon, rfl, hsemicolon⟩

theorem kind_getLast?_append {kind : TokenKind} {last : Token} (hfront : front.getLast? = some last)
    (hkind : last.kind = kind) (hback : ∀ last, back.getLast? = some last → last.kind = kind) :
    ∀ last, (front ++ back).getLast? = some last → last.kind = kind := by
  intro last' hlast
  rw [List.getLast?_append, hfront] at hlast
  rcases Option.or_eq_some_iff.1 hlast with hlast | ⟨-, hlast⟩
  · exact hback last' hlast
  · exact Option.some.inj hlast ▸ hkind

/-- Whole statements end behind a `;` and outside of all loops. -/
theorem IsBlock.endsOutside (h : IsBlock types tokens b types') : EndsOutside tokens := by
  refine ⟨?_, Nat.le_of_eq h.opened_eq_closed⟩
  induction h with
  | nil => exact nofun
  | simple h _ ih =>
    obtain ⟨semicolon, hsemicolon, hkind⟩ := h.getLast?_eq
    exact kind_getLast?_append hsemicolon hkind ih
  | loop _ _ _ hend _ _ ih =>
    obtain ⟨semicolon, hsemicolon, hkind⟩ := hend.getLast?_eq
    refine kind_getLast?_append ?_ hkind ih
    rw [List.getLast?_append, hsemicolon]
    rfl

/-- No statement starts with a colon. -/
theorem IsBlock.kind_head_ne (h : IsBlock types tokens b types') :
    ∀ first, tokens.head? = some first → first.kind ≠ .colon ∧ first.kind ≠ .assign := by
  cases h with
  | nil => exact nofun
  | simple h _ =>
    rintro first hfirst
    cases h <;> (obtain rfl := Option.some.inj hfirst; simp [*])
  | loop hfor _ _ _ _ =>
    rintro first hfirst
    obtain rfl := Option.some.inj hfirst
    simp [hfor]

/-- Where whole statements are cut behind a `;` and outside of all loops, whole statements stand in
front of the cut. -/
theorem IsBlock.exists_front (h : IsBlock types (front ++ back) b types')
    (hends : EndsOutside front) : ∃ b₁ types₁, IsBlock types front b₁ types₁ := by
  obtain ⟨whole, part, b₁, types₁, rfl, hwhole, hpart⟩ := h.isFront rfl
  cases hlast : part.getLast? with
  | none =>
    rw [List.getLast?_eq_none_iff] at hlast
    rw [hlast, List.append_nil]
    exact ⟨b₁, types₁, hwhole⟩
  | some last =>
    have hkind : last.kind = .semicolon :=
      hends.semicolon last (by rw [List.getLast?_append, hlast]; rfl)
    have hlt := hpart.semicolon last hlast hkind
    have hle := hends.loops
    rw [opened_append, closed_append, hwhole.opened_eq_closed] at hle
    omega

end

end Grammar

end MiniPL
