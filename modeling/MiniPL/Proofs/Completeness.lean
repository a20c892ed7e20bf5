import MiniPL.Proofs.Boundaries
import MiniPL.Proofs.HeaderFaults
import MiniPL.Proofs.Layout

/-!
# Complete texts are whole statements

The shell counts the `do` and `end` of a text and looks at its last token.  For a text that is the
beginning of a clean program this is enough to tell whether it holds whole statements: it does if
and only if the program is cut there right behind a statement that stands outside of all loops
(`Grammar.EndsStatement`), whatever the layout of the text.

Main statement: `isComplete_iff_endsStatement`.
-/

namespace MiniPL

open Grammar

namespace Grammar

/-- The tokens of a program with these statements are cut right behind the tokens of one of the
statements, so that the cut is in no statement, and in no header and no body of a loop. -/
inductive EndsStatement : Block → List Token → List Token → Prop
  | mk {types types' types'' : TypeTable} {earlier own later : List Token} {before after : Block}
    {statement : Statement} (hbefore : IsBlock .empty earlier before types)
    (hown : IsStatement types own statement types') (hafter : IsBlock types' later after types'') :
    EndsStatement (before ++ statement :: after) (earlier ++ own) later

section
variable {types : TypeTable} {front back : List Token} {b : Block}

theorem EndsStatement.endsOutside (h : EndsStatement b front back) : EndsOutside front := by
  obtain ⟨hbefore, hown, -⟩ := h
  exact (hbefore.append hown).endsOutside

/-- Whole statements in front of a cut are statements of the program, the last of which ends
there. -/
theorem IsBlock.endsStatement {b₁ b₂ : Block} {types₁ types₂ : TypeTable} (hne : front ≠ [])
    (hfront : IsBlock .empty front b₁ types₁) (hback : IsBlock types₁ back b₂ types₂) :
    EndsStatement (b₁ ++ b₂) front back := by
  rcases List.eq_nil_or_concat b₁ with rfl | ⟨before, statement, rfl⟩
  · cases hfront
    exact absurd rfl hne
  · rw [List.concat_eq_append] at hfront ⊢
    obtain ⟨earlier, own, types, rfl, hbefore, hown⟩ := hfront.exists_of_append
    rw [List.append_assoc, List.singleton_append]
    exact .mk hbefore hown hback

/-- Whether the tokens in front of a cut end outside of all loops tells whether a statement ends
there. -/
theorem IsBlock.endsOutside_iff (h : IsBlock .empty (front ++ back) b types)
    (hnumerals : ∀ token ∈ back, token.kind = .intLiteral → token.number?.isSome = true)
    (hne : front ≠ []) : EndsOutside front ↔ EndsStatement b front back := by
  constructor
  · intro hends
    obtain ⟨b₁, types₁, hfront⟩ := h.exists_front hends
    obtain ⟨b₂, rfl, hback⟩ := hfront.exists_behind h hnumerals
    exact hfront.endsStatement hne hback
  · exact EndsStatement.endsOutside

end

end Grammar

/-! ### Other layouts -/

theorem SameTokens.map_kind {tokens tokens' : List Token} (h : SameTokens tokens tokens') :
    tokens.map Token.kind = tokens'.map Token.kind := by
  induction h with
  | nil => rfl
  | cons hsame _ ih => rw [List.map_cons, List.map_cons, hsame.1, ih]

theorem countP_isKeyword (keyword : Keyword) (tokens : List Token) :
    tokens.countP (·.isKeyword keyword) =
      (tokens.map Token.kind).countP (· == .keyword keyword) := by
  rw [List.countP_map]
  rfl

/-- Only the kinds of the tokens tell where they end. -/
theorem EndsOutside.congr {tokens tokens' : List Token}
    (hkinds : tokens.map Token.kind = tokens'.map Token.kind) (h : EndsOutside tokens) :
    EndsOutside tokens' := by
  constructor
  · intro last hlast
    have hkind := congrArg List.getLast? hkinds
    rw [List.getLast?_map, List.getLast?_map, hlast] at hkind
    obtain ⟨last', hlast', heq⟩ := Option.map_eq_some_iff.1 hkind
    exact heq ▸ h.semicolon last' hlast'
  · have hloops := h.loops
    unfold opened closed at hloops ⊢
    simpa only [countP_isKeyword, hkinds] using hloops

/-- A text with the tokens that stand in front of a cut in a clean program, in whatever layout, is
complete for the shell if and only if the cut is right behind the `;` of a statement that stands
outside of all loops. -/
theorem isComplete_iff_endsStatement {source text : String} {front back : List Token}
    (hclean : (parseText source).isClean = true) (hcut : tokenize source = front ++ back)
    (hne : front ≠ []) (htext : SameTokens (tokenize text) front) :
    isComplete text = true ↔
      EndsStatement (parseText source).program.statements front back := by
  obtain ⟨types, hblock⟩ := Parser.isBlock_of_isClean hclean
  have hnumerals : ∀ token ∈ back, token.kind = .intLiteral → token.number?.isSome = true := by
    intro token hmem
    refine number?_isSome_of_mem_tokenize (hcut ▸ List.mem_append_right front hmem)
  rw [hcut] at hblock
  rw [isComplete_iff, ← hblock.endsOutside_iff hnumerals hne]
  exact ⟨.congr htext.map_kind, .congr htext.map_kind.symm⟩

/-- A loop in a loop: behind the `;` of the inner loop its `do` has an `end`, but not that of the
outer loop; behind the `;` of the outer loop both have. -/
theorem isComplete_iff_endsStatement_nested :
    let source := "for i in 0..1 do for j in 0..i do end for; end for; read k;"
    let inner := "for i in 0..1 do\nfor j in 0..i do end for;"
    let outer := "for i in 0..1 do\nfor j in 0..i do end for;\nend for;"
    let tokens := tokenize source
    let statements := (parseText source).program.statements
    (parseText source).isClean = true ∧ tokens = tokens.take 17 ++ tokens.drop 17 ∧
      tokens = tokens.take 20 ++ tokens.drop 20 ∧ tokens.take 17 ≠ [] ∧ tokens.take 20 ≠ [] ∧
      SameTokens (tokenize inner) (tokens.take 17) ∧
      SameTokens (tokenize outer) (tokens.take 20) ∧
      ¬ EndsStatement statements (tokens.take 17) (tokens.drop 17) ∧
      EndsStatement statements (tokens.take 20) (tokens.drop 20) := by
  intro source inner outer tokens statements
  have hclean : (parseText source).isClean = true := by decide +kernel
  have hcut (count : Nat) : tokens = tokens.take count ++ tokens.drop count :=
    (List.take_append_drop count tokens).symm
  have hinner : SameTokens (tokenize inner) (tokens.take 17) := by decide +kernel
  have houter : SameTokens (tokenize outer) (tokens.take 20) := by decide +kernel
  have hne : tokens.take 17 ≠ [] := by decide +kernel
  have hne' : tokens.take 20 ≠ [] := by decide +kernel
  refine ⟨hclean, hcut 17, hcut 20, hne, hne', hinner, houter, fun hends => ?_, ?_⟩
  · have hopen : isComplete inner = false := by decide +kernel
    rw [(isComplete_iff_endsStatement hclean (hcut 17) hne hinner).2 hends] at hopen
    cases hopen
  · exact (isComplete_iff_endsStatement hclean (hcut 20) hne' houter).1 (by decide +kernel)

end MiniPL
