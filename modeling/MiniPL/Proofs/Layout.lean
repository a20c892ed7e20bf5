import MiniPL.Proofs.Demand
import MiniPL.Proofs.Pieces
import Mathlib.Data.List.Forall2

/-!
# Layout does not bear on meaning

Two texts that differ in gaps alone have tokens of the same kinds and lexemes, at other places
(`SameTokens`).  If all places are made the same, the parser starts from one state for both of them;
it follows that their trees and reports are the same up to places, and that their programs do the
same on every machine.

Main statement: `agree_of_sameTokens`.
-/

namespace MiniPL

/-- The place at which everything stands once places are forgotten. -/
def nowhere (_ : Position) : Position :=
  .unknown

/-- Whether two lists of tokens agree in kinds and lexemes, one by one. -/
def SameTokens (tokens tokens' : List Token) : Prop :=
  List.Forall₂ (fun s t => s.kind = t.kind ∧ s.lexeme = t.lexeme) tokens tokens'

instance (tokens tokens' : List Token) : Decidable (SameTokens tokens tokens') :=
  inferInstanceAs (Decidable (List.Forall₂ _ tokens tokens'))

theorem Token.moved_nowhere_eq {s t : Token} (h : s.kind = t.kind ∧ s.lexeme = t.lexeme) :
    s.moved nowhere = t.moved nowhere := by
  obtain ⟨kind, lexeme, position⟩ := s
  obtain ⟨rfl, rfl⟩ := h
  rfl

namespace SameTokens

variable {tokens tokens' : List Token}

protected theorem refl (tokens : List Token) : SameTokens tokens tokens :=
  List.forall₂_same.2 fun _ _ => ⟨rfl, rfl⟩

theorem moved (h : SameTokens tokens tokens') (place : Position → Position) :
    SameTokens tokens (tokens'.map (Token.moved place)) :=
  List.forall₂_map_right_iff.2 h

/-- The tokens in front of the end of the input are the same up to places. -/
theorem map_takeWhile_eq (h : SameTokens tokens tokens') :
    (tokens.takeWhile fun token => token.kind != .eof).map (Token.moved nowhere) =
      (tokens'.takeWhile fun token => token.kind != .eof).map (Token.moved nowhere) := by
  induction h with
  | nil => rfl
  | @cons s t rest rest' hsame _ ih =>
    rw [List.takeWhile_cons, List.takeWhile_cons, hsame.1]
    split
    · rw [List.map_cons, List.map_cons, Token.moved_nowhere_eq hsame, ih]
    · rfl

/-- The ends of the input are the same up to their places. -/
theorem moved_endOf_eq (h : SameTokens tokens tokens') :
    (Parser.endOf tokens).moved nowhere = (Parser.endOf tokens').moved nowhere := by
  induction h with
  | nil => rfl
  | @cons s t rest rest' hsame hrest ih =>
    by_cases heof : s.kind = .eof
    · rw [Parser.endOf_cons_of_eof heof, Parser.endOf_cons_of_eof (hsame.1 ▸ heof)]
      exact Token.moved_nowhere_eq hsame
    · have heof' : t.kind ≠ .eof := hsame.1 ▸ heof
      cases hrest with
      | nil =>
        rw [Parser.endOf_singleton heof, Parser.endOf_singleton heof']
        rfl
      | cons =>
        rw [Parser.endOf_cons_cons heof, Parser.endOf_cons_cons heof', ih]

/-- Without places, both lists lead the parser into the same state. -/
theorem toState_initial_eq (h : SameTokens tokens tokens') (types : TypeTable) :
    (Parser.OnDemand.Cursor.initial types tokens).toState nowhere =
      (Parser.OnDemand.Cursor.initial types tokens').toState nowhere := by
  unfold Parser.OnDemand.Cursor.toState
  simp only [Parser.OnDemand.Cursor.initial, Parser.OnDemand.Tape.ahead_initial,
    Parser.OnDemand.Tape.ending_initial, TokenStream.drain_list, h.map_takeWhile_eq,
    h.moved_endOf_eq]

/-- What is read from both lists is the same up to places. -/
theorem parse_eq (h : SameTokens tokens tokens') (types : TypeTable) :
    Block.moved nowhere (parseTokens tokens types).program.statements =
        Block.moved nowhere (parseTokens tokens' types).program.statements ∧
      (parseTokens tokens types).diagnostics.map (Diagnostic.relocated nowhere) =
        (parseTokens tokens' types).diagnostics.map (Diagnostic.relocated nowhere) := by
  have hparse (tokens : List Token) :
      Parser.OnDemand.parse tokens types = parseTokens tokens types := by
    rw [Parser.OnDemand.parse_eq, parse, TokenStream.drain_list]
  obtain ⟨hblock, hreports⟩ := Parser.OnDemand.follows_parse tokens types nowhere
  obtain ⟨hblock', hreports'⟩ := Parser.OnDemand.follows_parse tokens' types nowhere
  rw [hparse, h.toState_initial_eq types] at hblock hreports
  rw [hparse] at hblock' hreports'
  exact ⟨hblock.trans hblock'.symm, hreports.trans hreports'.symm⟩

end SameTokens

/-! ### Runs -/

/-- Blocks that are the same up to places agree. -/
theorem Block.agree_of_moved_eq {place : Position → Position} {b c : Block}
    (h : b.moved place = c.moved place) (m : Machine) :
    Run.Agree (Block.exec b) (Block.exec c) m := by
  have hruns : (Block.exec b).moved place = (Block.exec c).moved place := by
    rw [← Block.exec_moved, ← Block.exec_moved, h]
  have hrun : (Block.exec b).moved place m = (Block.exec c).moved place m := congrFun hruns m
  unfold Run.moved at hrun
  constructor
  · intro after hb
    rw [hb] at hrun
    cases hc : Block.exec c m with
    | ok value after' =>
      rw [hc] at hrun
      exact hrun.symm
    | error fault' after' =>
      rw [hc] at hrun
      cases hrun
  · intro fault after hb
    rw [hb] at hrun
    cases hc : Block.exec c m with
    | ok value after' =>
      rw [hc] at hrun
      cases hrun
    | error fault' after' =>
      rw [hc] at hrun
      obtain ⟨hfault, rfl⟩ := EStateM.Result.error.inj hrun
      exact ⟨fault', rfl, congrArg (fun f => { f with position := fault.position }) hfault⟩

/-- Texts with the same tokens up to places have the same tree and the same reports up to places,
and their programs do the same on every machine. -/
theorem agree_of_sameTokens (source source' : String) (types : TypeTable)
    (h : SameTokens (tokenize source) (tokenize source')) :
    Block.moved nowhere (parseText source types).program.statements =
        Block.moved nowhere (parseText source' types).program.statements ∧
      (parseText source types).diagnostics.map (Diagnostic.relocated nowhere) =
        (parseText source' types).diagnostics.map (Diagnostic.relocated nowhere) ∧
      ∀ m, Run.Agree (parseText source types).program.exec
        (parseText source' types).program.exec m := by
  rw [Parser.parseText_eq, Parser.parseText_eq]
  obtain ⟨hblock, hreports⟩ := h.parse_eq types
  exact ⟨hblock, hreports, Block.agree_of_moved_eq hblock⟩

/-- A faulty text whose last statement fails, with comments and in fewer lines. -/
theorem agree_of_comments :
    let source := "read x;\nprint ;\nprint 1 / x; print 2 / 0;"
    let source' := "read x; print /* what? */ ; print 1/x; // twice\n  print 2/0;"
    SameTokens (tokenize source) (tokenize source') ∧
      Block.moved nowhere (parseText source).program.statements =
        Block.moved nowhere (parseText source').program.statements ∧
      (parseText source).diagnostics.map (Diagnostic.relocated nowhere) =
        (parseText source').diagnostics.map (Diagnostic.relocated nowhere) ∧
      ∀ m, Run.Agree (parseText source).program.exec (parseText source').program.exec m := by
  intro source source'
  have hsame : SameTokens (tokenize source) (tokenize source') := by decide +kernel
  exact ⟨hsame, agree_of_sameTokens source source' .empty hsame⟩

end MiniPL
