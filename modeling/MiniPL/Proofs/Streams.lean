import MiniPL.Proofs.Demand
import MiniPL.Token.Peekable
import Mathlib.Data.List.Forall2

/-!
# Scanning on demand and scanning all at once

A lexer scans its text as far as it is asked to, and a list has all tokens of the text from the
start.  Whatever a consumer asks them for, in whatever order, they answer alike: a lexer that has
passed over a gap has the same tokens left as one in front of it, and a list with a token in its
buffer has the same tokens left as one whose buffer is empty (`Peekable.Holds`).  Only the place of
an end of input tells them apart, and the parser never asks for that.

Definitions: `TokenStream.Call`, `TokenStream.Answer`, `TokenStream.answers`.  Main statement:
`streams_agree`.
-/

namespace MiniPL

namespace TokenStream

/-! ### Calls and answers -/

/-- What a consumer may call a stream for. -/
inductive Call
  | hasNext
  | nextToken
  | next
  deriving DecidableEq, Repr

/-- What a stream answers to a call. -/
inductive Answer
  | left (isLeft : Bool)
  | token (token : Token)
  | taken (token? : Option Token)
  deriving DecidableEq, Repr

section
variable {σ : Type} [TokenStream σ]

/-- The answer to a call, and the stream after it. -/
def answer (call : Call) (s : σ) : Answer × σ :=
  match call with
  | .hasNext => (.left (hasNext s).1, (hasNext s).2)
  | .nextToken => (.token (nextToken s).1, (nextToken s).2)
  | .next => (.taken (next? s).1, (next? s).2)

/-- The answers to calls in a row. -/
def answers : List Call → σ → List Answer
  | [], _ => []
  | call :: calls, s => (answer call s).1 :: answers calls (answer call s).2

end

/-- Answers are alike if they are the same, or tokens that end the input at any two places. -/
inductive Answer.Alike : Answer → Answer → Prop
  | same (a : Answer) : Alike a a
  | ends (p q : Position) : Alike (.token (.eof p)) (.token (.eof q))

/-- A relation that calls keep: related streams answer alike, and are related afterwards. -/
def IsKept {σ τ : Type} [TokenStream σ] [TokenStream τ] (R : σ → τ → Prop) : Prop :=
  ∀ call s t, R s t →
    (answer call s).1.Alike (answer call t).1 ∧ R (answer call s).2 (answer call t).2

/-- Streams in a relation that calls keep answer alike, call by call. -/
theorem IsKept.forall₂_answers {σ τ : Type} [TokenStream σ] [TokenStream τ] {R : σ → τ → Prop}
    (h : IsKept R) {s : σ} {t : τ} (hst : R s t) (calls : List Call) :
    List.Forall₂ Answer.Alike (answers calls s) (answers calls t) := by
  induction calls generalizing s t with
  | nil => exact .nil
  | cons call calls ih =>
    obtain ⟨hanswer, hafter⟩ := h call s t hst
    exact .cons hanswer (ih hafter)

end TokenStream

/-! ### The tokens left of a lexer -/

namespace Lexer

theorem hasNext_eq (lexer : Lexer) :
    lexer.hasNext = (lexer.tokens.head?.isSome, lexer.skipGap) := by
  rw [hasNext, ← isSome_next?]
  cases hnext : lexer.next? with
  | none =>
    rw [tokens_of_next?_eq_none hnext]
    rfl
  | some taken =>
    rw [tokens_of_next?_eq_some hnext]
    rfl

/-- A lexer hands out the first of the tokens left, and has the others left then. -/
theorem take?_eq (lexer : Lexer) :
    lexer.take?.1 = lexer.tokens.head? ∧ lexer.take?.2.tokens = lexer.tokens.tail := by
  unfold take?
  cases hnext : lexer.next? with
  | none =>
    have hnil : lexer.tokens = [] := tokens_of_next?_eq_none hnext
    exact ⟨by rw [hnil]; rfl, by rw [tokens_skipGap, hnil]; rfl⟩
  | some taken =>
    rw [tokens_of_next?_eq_some hnext]
    exact ⟨rfl, rfl⟩

theorem nextToken_eq (lexer : Lexer) :
    lexer.nextToken = (lexer.take?.1.getD (.eof lexer.position), lexer.take?.2) := by
  unfold nextToken take?
  cases lexer.next? <;> rfl

end Lexer

/-! ### The tokens left behind a buffer -/

namespace Peekable

/-- Whether exactly the given tokens are left: all of them in the list, or the first of them in the
buffer. -/
def Holds (p : Peekable) (tokens : List Token) : Prop :=
  p.buffer = none ∧ p.rest = tokens ∨ p.buffer = some tokens.head? ∧ p.rest = tokens.tail

theorem holds_ofList (tokens : List Token) : (ofList tokens).Holds tokens :=
  .inl ⟨rfl, rfl⟩

variable {p : Peekable} {tokens : List Token}

theorem Holds.peek (h : p.Holds tokens) :
    p.peek.1 = tokens.head? ∧ p.peek.2.Holds tokens := by
  unfold Peekable.peek
  rcases h with ⟨hbuffer, hrest⟩ | ⟨hbuffer, hrest⟩
  · rw [hbuffer, hrest]
    exact ⟨rfl, .inr ⟨rfl, rfl⟩⟩
  · rw [hbuffer]
    exact ⟨rfl, .inr ⟨hbuffer, hrest⟩⟩

theorem Holds.next (h : p.Holds tokens) :
    p.next.1 = tokens.head? ∧ p.next.2.Holds tokens.tail := by
  unfold Peekable.next
  rcases h with ⟨hbuffer, hrest⟩ | ⟨hbuffer, hrest⟩
  · rw [hbuffer, hrest]
    exact ⟨rfl, .inl ⟨rfl, rfl⟩⟩
  · rw [hbuffer, hrest]
    exact ⟨rfl, .inl ⟨rfl, rfl⟩⟩

theorem Holds.drain_eq (h : p.Holds tokens) : TokenStream.drain p = tokens := by
  induction tokens generalizing p with
  | nil =>
    have hleft : TokenStream.hasNext p = (false, p.peek.2) := by
      show (p.peek.1.isSome, p.peek.2) = _
      rw [h.peek.1]
      rfl
    exact TokenStream.drain_of_dry hleft
  | cons token rest ih =>
    have hleft : TokenStream.hasNext p = (true, p.peek.2) := by
      show (p.peek.1.isSome, p.peek.2) = _
      rw [h.peek.1]
      rfl
    obtain ⟨htoken, hafter⟩ := h.peek.2.next
    have htake : TokenStream.nextToken p.peek.2 = (token, p.peek.2.next.2) := by
      show (p.peek.2.next.1.getD _, p.peek.2.next.2) = _
      rw [htoken]
      rfl
    rw [TokenStream.drain_of_hasNext hleft, htake]
    exact congrArg (token :: ·) (ih hafter)

end Peekable

/-! ### The streams of a text -/

/-- A lexer and a buffered list stay in step if they have the same tokens left. -/
theorem isKept_holds_tokens :
    TokenStream.IsKept fun (lexer : Lexer) (p : Peekable) => p.Holds lexer.tokens := by
  intro call lexer p h
  obtain ⟨htaken, hafter⟩ := lexer.take?_eq
  cases call with
  | hasNext =>
    show TokenStream.Answer.Alike (.left lexer.hasNext.1) (.left p.peek.1.isSome) ∧
      p.peek.2.Holds lexer.hasNext.2.tokens
    rw [lexer.hasNext_eq, h.peek.1, lexer.tokens_skipGap]
    exact ⟨.same _, h.peek.2⟩
  | nextToken =>
    show TokenStream.Answer.Alike (.token lexer.nextToken.1)
        (.token (p.next.1.getD (.eof .unknown))) ∧ p.next.2.Holds lexer.nextToken.2.tokens
    rw [lexer.nextToken_eq, h.next.1, hafter, htaken]
    refine ⟨?_, h.next.2⟩
    -- once dry, the lexer ends the input where it stands, and the list at no place
    cases lexer.tokens.head? with
    | none => exact .ends _ _
    | some token => exact .same _
  | next =>
    show TokenStream.Answer.Alike (.taken lexer.take?.1) (.taken p.next.1) ∧
      p.next.2.Holds lexer.take?.2.tokens
    rw [h.next.1, hafter, htaken]
    exact ⟨.same _, h.next.2⟩

/-- A lexer and the list of all tokens answer all calls alike, and the parser reads the same from
both of them: what it reads from the text. -/
theorem streams_agree (text : String) :
    (∀ calls, List.Forall₂ TokenStream.Answer.Alike
        (TokenStream.answers calls (Lexer.ofText text))
        (TokenStream.answers calls (Peekable.ofList (tokenize text)))) ∧
      ∀ types,
        Parser.OnDemand.parse (Lexer.ofText text) types =
            Parser.OnDemand.parse (Peekable.ofList (tokenize text)) types ∧
          Parser.OnDemand.parse (Lexer.ofText text) types = parseText text types := by
  have hholds : (Peekable.ofList (tokenize text)).Holds (Lexer.ofText text).tokens :=
    Peekable.holds_ofList _
  refine ⟨isKept_holds_tokens.forall₂_answers hholds, fun types => ?_⟩
  have hlexer : Parser.OnDemand.parse (Lexer.ofText text) types = parseText text types :=
    Parser.OnDemand.parse_eq _ _
  have hlist : Parser.OnDemand.parse (Peekable.ofList (tokenize text)) types =
      parseText text types := by
    rw [Parser.OnDemand.parse_eq, parse, hholds.drain_eq, ← TokenStream.drain_lexer]
    rfl
  exact ⟨hlexer.trans hlist.symm, hlexer⟩

end MiniPL
