import MiniPL.Token.Lexer

/-!
# Token streams

Tokens are handed out on demand, from a text that is scanned as far as needed or from a list that is
there already.  A stream never has to hand out an end of input: a consumer stops when nothing is
left.

Definitions: the class `TokenStream`, its instances for `Lexer` and `List Token`, and
`TokenStream.drain`, which takes every token that is left.
-/

namespace MiniPL

/-- A source of tokens.  `size` bounds the tokens left; taking one while some are left lowers it. -/
class TokenStream (σ : Type) where
  /-- Whether a token is left. -/
  hasNext : σ → Bool × σ
  /-- The next token; the end of the input once the stream is dry. -/
  nextToken : σ → Token × σ
  /-- The next token, if one is left. -/
  next? : σ → Option Token × σ
  size : σ → Nat
  size_lt : ∀ s, (hasNext s).1 = true → size (nextToken (hasNext s).2).2 < size s

namespace TokenStream

variable {σ : Type} [TokenStream σ]

/-- Every token that is left. -/
def drain (s : σ) : List Token :=
  match _h : (hasNext s).1 with
  | false => []
  | true => (nextToken (hasNext s).2).1 :: drain (nextToken (hasNext s).2).2
termination_by size s
decreasing_by exact size_lt s _h

end TokenStream

/-! ### Scanning on demand -/

namespace Lexer

/-- Whether a token is left; the gap before it is passed over. -/
def hasNext (lexer : Lexer) : Bool × Lexer :=
  (!lexer.skipGap.rest.isEmpty, lexer.skipGap)

/-- The next token, if one is left; otherwise only the gap is passed over. -/
def take? (lexer : Lexer) : Option Token × Lexer :=
  match lexer.next? with
  | some (token, after) => (some token, after)
  | none => (none, lexer.skipGap)

/-- The next token; a dry lexer gives the end of the input at the place where it stood. -/
def nextToken (lexer : Lexer) : Token × Lexer :=
  match lexer.next? with
  | some (token, after) => (token, after)
  | none => (.eof lexer.position, lexer.skipGap)

/-- The character at which a gap ends starts no gap. -/
theorem skipGapFrom_skipGapFrom (gap : Gap) (cs : List Char) (p : Position) :
    skipGapFrom .blank (skipGapFrom gap cs p).rest (skipGapFrom gap cs p).position =
      skipGapFrom gap cs p := by
  fun_induction skipGapFrom gap cs p with
  | case1 => rfl
  | case2 gap c cs p next h ih => exact ih
  | case3 gap c cs p h =>
    have hblank : gap = .blank := Gap.eq_blank_of_next?_eq_none h
    subst hblank
    simp only [skipGapFrom, h]

/-- Passing over a gap twice is passing over it once. -/
@[simp] theorem skipGap_skipGap (lexer : Lexer) : lexer.skipGap.skipGap = lexer.skipGap :=
  skipGapFrom_skipGapFrom _ _ _

/-- A token is left exactly when the gap does not reach the end of the text. -/
theorem isSome_next? (lexer : Lexer) : lexer.next?.isSome = !lexer.skipGap.rest.isEmpty := by
  unfold next?
  split <;> simp_all

@[simp] theorem next?_skipGap (lexer : Lexer) : lexer.skipGap.next? = lexer.next? := by
  simp [next?]

instance : TokenStream Lexer where
  hasNext := hasNext
  nextToken := nextToken
  next? := take?
  size lexer := lexer.rest.length
  size_lt lexer h := by
    have hsome : lexer.next?.isSome = true := by simpa [isSome_next?, hasNext] using h
    obtain ⟨⟨token, after⟩, hnext⟩ := Option.isSome_iff_exists.1 hsome
    simpa [hasNext, nextToken, hnext] using length_lt_of_next? hnext

end Lexer

/-! ### Tokens that are there already -/

instance : TokenStream (List Token) where
  hasNext tokens := (!tokens.isEmpty, tokens)
  nextToken
    | [] => (.eof .unknown, [])
    | token :: rest => (token, rest)
  next?
    | [] => (none, [])
    | token :: rest => (some token, rest)
  size := List.length
  size_lt
    | [], h => by simp at h
    | _ :: _, _ => Nat.lt_succ_self _

/-- Draining a list of tokens gives the list. -/
theorem TokenStream.drain_list (tokens : List Token) : drain tokens = tokens := by
  induction tokens with
  | nil => rw [drain]; rfl
  | cons token rest ih =>
    rw [drain]
    exact congrArg (token :: ·) ih

/-- Draining a lexer gives all tokens from its place on. -/
theorem TokenStream.drain_lexer (lexer : Lexer) : drain lexer = lexer.tokens := by
  have hleft (lexer : Lexer) : (hasNext lexer).1 = lexer.next?.isSome := (lexer.isSome_next?).symm
  fun_induction Lexer.tokens lexer with
  | case1 lexer h =>
    rw [drain]
    split <;> simp_all
  | case2 lexer token after h ih =>
    have htake : nextToken (hasNext lexer).2 = (token, after) := by
      simp [nextToken, hasNext, Lexer.nextToken, Lexer.hasNext, h]
    rw [drain]
    split <;> simp_all

end MiniPL
