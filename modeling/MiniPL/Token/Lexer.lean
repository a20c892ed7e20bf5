import MiniPL.Text.Blank
import MiniPL.Token

/-!
# The lexer

Between two tokens stand blanks, line comments (`//` through the end of the line) and block comments
(`/*` to `*/`, which nest); `skipGap` passes over them.  A token is then as long as its first
character allows: a run of digits, a word, a string with escapes, a sign of two characters, or a
sign of one.  A character that starts no token is an unknown token by itself, and so is the rest of
the text from the opening quote of a string that is never closed.

Definitions: `Lexer`, `Lexer.next?` gives one token at a time, `tokenize` all of them.
Every token takes at least one character (`Lexer.length_lt_of_next?`).
-/

namespace MiniPL

open Text (isBlank)

/-- A reader of tokens: the characters still to read and the place of the first of them. -/
structure Lexer where
  rest : List Char
  position : Position
  deriving DecidableEq, Repr

namespace Lexer

/-- The lexer at the start of a text. -/
def ofText (text : String) : Lexer :=
  ⟨text.toList, .start⟩

/-! ### Gaps between tokens -/

/-- What the next character of a gap belongs to; `depth` counts the block comments around the
innermost one.  It has no bound; a signed counter of 32 bits tells the same as long as fewer than
`2 ^ 31` comments are open at once. -/
inductive Gap
  /-- The stretch between comments. -/
  | blank
  /-- A line comment. -/
  | lineComment
  /-- The second character of an opening `/*`. -/
  | opening (depth : Nat)
  /-- The inside of a block comment. -/
  | blockComment (depth : Nat)
  /-- The second character of a closing `*/`. -/
  | closing (depth : Nat)
  deriving DecidableEq, Repr

/-- What the character behind `c` belongs to, where `ahead?` is that character; none if `c` itself
belongs to no gap. -/
def Gap.next? : Gap → (c : Char) → (ahead? : Option Char) → Option Gap
  | blank, c, ahead? =>
    if isBlank c then some blank
    else if c = '/' ∧ ahead? = some '/' then some lineComment
    else if c = '/' ∧ ahead? = some '*' then some (opening 0)
    else none
  | lineComment, c, _ => some (if c = '\n' then blank else lineComment)
  | opening depth, _, _ => some (blockComment depth)
  | blockComment depth, c, ahead? =>
    if c = '*' ∧ ahead? = some '/' then some (closing depth)
    else if c = '/' ∧ ahead? = some '*' then some (opening (depth + 1))
    else some (blockComment depth)
  | closing 0, _, _ => some blank
  | closing (outer + 1), _, _ => some (blockComment outer)

/-- Only between comments can a character end a gap. -/
theorem Gap.eq_blank_of_next?_eq_none {gap : Gap} {c : Char} {ahead? : Option Char}
    (h : gap.next? c ahead? = none) : gap = blank := by
  cases gap with
  | blank => rfl
  | lineComment => cases h
  | opening => cases h
  | blockComment depth => simp only [next?] at h; grind
  | closing depth => cases depth <;> cases h

/-- Passes over the rest of a gap. -/
def skipGapFrom (gap : Gap) : List Char → Position → Lexer
  | [], p => ⟨[], p⟩
  | c :: cs, p =>
    match gap.next? c cs.head? with
    | some next => skipGapFrom next cs (p.after c)
    | none => ⟨c :: cs, p⟩

/-- Passes over the gap before the next token. -/
def skipGap (lexer : Lexer) : Lexer :=
  skipGapFrom .blank lexer.rest lexer.position

theorem length_skipGapFrom_le (gap : Gap) (cs : List Char) (p : Position) :
    (skipGapFrom gap cs p).rest.length ≤ cs.length := by
  fun_induction skipGapFrom gap cs p with
  | case1 => exact Nat.le_refl _
  | case2 gap c cs p next h ih => exact Nat.le_succ_of_le ih
  | case3 => exact Nat.le_refl _

theorem length_skipGap_le (lexer : Lexer) : lexer.skipGap.rest.length ≤ lexer.rest.length :=
  length_skipGapFrom_le _ _ _

/-! ### Strings -/

/-- What follows an opening quote: the text collected, whether a quote closed it, and the lexer
behind it. -/
structure StringScan where
  text : List Char
  closed : Bool
  after : Lexer
  deriving DecidableEq, Repr

/-- The scan of a string that starts with one more character. -/
def StringScan.cons (c : Char) (scan : StringScan) : StringScan :=
  ⟨c :: scan.text, scan.closed, scan.after⟩

@[simp] theorem StringScan.text_cons (c : Char) (scan : StringScan) :
    (scan.cons c).text = c :: scan.text := rfl

@[simp] theorem StringScan.closed_cons (c : Char) (scan : StringScan) :
    (scan.cons c).closed = scan.closed := rfl

@[simp] theorem StringScan.after_cons (c : Char) (scan : StringScan) :
    (scan.cons c).after = scan.after := rfl

/-- The character that an escape stands for. -/
def unescape (c : Char) : Char :=
  if c = 'n' then '\n' else if c = 't' then '\t' else c

/-- Reads a string up to its closing quote; a backslash takes the next character literally, except
that `\n` and `\t` stand for a line feed and a tab. -/
def scanString : List Char → Position → StringScan
  | [], p => ⟨[], false, [], p⟩
  | c :: cs, p =>
    if c = '"' then ⟨[], true, cs, p.after c⟩
    else if c = '\\' then
      match cs with
      | [] => ⟨[], false, [], p.after c⟩
      | d :: cs => (scanString cs ((p.after c).after d)).cons (unescape d)
    else (scanString cs (p.after c)).cons c

theorem length_scanString_le (cs : List Char) (p : Position) :
    (scanString cs p).after.rest.length ≤ cs.length := by
  fun_induction scanString cs p with
  | case1 => exact Nat.le_refl _
  | case2 => exact Nat.le_succ _
  | case3 => exact Nat.le_succ _
  | case4 _ _ d cs ih => exact Nat.le_trans ih (Nat.le_add_right _ 2)
  | case5 _ _ _ _ _ ih => exact Nat.le_succ_of_le ih

/-! ### Tokens -/

/-- The letters that may start a word. -/
def isLetter (c : Char) : Bool := c.isAlpha

/-- The characters that may continue a word. -/
def isWordChar (c : Char) : Bool := c.isAlphanum || c == '_'

/-- The kind of a word. -/
def wordKind (word : String) : TokenKind :=
  if word = "true" ∨ word = "false" then .boolLiteral
  else
    match Keyword.ofWord? word with
    | some keyword => .keyword keyword
    | none => .identifier

/-- The signs of one character. -/
def signs : List (Char × TokenKind) :=
  [('+', .plus), ('-', .minus), ('*', .star), ('/', .slash), ('<', .less), ('=', .equal),
    ('&', .and), ('!', .not), (';', .semicolon), (':', .colon), ('(', .leftParen),
    (')', .rightParen)]

/-- The kind of a character that stands alone. -/
def signKind (c : Char) : TokenKind :=
  (signs.lookup c).getD .unknown

/-- The signs of two characters. -/
def pairKind? (c d : Char) : Option TokenKind :=
  if c = ':' ∧ d = '=' then some .assign else if c = '.' ∧ d = '.' then some .range else none

/-- The token at `p` made of `c` and the longest run of members behind it. -/
def scanRun (isMember : Char → Bool) (kind : String → TokenKind) (c : Char) (cs : List Char)
    (p : Position) : Token × Lexer :=
  let run := c :: cs.takeWhile isMember
  (⟨kind (String.ofList run), String.ofList run, p⟩, ⟨cs.dropWhile isMember, p.advance run⟩)

/-- The token at `p` made of the sign that starts with `c`. -/
def scanSign (c : Char) (cs : List Char) (p : Position) : Token × Lexer :=
  let single : Token × Lexer := (⟨signKind c, String.ofList [c], p⟩, ⟨cs, p.after c⟩)
  match cs with
  | [] => single
  | d :: ds =>
    match pairKind? c d with
    | some kind => (⟨kind, String.ofList [c, d], p⟩, ⟨ds, (p.after c).after d⟩)
    | none => single

/-- The token that starts with `c` at `p`, and the lexer behind it. -/
def scanToken (c : Char) (cs : List Char) (p : Position) : Token × Lexer :=
  if c = '"' then
    let scan := scanString cs (p.after c)
    if scan.closed then (⟨.stringLiteral, String.ofList scan.text, p⟩, scan.after)
    else (⟨.unknown, String.ofList ('"' :: scan.text), p⟩, scan.after)
  else if c.isDigit then scanRun Char.isDigit (fun _ => .intLiteral) c cs p
  else if isLetter c then scanRun isWordChar wordKind c cs p
  else scanSign c cs p

theorem length_scanToken_le (c : Char) (cs : List Char) (p : Position) :
    (scanToken c cs p).2.rest.length ≤ cs.length := by
  unfold scanToken
  split
  · dsimp only
    split <;> exact length_scanString_le _ _
  · split
    · exact (List.dropWhile_sublist _).length_le
    · split
      · exact (List.dropWhile_sublist _).length_le
      · unfold scanSign
        split
        · exact Nat.le_refl _
        · split <;> simp

/-- The next token and the lexer behind it; none at the end of the text. -/
def next? (lexer : Lexer) : Option (Token × Lexer) :=
  match lexer.skipGap with
  | ⟨[], _⟩ => none
  | ⟨c :: cs, p⟩ => some (scanToken c cs p)

theorem length_lt_of_next? {lexer after : Lexer} {token : Token}
    (h : lexer.next? = some (token, after)) : after.rest.length < lexer.rest.length := by
  have hgap := lexer.length_skipGap_le
  unfold next? at h
  split at h
  · cases h
  · rename_i c cs p heq
    rw [heq] at hgap
    have hscan := length_scanToken_le c cs p
    rw [Option.some.inj h] at hscan
    exact Nat.lt_of_lt_of_le (Nat.lt_succ_of_le hscan) hgap

/-- All tokens from a place on. -/
def tokens (lexer : Lexer) : List Token :=
  match _h : lexer.next? with
  | none => []
  | some (token, after) => token :: after.tokens
termination_by lexer.rest.length
decreasing_by exact length_lt_of_next? _h

end Lexer

/-- All tokens of a text. -/
def tokenize (text : String) : List Token :=
  (Lexer.ofText text).tokens

end MiniPL
