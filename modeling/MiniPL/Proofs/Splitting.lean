import MiniPL.Proofs.Gaps

/-!
# The split of a text into tokens

A text falls apart into gaps and the raw texts of its tokens, without a character left out or read
twice, and every token is placed where its raw text starts.

Main statement: `splits_tokenize`.  The notions are `placeAfter` for places, `IsRaw` for the raw
text of a token, `Splits` for the split.
-/

namespace MiniPL

/-! ### Places -/

/-- The place behind a text, counted in one go. -/
def placeAfter (before : List Char) : Position :=
  ⟨1 + before.count '\n', 1 + (before.reverse.takeWhile fun c => c != '\n').length⟩

theorem after_placeAfter (before : List Char) (c : Char) :
    (placeAfter before).after c = placeAfter (before ++ [c]) := by
  unfold placeAfter Position.after
  by_cases hc : c = '\n'
  · subst hc
    simp [Nat.add_assoc]
  · simp [hc, Nat.add_comm]

theorem advance_placeAfter (before cs : List Char) :
    (placeAfter before).advance cs = placeAfter (before ++ cs) := by
  induction cs generalizing before with
  | nil => rw [List.append_nil, Position.advance_nil]
  | cons c cs ih =>
    rw [Position.advance_cons, after_placeAfter, ih, List.append_assoc, List.singleton_append]

/-! ### Raw texts -/

/-- The text of a kind of token that is written in one way only. -/
def TokenKind.sign? : TokenKind → Option (List Char)
  | plus => some ['+']
  | minus => some ['-']
  | star => some ['*']
  | slash => some ['/']
  | less => some ['<']
  | equal => some ['=']
  | and => some ['&']
  | not => some ['!']
  | semicolon => some [';']
  | colon => some [':']
  | assign => some [':', '=']
  | range => some ['.', '.']
  | leftParen => some ['(']
  | rightParen => some [')']
  | _ => none

namespace Lexer

/-- `Unescapes body value`: between quotes, `body` stands for `value`. -/
inductive Unescapes : List Char → List Char → Prop
  | nil : Unescapes [] []
  | plain {c : Char} {body value : List Char} (hquote : c ≠ '"') (hslash : c ≠ '\\')
    (h : Unescapes body value) : Unescapes (c :: body) (c :: value)
  | lineFeed {body value : List Char} (h : Unescapes body value) :
    Unescapes ('\\' :: 'n' :: body) ('\n' :: value)
  | tab {body value : List Char} (h : Unescapes body value) :
    Unescapes ('\\' :: 't' :: body) ('\t' :: value)
  | literal {c : Char} {body value : List Char} (hn : c ≠ 'n') (ht : c ≠ 't')
    (h : Unescapes body value) : Unescapes ('\\' :: c :: body) (c :: value)

/-- What a string without its closing quote stands for; a backslash at the very end is dropped. -/
def UnescapesOpen (body value : List Char) : Prop :=
  Unescapes body value ∨ ∃ init, body = init ++ ['\\'] ∧ Unescapes init value

/-- The words that are no identifiers. -/
def IsReserved (word : List Char) : Prop :=
  word = "true".toList ∨ word = "false".toList ∨ ∃ keyword : Keyword, word = keyword.word.toList

/-- No character that a word may go on with stands in front of `rest`. -/
def EndsWord (rest : List Char) : Prop :=
  ∀ c, rest.head? = some c → isWordChar c = false

/-- `IsRaw kind lexeme raw rest`: in front of `rest`, the text `raw` is a token. -/
inductive IsRaw : TokenKind → (lexeme raw rest : List Char) → Prop
  | int {raw rest : List Char} (hne : raw ≠ []) (hdigits : ∀ c ∈ raw, c.isDigit = true)
    (hrest : ∀ c, rest.head? = some c → c.isDigit = false) : IsRaw .intLiteral raw raw rest
  | bool {raw rest : List Char} (hraw : raw = "true".toList ∨ raw = "false".toList)
    (hrest : EndsWord rest) : IsRaw .boolLiteral raw raw rest
  | keyword {raw rest : List Char} (keyword : Keyword) (hraw : raw = keyword.word.toList)
    (hrest : EndsWord rest) : IsRaw (.keyword keyword) raw raw rest
  | identifier {first : Char} {others rest : List Char} (hfirst : isLetter first = true)
    (hothers : ∀ c ∈ others, isWordChar c = true) (hreserved : ¬ IsReserved (first :: others))
    (hrest : EndsWord rest) : IsRaw .identifier (first :: others) (first :: others) rest
  | sign {kind : TokenKind} {raw rest : List Char} (hsign : kind.sign? = some raw)
    (hlongest : ∀ other text, TokenKind.sign? other = some text → text <+: raw ++ rest →
      text.length ≤ raw.length) : IsRaw kind raw raw rest
  | string {body value rest : List Char} (hbody : Unescapes body value) :
    IsRaw .stringLiteral value ('"' :: body ++ ['"']) rest
  | stray {c : Char} {rest : List Char} (hquote : c ≠ '"') (hdigit : c.isDigit = false)
    (hletter : isLetter c = false)
    (hsign : ∀ other text, TokenKind.sign? other = some text → ¬ text <+: c :: rest) :
    IsRaw .unknown [c] [c] rest
  | unclosed {body value : List Char} (hbody : UnescapesOpen body value) :
    IsRaw .unknown ('"' :: value) ('"' :: body) []

/-! ### Strings -/

theorem Unescapes.escape (c : Char) {body value : List Char} (h : Unescapes body value) :
    Unescapes ('\\' :: c :: body) (unescape c :: value) := by
  unfold unescape
  by_cases hn : c = 'n'
  · rw [if_pos hn, hn]
    exact .lineFeed h
  · rw [if_neg hn]
    by_cases ht : c = 't'
    · rw [if_pos ht, ht]
      exact .tab h
    · rw [if_neg ht]
      exact .literal hn ht h

/-- What the scan of a string has read when it stops. -/
def StringScan.Reads (scan : StringScan) (cs : List Char) (p : Position) : Prop :=
  if scan.closed then
    ∃ body, cs = body ++ '"' :: scan.after.rest ∧ Unescapes body scan.text ∧
      scan.after.position = p.advance (body ++ ['"'])
  else scan.after = ⟨[], p.advance cs⟩ ∧ UnescapesOpen cs scan.text

/-- A string goes on with a piece of text that stands for one character. -/
theorem StringScan.Reads.cons {scan : StringScan} {cs : List Char} {p : Position} {c : Char}
    (piece : List Char)
    (hpiece : ∀ body value, Unescapes body value → Unescapes (piece ++ body) (c :: value))
    (h : scan.Reads cs (p.advance piece)) : (scan.cons c).Reads (piece ++ cs) p := by
  unfold StringScan.Reads at h ⊢
  rw [StringScan.closed_cons, StringScan.text_cons, StringScan.after_cons]
  split at h
  · rename_i hclosed
    obtain ⟨body, rfl, hbody, hposition⟩ := h
    rw [if_pos hclosed]
    refine ⟨piece ++ body, (List.append_assoc ..).symm, hpiece _ _ hbody, ?_⟩
    rw [hposition, List.append_assoc, ← Position.advance_append]
  · rename_i hclosed
    obtain ⟨hafter, hopen⟩ := h
    rw [if_neg hclosed]
    refine ⟨by rw [hafter, Position.advance_append], ?_⟩
    rcases hopen with hopen | ⟨init, rfl, hinit⟩
    · exact .inl (hpiece _ _ hopen)
    · exact .inr ⟨piece ++ init, (List.append_assoc ..).symm, hpiece _ _ hinit⟩

theorem reads_scanString (cs : List Char) (p : Position) : (scanString cs p).Reads cs p := by
  fun_induction scanString cs p with
  | case1 p => exact ⟨rfl, .inl .nil⟩
  | case2 p cs => exact ⟨[], rfl, .nil, rfl⟩
  | case3 p hquote => exact ⟨rfl, .inr ⟨[], rfl, .nil⟩⟩
  | case4 p c cs _ ih =>
    exact StringScan.Reads.cons ['\\', c] (fun _ _ h => h.escape c) ih
  | case5 c cs p hquote hslash ih =>
    exact StringScan.Reads.cons [c] (fun _ _ h => h.plain hquote hslash) ih

/-! ### Words and numbers -/

theorem isRaw_wordKind {first : Char} {others rest : List Char} (hfirst : isLetter first = true)
    (hothers : ∀ c ∈ others, isWordChar c = true) (hrest : EndsWord rest) :
    IsRaw (wordKind (String.ofList (first :: others))) (first :: others) (first :: others)
      rest := by
  unfold wordKind
  by_cases hbool :
      String.ofList (first :: others) = "true" ∨ String.ofList (first :: others) = "false"
  · rw [if_pos hbool]
    refine .bool ?_ hrest
    rcases hbool with hbool | hbool
    · exact .inl (by rw [← hbool, String.toList_ofList])
    · exact .inr (by rw [← hbool, String.toList_ofList])
  · rw [if_neg hbool]
    cases hkeyword : Keyword.ofWord? (String.ofList (first :: others)) with
    | some keyword =>
      refine .keyword keyword ?_ hrest
      rw [Keyword.word_of_ofWord? hkeyword, String.toList_ofList]
    | none =>
      refine .identifier hfirst hothers ?_ hrest
      rintro (htrue | hfalse | ⟨keyword, hword⟩)
      · exact hbool (.inl (by rw [htrue, String.ofList_toList]))
      · exact hbool (.inr (by rw [hfalse, String.ofList_toList]))
      · rw [hword, String.ofList_toList, Keyword.ofWord?_word] at hkeyword
        cases hkeyword

theorem not_member_head?_dropWhile {isMember : Char → Bool} {cs : List Char} (c : Char)
    (h : (cs.dropWhile isMember).head? = some c) : isMember c = false := by
  have hnot := List.head?_dropWhile_not isMember cs
  rw [h] at hnot
  exact hnot

/-! ### Signs -/

/-- A sign is one character of the table or a pair. -/
theorem sign?_cases {kind : TokenKind} {text : List Char} (h : kind.sign? = some text) :
    (∃ c, text = [c] ∧ signs.lookup c = some kind) ∨
      ∃ c d, text = [c, d] ∧ pairKind? c d = some kind := by
  cases kind with
  | assign => exact .inr ⟨':', '=', (Option.some.inj h).symm, rfl⟩
  | range => exact .inr ⟨'.', '.', (Option.some.inj h).symm, rfl⟩
  | eof | unknown | identifier | intLiteral | stringLiteral | boolLiteral | keyword => cases h
  | plus | minus | star | slash | less | equal | and | not | semicolon | colon | leftParen
  | rightParen => exact .inl ⟨_, (Option.some.inj h).symm, rfl⟩

theorem sign?_of_lookup {c : Char} {kind : TokenKind} (h : signs.lookup c = some kind) :
    kind.sign? = some [c] := by
  have hall : ∀ entry ∈ signs, entry.2.sign? = some [entry.1] := by decide
  obtain ⟨before, after, heq, -⟩ := List.lookup_eq_some_iff.1 h
  exact hall (c, kind) (heq ▸ List.mem_append_right _ List.mem_cons_self)

theorem sign?_of_pairKind? {c d : Char} {kind : TokenKind} (h : pairKind? c d = some kind) :
    kind.sign? = some [c, d] := by
  unfold pairKind? at h
  split at h
  · rename_i hpair
    cases h
    rw [hpair.1, hpair.2]
    rfl
  · split at h
    · rename_i hpair
      cases h
      rw [hpair.1, hpair.2]
      rfl
    · cases h

/-- Whether `c` and the character behind it are no sign. -/
def NoPair (c : Char) (cs : List Char) : Prop :=
  ∀ d, cs.head? = some d → pairKind? c d = none

/-- A sign in front of which no pair stands is one character of the table. -/
theorem lookup_of_sign? {c : Char} {cs text : List Char} {kind : TokenKind}
    (hpair : NoPair c cs) (hsign : kind.sign? = some text) (hfits : text <+: c :: cs) :
    text = [c] ∧ signs.lookup c = some kind := by
  rcases sign?_cases hsign with ⟨d, rfl, hlookup⟩ | ⟨d, e, rfl, hkind⟩
  · obtain ⟨rfl, -⟩ := List.cons_prefix_cons.1 hfits
    exact ⟨rfl, hlookup⟩
  · obtain ⟨rfl, hbehind⟩ := List.cons_prefix_cons.1 hfits
    have hhead : cs.head? = some e := by
      obtain ⟨after, rfl⟩ := hbehind
      rfl
    rw [hpair e hhead] at hkind
    cases hkind

theorem isRaw_signKind {c : Char} {cs : List Char} (hquote : c ≠ '"') (hdigit : c.isDigit = false)
    (hletter : isLetter c = false) (hpair : NoPair c cs) : IsRaw (signKind c) [c] [c] cs := by
  unfold signKind
  cases hlookup : signs.lookup c with
  | some kind =>
    refine .sign (sign?_of_lookup hlookup) fun other text hother hfits => ?_
    exact Nat.le_of_eq (congrArg List.length (lookup_of_sign? hpair hother hfits).1)
  | none =>
    refine .stray hquote hdigit hletter fun other text hother hfits => ?_
    have hsome := (lookup_of_sign? hpair hother hfits).2
    rw [hlookup] at hsome
    cases hsome

theorem isRaw_pairKind? {c d : Char} {kind : TokenKind} (h : pairKind? c d = some kind)
    (rest : List Char) : IsRaw kind [c, d] [c, d] rest := by
  refine .sign (sign?_of_pairKind? h) fun other text hother _ => ?_
  rcases sign?_cases hother with ⟨_, rfl, -⟩ | ⟨_, _, rfl, -⟩
  · exact Nat.le_succ 1
  · exact Nat.le_refl 2

/-! ### Tokens -/

/-- What the scan of a token at `p` has read when it stops. -/
def Scans (cs : List Char) (p : Position) (scan : Token × Lexer) : Prop :=
  ∃ raw, cs = raw ++ scan.2.rest ∧ raw ≠ [] ∧ scan.2.position = p.advance raw ∧
    scan.1.position = p ∧ IsRaw scan.1.kind scan.1.lexeme.toList raw scan.2.rest

theorem scans_scanRun {isMember : Char → Bool} {kind : String → TokenKind} {c : Char}
    {cs : List Char} (p : Position)
    (h : ∀ run rest, (∀ d ∈ run, isMember d = true) →
      (∀ d, rest.head? = some d → isMember d = false) →
      IsRaw (kind (String.ofList (c :: run))) (c :: run) (c :: run) rest) :
    Scans (c :: cs) p (scanRun isMember kind c cs p) := by
  refine ⟨c :: cs.takeWhile isMember, ?_, List.cons_ne_nil _ _, rfl, rfl, ?_⟩
  · exact congrArg (c :: ·) List.takeWhile_append_dropWhile.symm
  · show IsRaw (kind _) (String.ofList _).toList _ _
    rw [String.toList_ofList]
    exact h _ _ (List.all_eq_true.1 List.all_takeWhile) not_member_head?_dropWhile

theorem scans_scanSign {c : Char} (cs : List Char) (p : Position) (hquote : c ≠ '"')
    (hdigit : c.isDigit = false) (hletter : isLetter c = false) :
    Scans (c :: cs) p (scanSign c cs p) := by
  unfold scanSign
  cases cs with
  | nil =>
    refine ⟨[c], rfl, List.cons_ne_nil _ _, rfl, rfl, ?_⟩
    show IsRaw (signKind c) (String.ofList [c]).toList _ _
    rw [String.toList_ofList]
    exact isRaw_signKind hquote hdigit hletter fun d hd => nomatch hd
  | cons d ds =>
    dsimp only
    cases hpair : pairKind? c d with
    | some kind =>
      refine ⟨[c, d], rfl, List.cons_ne_nil _ _, rfl, rfl, ?_⟩
      show IsRaw kind (String.ofList [c, d]).toList _ _
      rw [String.toList_ofList]
      exact isRaw_pairKind? hpair ds
    | none =>
      refine ⟨[c], rfl, List.cons_ne_nil _ _, rfl, rfl, ?_⟩
      show IsRaw (signKind c) (String.ofList [c]).toList _ _
      rw [String.toList_ofList]
      exact isRaw_signKind hquote hdigit hletter fun e he => Option.some.inj he ▸ hpair

theorem scans_string (cs : List Char) (p : Position) :
    Scans ('"' :: cs) p (scanToken '"' cs p) := by
  have hreads := reads_scanString cs (p.after '"')
  unfold StringScan.Reads at hreads
  unfold scanToken
  rw [if_pos rfl]
  dsimp only
  cases hclosed : (scanString cs (p.after '"')).closed with
  | true =>
    rw [hclosed, if_pos rfl] at hreads
    obtain ⟨body, heq, hbody, hposition⟩ := hreads
    rw [if_pos rfl]
    refine ⟨'"' :: body ++ ['"'], ?_, List.cons_ne_nil _ _, hposition, rfl, ?_⟩
    · rw [List.append_assoc, List.cons_append]
      exact congrArg ('"' :: ·) heq
    · show IsRaw .stringLiteral (String.ofList _).toList _ _
      rw [String.toList_ofList]
      exact .string hbody
  | false =>
    rw [hclosed, if_neg Bool.false_ne_true] at hreads
    obtain ⟨hafter, hopen⟩ := hreads
    rw [if_neg Bool.false_ne_true, hafter]
    refine ⟨'"' :: cs, (List.append_nil _).symm, List.cons_ne_nil _ _, rfl, rfl, ?_⟩
    show IsRaw .unknown (String.ofList _).toList _ _
    rw [String.toList_ofList]
    exact .unclosed hopen

/-- A token takes its raw text off the text, whatever it starts with. -/
theorem scans_scanToken (c : Char) (cs : List Char) (p : Position) :
    Scans (c :: cs) p (scanToken c cs p) := by
  by_cases hquote : c = '"'
  · rw [hquote]
    exact scans_string cs p
  unfold scanToken
  rw [if_neg hquote]
  by_cases hdigit : c.isDigit = true
  · rw [if_pos hdigit]
    refine scans_scanRun p fun run rest hrun hrest => .int (List.cons_ne_nil _ _) ?_ hrest
    exact List.forall_mem_cons.2 ⟨hdigit, hrun⟩
  rw [if_neg hdigit]
  by_cases hletter : isLetter c = true
  · rw [if_pos hletter]
    exact scans_scanRun p fun run rest hrun hrest => isRaw_wordKind hletter hrun hrest
  · rw [if_neg hletter]
    exact scans_scanSign cs p hquote (Bool.not_eq_true _ ▸ hdigit) (Bool.not_eq_true _ ▸ hletter)

/-! ### The split -/

/-- `Splits before cs tokens`: behind the text `before`, `cs` falls apart into gaps and tokens. -/
inductive Splits : List Char → List Char → List Token → Prop
  | last {before gap : List Char} (hgap : IsLastGap gap) : Splits before gap []
  | token {before gap raw rest : List Char} {token : Token} {tokens : List Token}
    (hgap : IsGap gap) (hne : raw ≠ []) (hraw : IsRaw token.kind token.lexeme.toList raw rest)
    (hposition : token.position = placeAfter (before ++ gap))
    (hrest : Splits (before ++ gap ++ raw) rest tokens) :
    Splits before (gap ++ raw ++ rest) (token :: tokens)

theorem rest_skipGap_of_next?_eq_none {lexer : Lexer} (h : lexer.next? = none) :
    lexer.skipGap.rest = [] := by
  unfold next? at h
  split at h
  · rename_i heq
    rw [heq]
  · cases h

theorem scans_of_next?_eq_some {lexer after : Lexer} {token : Token}
    (h : lexer.next? = some (token, after)) :
    Scans lexer.skipGap.rest lexer.skipGap.position (token, after) := by
  unfold next? at h
  split at h
  · cases h
  · rename_i c cs p heq
    rw [heq, ← Option.some.inj h]
    exact scans_scanToken c cs p

/-- From any place on, the rest of the text falls apart into the tokens still to be read. -/
theorem splits_tokens (lexer : Lexer) (before : List Char)
    (hposition : lexer.position = placeAfter before) :
    Splits before lexer.rest lexer.tokens := by
  fun_induction Lexer.tokens lexer generalizing before with
  | case1 lexer h =>
    obtain ⟨gap, hgap, -, hkind⟩ := lexer.exists_gap
    rw [rest_skipGap_of_next?_eq_none h, List.append_nil] at hgap
    rw [hgap]
    rcases hkind with hkind | ⟨-, hkind⟩
    · exact .last (.inl hkind)
    · exact .last hkind
  | case2 lexer token after h ih =>
    obtain ⟨gap, hgap, hskip, hkind⟩ := lexer.exists_gap
    obtain ⟨raw, hraw, hne, hafter, htoken, hisRaw⟩ := scans_of_next?_eq_some h
    rw [hposition, advance_placeAfter] at hskip
    rw [hskip, advance_placeAfter] at hafter
    have hkind : IsGap gap := by
      rcases hkind with hkind | ⟨hnil, -⟩
      · exact hkind
      · rw [hnil] at hraw
        exact absurd (List.append_eq_nil_iff.1 hraw.symm).1 hne
    rw [hgap, hraw, ← List.append_assoc]
    exact .token hkind hne hisRaw (htoken.trans hskip) (ih _ hafter)

theorem Splits.exists_isRaw {before cs : List Char} {tokens : List Token}
    (h : Splits before cs tokens) :
    ∀ token ∈ tokens, ∃ raw rest, IsRaw token.kind token.lexeme.toList raw rest := by
  induction h with
  | last => exact fun _ hmem => nomatch hmem
  | token _ _ hraw _ _ ih => exact List.forall_mem_cons.2 ⟨⟨_, _, hraw⟩, ih⟩

/-- No text has a token for its end. -/
theorem kind_ne_eof_of_mem_tokenize {text : String} {token : Token} (h : token ∈ tokenize text) :
    token.kind ≠ .eof := by
  intro hkind
  obtain ⟨raw, rest, hraw⟩ := (splits_tokens (.ofText text) [] rfl).exists_isRaw token h
  rw [hkind] at hraw
  cases hraw with
  | sign hsign => cases hsign

/-- An integer literal is written in digits. -/
theorem digits_of_mem_tokenize {text : String} {token : Token} (h : token ∈ tokenize text)
    (hkind : token.kind = .intLiteral) :
    token.lexeme.toList ≠ [] ∧ ∀ c ∈ token.lexeme.toList, c.isDigit = true := by
  obtain ⟨raw, rest, hraw⟩ := (splits_tokens (.ofText text) [] rfl).exists_isRaw token h
  rw [hkind] at hraw
  cases hraw with
  | int hne hdigits => exact ⟨hne, hdigits⟩
  | sign hsign => cases hsign

/-- Every text falls apart into gaps and the raw texts of its tokens. -/
theorem splits_tokenize (text : String) : Splits [] text.toList (tokenize text) :=
  splits_tokens (.ofText text) [] rfl

end Lexer
end MiniPL
