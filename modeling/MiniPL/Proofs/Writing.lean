import MiniPL.Proofs.Cutting
import Mathlib.Data.List.Chain

/-!
# Tokens written and read again

A token is written as its lexeme, a string between quotes with its quotes and backslashes behind a
backslash.  Between two tokens any blanks may stand, and none are needed unless the second would go
on with the first (`WrittenToken.Merges`).  What is written so is read again as the same tokens.

The scan of one token stops where its text does if what stands behind does not go on with it
(`Lexer.isScanned_of_admits`, with one lemma for each class of tokens); blanks and the texts of
tokens that do not merge are such (`WrittenToken.endsBefore_write`).

Main statement: `tokenize_of_written`.
-/

namespace MiniPL

open Text (isBlank)

/-! ### Characters -/

namespace Lexer

instance (word : List Char) : Decidable (IsReserved word) :=
  decidable_of_iff (word = "true".toList ∨ word = "false".toList ∨
      ∃ keyword ∈ Keyword.all, word = keyword.word.toList) <| by
    have hall : ∀ keyword : Keyword, keyword ∈ Keyword.all := fun keyword => by
      cases keyword <;> decide
    simp [IsReserved, hall]

theorem isAlpha_iff (c : Char) : c.isAlpha = true ↔
    65 ≤ c.toNat ∧ c.toNat ≤ 90 ∨ 97 ≤ c.toNat ∧ c.toNat ≤ 122 := by
  show (decide (c.val ≥ 'A'.val ∧ c.val ≤ 'Z'.val) ||
    decide (c.val ≥ 'a'.val) && decide (c.val ≤ 'z'.val)) = true ↔ _
  simp only [Bool.or_eq_true, Bool.and_eq_true, decide_eq_true_eq, ge_iff_le,
    UInt32.le_iff_toNat_le, Char.toNat_val, UInt32.reduceToNat, ↓Char.isValue, Char.reduceVal]

theorem isDigit_eq_false_of_isLetter {c : Char} (h : isLetter c = true) : c.isDigit = false := by
  rw [isLetter, isAlpha_iff] at h
  simp only [Char.isDigit, Bool.and_eq_false_iff, decide_eq_false_iff_not, ge_iff_le,
    UInt32.le_iff_toNat_le, Char.toNat_val, Nat.not_le, UInt32.reduceToNat, ↓Char.isValue,
    Char.reduceVal]
  omega

theorem isWordChar_eq_false_of_isBlank {c : Char} (h : isBlank c = true) :
    isWordChar c = false := by
  cases hc : isWordChar c with
  | false => rfl
  | true =>
    simp only [isWordChar, Char.isAlphanum, Bool.or_eq_true, isAlpha_iff] at hc
    simp only [isBlank, Char.isDigit, Bool.or_eq_true, Bool.and_eq_true, decide_eq_true_eq,
      beq_iff_eq, Char.le_def, UInt32.le_iff_toNat_le, ge_iff_le, ← Char.toNat_inj] at h hc
    simp only [↓Char.isValue, Char.reduceVal, UInt32.reduceToNat, Char.toNat_val,
      Char.reduceToNat] at h hc
    omega

theorem isWordChar_of_isLetter {c : Char} (h : isLetter c = true) : isWordChar c = true := by
  simp only [isLetter] at h
  simp only [isWordChar, Char.isAlphanum, h, Bool.true_or]

theorem isWordChar_of_isDigit {c : Char} (h : c.isDigit = true) : isWordChar c = true := by
  simp only [isWordChar, Char.isAlphanum, h, Bool.or_true, Bool.true_or]

theorem ne_of_isWordChar {c d : Char} (h : isWordChar c = true) (hd : isWordChar d = false) :
    c ≠ d := by
  rintro rfl
  rw [h] at hd
  cases hd

end Lexer

/-! ### Tokens as they are written -/

/-- `kind.Admits lexeme`: a token of the kind may have the lexeme.  What is left of a string that is
never closed is no such token. -/
inductive TokenKind.Admits : TokenKind → List Char → Prop
  | int {digits : List Char} (hne : digits ≠ []) (hdigits : ∀ c ∈ digits, c.isDigit = true) :
    Admits .intLiteral digits
  | identifier {first : Char} {others : List Char} (hfirst : Lexer.isLetter first = true)
    (hothers : ∀ c ∈ others, Lexer.isWordChar c = true)
    (hreserved : ¬ Lexer.IsReserved (first :: others)) : Admits .identifier (first :: others)
  | bool {word : List Char} (hword : word = "true".toList ∨ word = "false".toList) :
    Admits .boolLiteral word
  | keyword (keyword : Keyword) : Admits (.keyword keyword) keyword.word.toList
  | string (value : List Char) : Admits .stringLiteral value
  | sign {kind : TokenKind} {text : List Char} (hsign : kind.sign? = some text) : Admits kind text
  /-- A character that starts nothing else; a dot is one. -/
  | stray {c : Char} (hquote : c ≠ '"') (hblank : isBlank c = false) (hdigit : c.isDigit = false)
    (hletter : Lexer.isLetter c = false) (hsign : ∀ kind, TokenKind.sign? kind ≠ some [c]) :
    Admits .unknown [c]

/-- Whether tokens of a kind are words. -/
def TokenKind.isWord : TokenKind → Bool
  | identifier | boolLiteral | keyword _ => true
  | _ => false

/-- A text as it is written between quotes: quotes and backslashes stand behind a backslash, all
else for itself. -/
def escapeQuotes : List Char → List Char
  | [] => []
  | c :: cs => if c = '"' ∨ c = '\\' then '\\' :: c :: escapeQuotes cs else c :: escapeQuotes cs

/-- The text that writes a token of a kind with a lexeme. -/
def TokenKind.write (kind : TokenKind) (lexeme : List Char) : List Char :=
  if kind = .stringLiteral then '"' :: escapeQuotes lexeme ++ ['"'] else lexeme

/-- A token to be written, with the blanks in front of it. -/
structure WrittenToken where
  gap : List Char
  kind : TokenKind
  lexeme : String
  blank : ∀ c ∈ gap, isBlank c = true
  admitted : kind.Admits lexeme.toList

namespace WrittenToken

/-- The text that writes a token. -/
def text (token : WrittenToken) : List Char :=
  token.kind.write token.lexeme.toList

/-- Whether two tokens have to be kept apart by a blank: a word in front of a letter, digit or `_`,
an integer in front of an integer, `:` in front of `=`, a lone `.` in front of `.`, and `/` in front
of `/` or `*`. -/
def Merges (token next : WrittenToken) : Prop :=
  token.kind.isWord = true ∧ next.text.head?.any Lexer.isWordChar = true ∨
  token.kind = .intLiteral ∧ next.kind = .intLiteral ∨
  token.kind = .colon ∧ next.text.head? = some '=' ∨
  token.kind = .unknown ∧ token.lexeme = "." ∧ next.text.head? = some '.' ∨
  token.kind = .slash ∧ (next.text.head? = some '/' ∨ next.text.head? = some '*')

instance (token next : WrittenToken) : Decidable (token.Merges next) :=
  inferInstanceAs (Decidable (_ ∨ _ ∨ _ ∨ _ ∨ _))

/-- Tokens that would merge have a blank between them. -/
def Separated (tokens : List WrittenToken) : Prop :=
  tokens.IsChain fun token next => next.gap = [] → ¬ token.Merges next

instance (tokens : List WrittenToken) : Decidable (Separated tokens) :=
  inferInstanceAs (Decidable (List.IsChain _ tokens))

/-- The text that writes tokens, with the blanks in front of each of them. -/
def write (tokens : List WrittenToken) : List Char :=
  tokens.flatMap fun token => token.gap ++ token.text

end WrittenToken

namespace Lexer

variable {c : Char} {cs rest : List Char}

/-! ### Where a token ends -/

/-- What stands behind a token of the kind and lexeme does not go on with it. -/
structure EndsBefore (kind : TokenKind) (lexeme rest : List Char) : Prop where
  word : kind.isWord = true → EndsWord rest
  int : kind = .intLiteral → ∀ c, rest.head? = some c → c.isDigit = false
  colon : kind = .colon → rest.head? ≠ some '='
  dot : kind = .unknown → lexeme = ['.'] → rest.head? ≠ some '.'
  slash : kind = .slash → rest.head? ≠ some '/' ∧ rest.head? ≠ some '*'

/-- Every kind of token ends in front of a blank and at the end of the text. -/
theorem endsBefore_of_blank (kind : TokenKind) (lexeme : List Char)
    (h : ∀ c, rest.head? = some c → isBlank c = true) : EndsBefore kind lexeme rest := by
  have hne : ∀ c, isBlank c = false → rest.head? ≠ some c := by
    intro c hc hhead
    rw [h c hhead] at hc
    cases hc
  constructor
  · exact fun _ c hc => isWordChar_eq_false_of_isBlank (h c hc)
  · intro _ c hc
    have hword := Bool.eq_false_iff.1 (isWordChar_eq_false_of_isBlank (h c hc))
    exact Bool.eq_false_iff.2 fun hdigit => hword (isWordChar_of_isDigit hdigit)
  · exact fun _ => hne '=' (by decide)
  · exact fun _ _ => hne '.' (by decide)
  · exact fun _ => ⟨hne '/' (by decide), hne '*' (by decide)⟩

/-! ### The scan of one token -/

theorem takeWhile_append_of_stops {isMember : Char → Bool} (hcs : ∀ c ∈ cs, isMember c = true)
    (hrest : ∀ c, rest.head? = some c → isMember c = false) :
    (cs ++ rest).takeWhile isMember = cs ∧ (cs ++ rest).dropWhile isMember = rest := by
  have hstop : rest.takeWhile isMember = [] ∧ rest.dropWhile isMember = rest := by
    cases rest with
    | nil => exact ⟨rfl, rfl⟩
    | cons d ds =>
      have hd : ¬ isMember d = true := Bool.eq_false_iff.1 (hrest d rfl)
      exact ⟨List.takeWhile_cons_of_neg hd, List.dropWhile_cons_of_neg hd⟩
  rw [List.takeWhile_append_of_pos hcs, List.dropWhile_append_of_pos hcs, hstop.1, hstop.2,
    List.append_nil]
  exact ⟨rfl, rfl⟩

/-- A run takes its members, and stops in front of what is none. -/
theorem scanRun_append {isMember : Char → Bool} (kind : String → TokenKind) (p : Position)
    (hcs : ∀ c ∈ cs, isMember c = true) (hrest : ∀ c, rest.head? = some c → isMember c = false) :
    scanRun isMember kind c (cs ++ rest) p =
      (⟨kind (String.ofList (c :: cs)), String.ofList (c :: cs), p⟩,
        ⟨rest, p.advance (c :: cs)⟩) := by
  obtain ⟨htake, hdrop⟩ := takeWhile_append_of_stops hcs hrest
  unfold scanRun
  rw [htake, hdrop]

theorem scanString_escapeQuotes (value rest : List Char) (p : Position) :
    ∃ q, scanString (escapeQuotes value ++ '"' :: rest) p = ⟨value, true, rest, q⟩ := by
  induction value generalizing p with
  | nil => exact ⟨p.after '"', scanString_quote rest p⟩
  | cons c value ih =>
    by_cases hc : c = '"' ∨ c = '\\'
    · obtain ⟨q, hq⟩ := ih ((p.after '\\').after c)
      have hunescape : unescape c = c := by
        rcases hc with rfl | rfl <;> rfl
      refine ⟨q, ?_⟩
      rw [escapeQuotes, if_pos hc, List.cons_append, List.cons_append, scanString_escape, hq,
        hunescape]
      rfl
    · obtain ⟨q, hq⟩ := ih (p.after c)
      obtain ⟨hquote, hslash⟩ := not_or.1 hc
      refine ⟨q, ?_⟩
      rw [escapeQuotes, if_neg hc, List.cons_append, scanString_plain hquote hslash, hq]
      rfl

theorem scanSign_of_noPair (h : NoPair c rest) (p : Position) :
    scanSign c rest p = (⟨signKind c, String.ofList [c], p⟩, ⟨rest, p.after c⟩) := by
  unfold scanSign
  cases rest with
  | nil => rfl
  | cons d ds =>
    dsimp only
    rw [h d rfl]

theorem scanSign_of_pair {d : Char} {kind : TokenKind} (h : pairKind? c d = some kind)
    (rest : List Char) (p : Position) :
    scanSign c (d :: rest) p =
      (⟨kind, String.ofList [c, d], p⟩, ⟨rest, (p.after c).after d⟩) := by
  unfold scanSign
  dsimp only
  rw [h]

/-- In front of `rest`, the text is scanned as a token of the kind and lexeme, and starts no gap. -/
def IsScanned (kind : TokenKind) (lexeme text rest : List Char) : Prop :=
  ∃ c cs, text = c :: cs ∧ Gap.blank.next? c (cs ++ rest).head? = none ∧
    ∀ p, ∃ q, scanToken c (cs ++ rest) p = (⟨kind, String.ofList lexeme, p⟩, ⟨rest, q⟩)

theorem next?_eq_none_of_not_isBlank (hblank : isBlank c = false)
    (hslash : c = '/' → cs.head? ≠ some '/' ∧ cs.head? ≠ some '*') :
    Gap.blank.next? c cs.head? = none := by
  have hline : ¬ (c = '/' ∧ cs.head? = some '/') := fun h => (hslash h.1).1 h.2
  have hcomment : ¬ (c = '/' ∧ cs.head? = some '*') := fun h => (hslash h.1).2 h.2
  rw [Gap.next?, if_neg (Bool.eq_false_iff.1 hblank), if_neg hline, if_neg hcomment]

/-- What may stand in a word starts no gap. -/
theorem next?_eq_none_of_isWordChar (h : isWordChar c = true) (cs : List Char) :
    Gap.blank.next? c cs.head? = none := by
  refine next?_eq_none_of_not_isBlank (Bool.eq_false_iff.2 fun hblank => ?_) fun hslash => ?_
  · exact Bool.eq_false_iff.1 (isWordChar_eq_false_of_isBlank hblank) h
  · exact absurd hslash (ne_of_isWordChar h (by decide))

theorem isScanned_int {digits : List Char} (hne : digits ≠ [])
    (hdigits : ∀ c ∈ digits, c.isDigit = true)
    (hrest : ∀ c, rest.head? = some c → c.isDigit = false) :
    IsScanned .intLiteral digits digits rest := by
  obtain ⟨c, cs, rfl⟩ := List.exists_cons_of_ne_nil hne
  obtain ⟨hc, hcs⟩ := List.forall_mem_cons.1 hdigits
  have hword := isWordChar_of_isDigit hc
  have hquote : c ≠ '"' := ne_of_isWordChar hword (by decide)
  refine ⟨c, cs, rfl, next?_eq_none_of_isWordChar hword _, fun p => ⟨p.advance (c :: cs), ?_⟩⟩
  rw [scanToken, if_neg hquote, if_pos hc]
  exact scanRun_append _ p hcs hrest

theorem isScanned_word {kind : TokenKind} (hc : isLetter c = true)
    (hcs : ∀ d ∈ cs, isWordChar d = true) (hkind : wordKind (String.ofList (c :: cs)) = kind)
    (hrest : EndsWord rest) : IsScanned kind (c :: cs) (c :: cs) rest := by
  have hword := isWordChar_of_isLetter hc
  have hquote : c ≠ '"' := ne_of_isWordChar hword (by decide)
  have hdigit := isDigit_eq_false_of_isLetter hc
  refine ⟨c, cs, rfl, next?_eq_none_of_isWordChar hword _, fun p => ⟨p.advance (c :: cs), ?_⟩⟩
  rw [scanToken, if_neg hquote, if_neg (Bool.eq_false_iff.1 hdigit), if_pos hc,
    scanRun_append _ p hcs hrest, hkind]

theorem wordKind_of_not_isReserved {word : List Char} (h : ¬ IsReserved word) :
    wordKind (String.ofList word) = .identifier := by
  have hne : ∀ reserved : String, String.ofList word = reserved → word = reserved.toList := by
    rintro _ rfl
    exact String.toList_ofList.symm
  have hbool : ¬ (String.ofList word = "true" ∨ String.ofList word = "false") := by
    rintro (htrue | hfalse)
    · exact h (.inl (hne _ htrue))
    · exact h (.inr (.inl (hne _ hfalse)))
  unfold wordKind
  rw [if_neg hbool]
  cases hkeyword : Keyword.ofWord? (String.ofList word) with
  | none => rfl
  | some keyword =>
    exact absurd (.inr (.inr ⟨keyword, hne _ (Keyword.word_of_ofWord? hkeyword).symm⟩)) h

theorem wordKind_word (keyword : Keyword) : wordKind keyword.word = .keyword keyword := by
  cases keyword <;> decide

theorem exists_letters_of_keyword (keyword : Keyword) :
    ∃ c cs, keyword.word.toList = c :: cs ∧ isLetter c = true ∧ ∀ d ∈ cs, isWordChar d = true := by
  cases keyword <;> exact ⟨_, _, rfl, by decide, List.all_eq_true.1 rfl⟩

theorem isScanned_string (value rest : List Char) :
    IsScanned .stringLiteral value ('"' :: escapeQuotes value ++ ['"']) rest := by
  have hnext : Gap.blank.next? '"' (escapeQuotes value ++ ['"'] ++ rest).head? = none :=
    next?_eq_none_of_not_isBlank (by decide) fun hc => absurd hc (by decide)
  refine ⟨'"', escapeQuotes value ++ ['"'], rfl, hnext, fun p => ?_⟩
  obtain ⟨q, hq⟩ := scanString_escapeQuotes value rest (p.after '"')
  refine ⟨q, ?_⟩
  rw [List.append_assoc, List.singleton_append, scanToken, if_pos rfl, hq]
  rfl

/-- What is neither a quote nor a word nor a number is scanned as a sign. -/
theorem isScanned_of_scanSign {kind : TokenKind} (hquote : c ≠ '"') (hblank : isBlank c = false)
    (hdigit : c.isDigit = false) (hletter : isLetter c = false)
    (hslash : c = '/' → (cs ++ rest).head? ≠ some '/' ∧ (cs ++ rest).head? ≠ some '*')
    (hscan : ∀ p, ∃ q, scanSign c (cs ++ rest) p =
      (⟨kind, String.ofList (c :: cs), p⟩, ⟨rest, q⟩)) :
    IsScanned kind (c :: cs) (c :: cs) rest := by
  refine ⟨c, cs, rfl, next?_eq_none_of_not_isBlank hblank hslash, fun p => ?_⟩
  rw [scanToken, if_neg hquote, if_neg (Bool.eq_false_iff.1 hdigit),
    if_neg (Bool.eq_false_iff.1 hletter)]
  exact hscan p

/-- The signs of one character start nothing else. -/
theorem plain_of_mem_signs : ∀ entry ∈ signs, entry.1 ≠ '"' ∧ isBlank entry.1 = false ∧
    entry.1.isDigit = false ∧ isLetter entry.1 = false := by
  decide

theorem noPair_of_ne (hcolon : c = ':' → rest.head? ≠ some '=')
    (hdot : c = '.' → rest.head? ≠ some '.') : NoPair c rest := by
  intro d hd
  have hassign : ¬ (c = ':' ∧ d = '=') := fun h => hcolon h.1 (h.2 ▸ hd)
  have hrange : ¬ (c = '.' ∧ d = '.') := fun h => hdot h.1 (h.2 ▸ hd)
  rw [pairKind?, if_neg hassign, if_neg hrange]

theorem isScanned_single {kind : TokenKind} (hlookup : signs.lookup c = some kind)
    (hends : EndsBefore kind [c] rest) : IsScanned kind [c] [c] rest := by
  obtain ⟨before, after, hsigns, -⟩ := List.lookup_eq_some_iff.1 hlookup
  have hmem : (c, kind) ∈ signs := hsigns ▸ List.mem_append_right _ List.mem_cons_self
  obtain ⟨hquote, hblank, hdigit, hletter⟩ := plain_of_mem_signs _ hmem
  have hkind : ∀ {other : Char} {kind' : TokenKind}, signs.lookup other = some kind' →
      c = other → kind = kind' := by
    rintro _ _ hother rfl
    exact Option.some.inj (hlookup.symm.trans hother)
  have hpair : NoPair c rest := by
    refine noPair_of_ne (fun hc => hends.colon (hkind rfl hc)) ?_
    rintro rfl
    cases hlookup
  refine isScanned_of_scanSign hquote hblank hdigit hletter (fun hc => hends.slash (hkind rfl hc))
    fun p => ⟨p.after c, ?_⟩
  rw [List.nil_append, scanSign_of_noPair hpair, signKind, hlookup]
  rfl

theorem isScanned_pair {d : Char} {kind : TokenKind} (hpair : pairKind? c d = some kind)
    (rest : List Char) : IsScanned kind [c, d] [c, d] rest := by
  have hc : c = ':' ∨ c = '.' := by
    unfold pairKind? at hpair
    grind
  have hscan : ∀ p, ∃ q, scanSign c ([d] ++ rest) p =
      (⟨kind, String.ofList [c, d], p⟩, ⟨rest, q⟩) :=
    fun p => ⟨_, scanSign_of_pair hpair rest p⟩
  rcases hc with rfl | rfl
  · exact isScanned_of_scanSign (by decide) (by decide) (by decide) (by decide)
      (fun hc => absurd hc (by decide)) hscan
  · exact isScanned_of_scanSign (by decide) (by decide) (by decide) (by decide)
      (fun hc => absurd hc (by decide)) hscan

theorem isScanned_stray (hquote : c ≠ '"') (hblank : isBlank c = false) (hdigit : c.isDigit = false)
    (hletter : isLetter c = false) (hsign : ∀ kind, TokenKind.sign? kind ≠ some [c])
    (hdot : c = '.' → rest.head? ≠ some '.') : IsScanned .unknown [c] [c] rest := by
  have hlookup : signs.lookup c = none := by
    cases h : signs.lookup c with
    | none => rfl
    | some kind => exact absurd (sign?_of_lookup h) (hsign kind)
  have hcolon : c ≠ ':' := fun hc => hsign .colon (hc ▸ rfl)
  have hslash : c ≠ '/' := fun hc => hsign .slash (hc ▸ rfl)
  have hpair : NoPair c rest := noPair_of_ne (fun hc => absurd hc hcolon) hdot
  refine isScanned_of_scanSign hquote hblank hdigit hletter (fun hc => absurd hc hslash)
    fun p => ⟨p.after c, ?_⟩
  rw [List.nil_append, scanSign_of_noPair hpair, signKind, hlookup]
  rfl

/-- A token is scanned as it is written, in front of what does not go on with it. -/
theorem isScanned_of_admits {kind : TokenKind} {lexeme : List Char} (h : kind.Admits lexeme)
    (hends : EndsBefore kind lexeme rest) : IsScanned kind lexeme (kind.write lexeme) rest := by
  cases h with
  | int hne hdigits => exact isScanned_int hne hdigits (hends.int rfl)
  | identifier hfirst hothers hreserved =>
    exact isScanned_word hfirst hothers (wordKind_of_not_isReserved hreserved) (hends.word rfl)
  | bool hword =>
    rcases hword with rfl | rfl
    · exact isScanned_word (by decide) (List.all_eq_true.1 rfl) (by decide) (hends.word rfl)
    · exact isScanned_word (by decide) (List.all_eq_true.1 rfl) (by decide) (hends.word rfl)
  | keyword keyword =>
    obtain ⟨c, cs, hword, hc, hcs⟩ := exists_letters_of_keyword keyword
    have hkind : wordKind (String.ofList (c :: cs)) = .keyword keyword := by
      rw [← hword, String.ofList_toList, wordKind_word]
    rw [TokenKind.write, if_neg (by rintro ⟨⟩), hword]
    exact isScanned_word hc hcs hkind (hends.word rfl)
  | string => exact isScanned_string lexeme rest
  | sign hsign =>
    have hstring : kind ≠ .stringLiteral := by
      rintro rfl
      cases hsign
    rw [TokenKind.write, if_neg hstring]
    rcases sign?_cases hsign with ⟨c, rfl, hlookup⟩ | ⟨c, d, rfl, hpair⟩
    · exact isScanned_single hlookup hends
    · exact isScanned_pair hpair rest
  | stray hquote hblank hdigit hletter hsign =>
    refine isScanned_stray hquote hblank hdigit hletter hsign fun hc => ?_
    exact hends.dot rfl (congrArg (fun c => [c]) hc)

/-! ### Tokens one by one -/

theorem isGap_of_blank {gap : List Char} (h : ∀ c ∈ gap, isBlank c = true) : IsGap gap := by
  induction gap with
  | nil => exact .nil
  | cons c gap ih =>
    obtain ⟨hc, hgap⟩ := List.forall_mem_cons.1 h
    exact .blank hc (ih hgap)

/-- The lexer passes over a gap, and reads the token behind it. -/
theorem next?_of_isScanned {gap lexeme text : List Char} {kind : TokenKind} (hgap : IsGap gap)
    (h : IsScanned kind lexeme text rest) (p : Position) :
    ∃ place q, next? ⟨gap ++ text ++ rest, p⟩ =
      some (⟨kind, String.ofList lexeme, place⟩, ⟨rest, q⟩) := by
  obtain ⟨c, cs, rfl, hnext, hscan⟩ := h
  obtain ⟨q, hq⟩ := hscan (p.advance gap)
  have hskip : skipGap ⟨gap ++ (c :: cs) ++ rest, p⟩ = ⟨c :: (cs ++ rest), p.advance gap⟩ := by
    rw [skipGap, List.append_assoc, skipGapFrom_gap hgap, List.cons_append, skipGapFrom, hnext]
  refine ⟨p.advance gap, q, ?_⟩
  rw [next?, hskip]
  exact congrArg some hq

theorem next?_of_isGap {gap : List Char} (hgap : IsGap gap) (p : Position) :
    next? ⟨gap, p⟩ = none := by
  have hskip : skipGap ⟨gap, p⟩ = ⟨[], p.advance gap⟩ := skipGapFrom_lastGap (.inl hgap)
  rw [next?, hskip]

end Lexer

namespace WrittenToken

variable {token next : WrittenToken}

/-- A written token is not empty, and only an integer starts with a digit. -/
theorem exists_text_eq_cons (token : WrittenToken) :
    ∃ c cs, token.text = c :: cs ∧ (c.isDigit = true → token.kind = .intLiteral) := by
  have hends : Lexer.EndsBefore token.kind token.lexeme.toList [] :=
    Lexer.endsBefore_of_blank _ _ fun _ hc => nomatch hc
  obtain ⟨c, cs, htext, -, hscan⟩ := Lexer.isScanned_of_admits token.admitted hends
  refine ⟨c, cs, htext, fun hdigit => ?_⟩
  obtain ⟨q, hq⟩ := hscan .start
  have hquote : c ≠ '"' := Lexer.ne_of_isWordChar (Lexer.isWordChar_of_isDigit hdigit) (by decide)
  rw [Lexer.scanToken, if_neg hquote, if_pos hdigit] at hq
  exact (congrArg (fun scan => scan.1.kind) hq).symm

/-- A token ends in front of one with which it does not merge. -/
theorem endsBefore_text (h : ¬ token.Merges next) (after : List Char) :
    Lexer.EndsBefore token.kind token.lexeme.toList (next.text ++ after) := by
  obtain ⟨c, cs, htext, hdigit⟩ := next.exists_text_eq_cons
  simp only [Merges, not_or, not_and, htext, List.head?_cons, Option.any_some] at h
  obtain ⟨hword, hint, hcolon, hdot, hslash⟩ := h
  rw [htext]
  constructor
  · rintro hkind _ ⟨⟩
    exact Bool.eq_false_iff.2 (hword hkind)
  · rintro hkind _ ⟨⟩
    exact Bool.eq_false_iff.2 fun hc => hint hkind (hdigit hc)
  · exact hcolon
  · intro hkind hlexeme
    exact hdot hkind (String.toList_inj.1 hlexeme)
  · exact hslash

/-- A token ends in front of those written behind it. -/
theorem endsBefore_write {tokens : List WrittenToken} (h : Separated (token :: tokens))
    {last : List Char} (hlast : ∀ c ∈ last, isBlank c = true) :
    Lexer.EndsBefore token.kind token.lexeme.toList (write tokens ++ last) := by
  cases tokens with
  | nil => exact Lexer.endsBefore_of_blank _ _ fun c hc => hlast c (List.mem_of_head? hc)
  | cons next tokens =>
    have hnext := (List.isChain_cons_cons.1 h).1
    rw [write, List.flatMap_cons, List.append_assoc]
    cases hgap : next.gap with
    | nil =>
      exact endsBefore_text (hnext hgap) _
    | cons c gap =>
      refine Lexer.endsBefore_of_blank _ _ fun d hd => ?_
      obtain rfl := Option.some.inj hd
      exact next.blank c (hgap ▸ List.mem_cons_self)

theorem tokens_of_write {tokens : List WrittenToken} (h : Separated tokens) {last : List Char}
    (hlast : ∀ c ∈ last, isBlank c = true) (p : Position) :
    (Lexer.tokens ⟨write tokens ++ last, p⟩).map (fun token => (token.kind, token.lexeme)) =
      tokens.map fun token => (token.kind, token.lexeme) := by
  induction tokens generalizing p with
  | nil =>
    have hnone := Lexer.next?_of_isGap (Lexer.isGap_of_blank hlast) p
    rw [write, List.flatMap_nil, List.nil_append, Lexer.tokens_of_next?_eq_none hnone]
    rfl
  | cons token tokens ih =>
    have hscanned : Lexer.IsScanned token.kind token.lexeme.toList token.text
        (write tokens ++ last) :=
      Lexer.isScanned_of_admits token.admitted (endsBefore_write h hlast)
    obtain ⟨place, q, hnext⟩ :=
      Lexer.next?_of_isScanned (Lexer.isGap_of_blank token.blank) hscanned p
    have htext : write (token :: tokens) ++ last =
        token.gap ++ token.text ++ (write tokens ++ last) := by
      rw [write, List.flatMap_cons, List.append_assoc]
      rfl
    rw [htext, Lexer.tokens_of_next?_eq_some hnext, List.map_cons, List.map_cons,
      ih h.tail, String.ofList_toList]

end WrittenToken

/-- Reading undoes writing: written with any blanks, as long as tokens that would merge are kept
apart, tokens are read again with their kinds and lexemes. -/
theorem tokenize_of_written (tokens : List WrittenToken) (last : List Char)
    (hlast : ∀ c ∈ last, isBlank c = true) (h : WrittenToken.Separated tokens) :
    (tokenize (String.ofList (WrittenToken.write tokens ++ last))).map
        (fun token => (token.kind, token.lexeme)) =
      tokens.map fun token => (token.kind, token.lexeme) := by
  unfold tokenize Lexer.ofText
  rw [String.toList_ofList]
  exact WrittenToken.tokens_of_write h hlast .start

/-- A word in front of `:`, an integer in front of a word, a string that holds a quote, a backslash,
a line feed and the opening of a comment, and a lone dot and a `/` that have to be kept apart. -/
theorem tokenize_of_written_densely :
    let x : WrittenToken := ⟨[], .identifier, "x", List.all_eq_true.1 rfl,
      .identifier (by decide) (List.all_eq_true.1 rfl) (by decide)⟩
    let colon : WrittenToken := ⟨[], .colon, ":", List.all_eq_true.1 rfl, .sign rfl⟩
    let seven : WrittenToken := ⟨[], .intLiteral, "7", List.all_eq_true.1 rfl,
      .int (by decide) (List.all_eq_true.1 rfl)⟩
    let done : WrittenToken := ⟨[], .keyword .do, "do", List.all_eq_true.1 rfl, .keyword .do⟩
    let text : WrittenToken := ⟨[], .stringLiteral, "\"\\\n/*", List.all_eq_true.1 rfl, .string _⟩
    let slash : WrittenToken := ⟨[], .slash, "/", List.all_eq_true.1 rfl, .sign rfl⟩
    let star : WrittenToken := ⟨['\n'], .star, "*", List.all_eq_true.1 rfl, .sign rfl⟩
    let dot : WrittenToken := ⟨[], .unknown, ".", List.all_eq_true.1 rfl,
      .stray (by decide) (by decide) (by decide) (by decide)
        fun kind => by cases kind with | keyword => nofun | _ => decide⟩
    let range : WrittenToken := ⟨[' '], .range, "..", List.all_eq_true.1 rfl, .sign rfl⟩
    let tokens := [x, colon, seven, done, text, slash, star, dot, range]
    String.ofList (WrittenToken.write tokens) = "x:7do\"\\\"\\\\\n/*\"/\n*. .." ∧
      (∀ c ∈ [' '], isBlank c = true) ∧ WrittenToken.Separated tokens ∧
      (tokenize (String.ofList (WrittenToken.write tokens ++ [' ']))).map
          (fun token => (token.kind, token.lexeme)) =
        tokens.map fun token => (token.kind, token.lexeme) := by
  intro x colon seven done text slash star dot range tokens
  have hlast : ∀ c ∈ [' '], isBlank c = true := List.all_eq_true.1 rfl
  have hseparated : WrittenToken.Separated tokens := by decide
  exact ⟨by decide, hlast, hseparated, tokenize_of_written tokens [' '] hlast hseparated⟩

end MiniPL
