import MiniPL.Proofs.Cutting

/-!
# How texts end

The end of a text may stand inside a string that is not closed (`endsInString`), inside a block
comment (`endsInBlockComment`), or outside of both.  Outside of both, a line feed ends whatever goes
on there, a word, a sign or a line comment: the tokens of two texts with a line feed between them
are those of the one and those of the other (`tokenize_append_lineFeed`).

What the end of a text belongs to is told by its last gap (`Lexer.lastGap`).  From there the lexer
goes on if more text stands behind a line feed (`Lexer.tokens_append_lineFeed`).
-/

namespace MiniPL

open Text (isBlank)

/-- Whether a token is what is left of a string that is never closed. -/
def Token.isOpenString (token : Token) : Bool :=
  token.kind == .unknown && token.lexeme.toList.head? == some '"'

namespace Lexer

/-- What the place behind a text belongs to, if the text starts in the gap and holds no token. -/
def Gap.last (gap : Gap) : List Char → Gap
  | [] => gap
  | c :: cs =>
    match gap.next? c cs.head? with
    | some next => next.last cs
    | none => gap

/-- Whether what belongs there is a block comment. -/
def Gap.inBlockComment : Gap → Bool
  | blank | lineComment => false
  | opening _ | blockComment _ | closing _ => true

/-- What the end of the text belongs to, behind its last token. -/
def lastGap (lexer : Lexer) : Gap :=
  match _h : lexer.next? with
  | none => Gap.blank.last lexer.rest
  | some (_, after) => after.lastGap
termination_by lexer.rest.length
decreasing_by exact length_lt_of_next? _h

/-- The lexer with more text behind the rest. -/
def append (lexer : Lexer) (more : List Char) : Lexer :=
  ⟨lexer.rest ++ more, lexer.position⟩

/-- The place behind the rest of the text. -/
def ending (lexer : Lexer) : Position :=
  lexer.position.advance lexer.rest

theorem lastGap_of_next?_eq_none {lexer : Lexer} (h : lexer.next? = none) :
    lexer.lastGap = Gap.blank.last lexer.rest := by
  rw [lastGap]
  split
  · rfl
  · rename_i heq
    rw [h] at heq
    cases heq

theorem lastGap_of_next?_eq_some {lexer after : Lexer} {token : Token}
    (h : lexer.next? = some (token, after)) : lexer.lastGap = after.lastGap := by
  rw [lastGap]
  split
  · rename_i heq
    rw [h] at heq
    cases heq
  · rename_i heq
    rw [h] at heq
    cases heq
    rfl

/-! ### Gaps in front of a line feed -/

section
variable {gap : Gap} {cs : List Char} {p q : Position} (ds : List Char)

/-- A line feed decides as little about the character in front of it as the end of the text. -/
theorem Gap.next?_append_lineFeed (gap : Gap) (c : Char) (cs : List Char) :
    gap.next? c (cs ++ '\n' :: ds).head? = gap.next? c cs.head? := by
  cases cs with
  | cons => rfl
  | nil =>
    cases gap with
    | blank | blockComment => simp [Gap.next?]
    | lineComment | opening => rfl
    | closing depth => cases depth <;> rfl

theorem Gap.last_of_next? {gap next : Gap} {c : Char} {cs : List Char}
    (h : gap.next? c cs.head? = some next) : gap.last (c :: cs) = next.last cs := by
  rw [last, h]

theorem Gap.last_append_lineFeed (h : (skipGapFrom gap cs p).rest = []) :
    gap.last (cs ++ '\n' :: ds) = (gap.last cs).last ('\n' :: ds) := by
  induction cs generalizing gap p with
  | nil => rfl
  | cons c cs ih =>
    cases hnext : gap.next? c cs.head? with
    | none =>
      rw [skipGapFrom, hnext] at h
      cases h
    | some next =>
      rw [skipGapFrom_of_next? hnext] at h
      have hnext' := (Gap.next?_append_lineFeed ds gap c cs).trans hnext
      rw [List.cons_append, Gap.last_of_next? hnext', Gap.last_of_next? hnext, ih h]

/-- A gap that reaches the end of the text goes on behind a line feed. -/
theorem skipGapFrom_append_of_rest_eq_nil (h : (skipGapFrom gap cs p).rest = []) :
    skipGapFrom gap (cs ++ '\n' :: ds) p =
      skipGapFrom (gap.last cs) ('\n' :: ds) (p.advance cs) := by
  induction cs generalizing gap p with
  | nil => rfl
  | cons c cs ih =>
    cases hnext : gap.next? c cs.head? with
    | none =>
      rw [skipGapFrom, hnext] at h
      cases h
    | some next =>
      rw [skipGapFrom_of_next? hnext] at h
      have hnext' := (Gap.next?_append_lineFeed ds gap c cs).trans hnext
      rw [List.cons_append, skipGapFrom_of_next? hnext', ih h, Gap.last_of_next? hnext]
      rfl

/-- A gap in front of a token is the same with more text behind a line feed. -/
theorem skipGapFrom_append_of_eq_cons {c : Char} {rest : List Char}
    (h : skipGapFrom gap cs p = ⟨c :: rest, q⟩) :
    skipGapFrom gap (cs ++ '\n' :: ds) p = ⟨c :: (rest ++ '\n' :: ds), q⟩ := by
  induction cs generalizing gap p with
  | nil => cases h
  | cons d cs ih =>
    cases hnext : gap.next? d cs.head? with
    | none =>
      have hnext' := (Gap.next?_append_lineFeed ds gap d cs).trans hnext
      rw [skipGapFrom, hnext] at h
      cases h
      rw [List.cons_append, skipGapFrom, hnext']
    | some next =>
      have hnext' := (Gap.next?_append_lineFeed ds gap d cs).trans hnext
      rw [skipGapFrom_of_next? hnext] at h
      rw [List.cons_append, skipGapFrom_of_next? hnext', ih h]

end

/-! ### Tokens in front of a line feed -/

section
variable {c : Char} {cs : List Char} {p : Position} (ds : List Char)

/-- A string that is closed is the same with more text behind it. -/
theorem scanString_append (h : (scanString cs p).closed = true) :
    scanString (cs ++ ds) p =
      { scanString cs p with after := (scanString cs p).after.append ds } := by
  fun_induction scanString cs p with
  | case1 | case3 => cases h
  | case2 p cs => rw [List.cons_append, scanString_quote]; rfl
  | case4 p c cs _ ih =>
    rw [List.cons_append, List.cons_append, scanString_escape, ih h]
    rfl
  | case5 c cs p hquote hslash ih =>
    rw [List.cons_append, scanString_plain hquote hslash, ih h]
    rfl

/-- A line feed does not close a string. -/
theorem closed_scanString_lineFeed (h : (scanString cs p).closed = false) :
    (scanString (cs ++ ['\n']) p).closed = false := by
  fun_induction scanString cs p with
  | case1 p => rfl
  | case2 => cases h
  | case3 p _ => rfl
  | case4 p c cs _ ih =>
    rw [List.cons_append, List.cons_append, scanString_escape]
    exact ih h
  | case5 c cs p hquote hslash ih =>
    rw [List.cons_append, scanString_plain hquote hslash]
    exact ih h

/-- A run ends in front of a line feed. -/
theorem scanRun_append_lineFeed {isMember : Char → Bool} (hfeed : isMember '\n' = false)
    (kind : String → TokenKind) :
    scanRun isMember kind c (cs ++ '\n' :: ds) p =
      ((scanRun isMember kind c cs p).1,
        (scanRun isMember kind c cs p).2.append ('\n' :: ds)) := by
  have hrun : (cs ++ '\n' :: ds).takeWhile isMember = cs.takeWhile isMember ∧
      (cs ++ '\n' :: ds).dropWhile isMember = cs.dropWhile isMember ++ '\n' :: ds := by
    induction cs with
    | nil => simp [hfeed]
    | cons d cs ih => by_cases hd : isMember d = true <;> simp [hd, ih]
  unfold scanRun
  rw [hrun.1, hrun.2]
  rfl

theorem scanSign_append_lineFeed :
    scanSign c (cs ++ '\n' :: ds) p =
      ((scanSign c cs p).1, (scanSign c cs p).2.append ('\n' :: ds)) := by
  unfold scanSign
  cases cs with
  | nil =>
    have hpair : pairKind? c '\n' = none := by simp [pairKind?]
    simp only [List.nil_append, hpair]
    rfl
  | cons d cs =>
    dsimp only [List.cons_append]
    split <;> rfl

/-- A token ends in front of a line feed, unless it is a string that is not closed. -/
theorem scanToken_append_lineFeed (h : (scanToken c cs p).1.isOpenString = false) :
    scanToken c (cs ++ '\n' :: ds) p =
      ((scanToken c cs p).1, (scanToken c cs p).2.append ('\n' :: ds)) := by
  unfold scanToken at h ⊢
  by_cases hquote : c = '"'
  · rw [if_pos hquote] at h ⊢
    dsimp only at h ⊢
    cases hclosed : (scanString cs (p.after c)).closed with
    | true =>
      rw [scanString_append _ hclosed]
      dsimp only
      rw [if_pos hclosed, if_pos rfl, if_pos hquote]
    | false =>
      rw [hclosed] at h
      simp [Token.isOpenString] at h
  rw [if_neg hquote, if_neg hquote]
  by_cases hdigit : c.isDigit = true
  · rw [if_pos hdigit, if_pos hdigit]
    exact scanRun_append_lineFeed ds (by decide) _
  rw [if_neg hdigit, if_neg hdigit]
  by_cases hletter : isLetter c = true
  · rw [if_pos hletter, if_pos hletter]
    exact scanRun_append_lineFeed ds (by decide) _
  · rw [if_neg hletter, if_neg hletter]
    exact scanSign_append_lineFeed ds

theorem next?_append_lineFeed {lexer after : Lexer} {token : Token}
    (h : lexer.next? = some (token, after)) (hopen : token.isOpenString = false) :
    (lexer.append ('\n' :: ds)).next? = some (token, after.append ('\n' :: ds)) := by
  unfold next? at h ⊢
  cases hskip : lexer.skipGap with
  | mk text place =>
    rw [hskip] at h
    cases text with
    | nil => cases h
    | cons c cs =>
      have hscan : scanToken c cs place = (token, after) := Option.some.inj h
      have hskip' : (lexer.append ('\n' :: ds)).skipGap = ⟨c :: (cs ++ '\n' :: ds), place⟩ :=
        skipGapFrom_append_of_eq_cons ds hskip
      rw [hskip']
      dsimp only
      rw [scanToken_append_lineFeed ds (by rw [hscan]; exact hopen), hscan]

end

/-! ### The text behind a line feed -/

section
variable {lexer : Lexer} (ds : List Char)

theorem ending_of_next?_eq_some {after : Lexer} {token : Token}
    (h : lexer.next? = some (token, after)) : after.ending = lexer.ending := by
  obtain ⟨taken, htext, hplace⟩ := exists_taken h
  rw [ending, ending, htext, hplace, Position.advance_append]

/-- Behind its tokens and a line feed, the lexer goes on from what the end of the text belongs
to. -/
theorem tokens_append_lineFeed (h : ∀ token ∈ lexer.tokens, token.isOpenString = false) :
    (lexer.append ('\n' :: ds)).tokens =
      lexer.tokens ++ (skipGapFrom lexer.lastGap ('\n' :: ds) lexer.ending).tokens := by
  fun_induction Lexer.tokens lexer with
  | case1 lexer hnone =>
    rw [List.nil_append, ← tokens_skipGap, lastGap_of_next?_eq_none hnone]
    exact congrArg tokens
      (skipGapFrom_append_of_rest_eq_nil ds (rest_skipGap_of_next?_eq_none hnone))
  | case2 lexer token after hsome ih =>
    obtain ⟨hopen, hafter⟩ := List.forall_mem_cons.1 h
    rw [tokens_of_next?_eq_some (next?_append_lineFeed ds hsome hopen), ih hafter,
      lastGap_of_next?_eq_some hsome, ending_of_next?_eq_some hsome]
    rfl

theorem rest_skipGapFrom_lineFeed (gap : Gap) (p : Position) :
    (skipGapFrom gap ['\n'] p).rest = [] := by
  cases gap with
  | closing depth => cases depth <;> rfl
  | _ => rfl

/-- Outside of block comments, a line feed leads to the start of a gap. -/
theorem next?_lineFeed_of_not_inBlockComment {gap : Gap} (h : gap.inBlockComment = false)
    (ahead? : Option Char) : gap.next? '\n' ahead? = some .blank := by
  cases gap with
  | blank | lineComment => rfl
  | opening | blockComment | closing => cases h

theorem lastGap_append_lineFeed (h : ∀ token ∈ lexer.tokens, token.isOpenString = false)
    (hcomment : lexer.lastGap.inBlockComment = false) :
    (lexer.append ('\n' :: ds)).lastGap = lastGap ⟨ds, lexer.ending.after '\n'⟩ := by
  fun_induction Lexer.tokens lexer with
  | case1 lexer hnone =>
    rw [lastGap_of_next?_eq_none hnone] at hcomment
    have hend := rest_skipGap_of_next?_eq_none hnone
    have hfeed := next?_lineFeed_of_not_inBlockComment hcomment ds.head?
    have hskip : (lexer.append ('\n' :: ds)).skipGap = skipGap ⟨ds, lexer.ending.after '\n'⟩ :=
      (skipGapFrom_append_of_rest_eq_nil ds hend).trans (skipGapFrom_of_next? hfeed)
    have hnext : (lexer.append ('\n' :: ds)).next? = next? ⟨ds, lexer.ending.after '\n'⟩ := by
      unfold next?
      rw [hskip]
    cases hrest : next? ⟨ds, lexer.ending.after '\n'⟩ with
    | none =>
      rw [lastGap_of_next?_eq_none (hnext.trans hrest), lastGap_of_next?_eq_none hrest]
      exact (Gap.last_append_lineFeed ds hend).trans (Gap.last_of_next? hfeed)
    | some scan =>
      rw [lastGap_of_next?_eq_some (hnext.trans hrest), lastGap_of_next?_eq_some hrest]
  | case2 lexer token after hsome ih =>
    obtain ⟨hopen, hafter⟩ := List.forall_mem_cons.1 h
    rw [lastGap_of_next?_eq_some hsome] at hcomment
    rw [lastGap_of_next?_eq_some (next?_append_lineFeed ds hsome hopen), ih hafter hcomment,
      ending_of_next?_eq_some hsome]

theorem lastGap_behind (base : Position) (h : lexer.position.IsPlace) :
    (lexer.behind base).lastGap = lexer.lastGap := by
  fun_induction Lexer.tokens lexer with
  | case1 lexer hnone =>
    have hnone' : (lexer.behind base).next? = none := by rw [next?_behind base h, hnone]; rfl
    rw [lastGap_of_next?_eq_none hnone, lastGap_of_next?_eq_none hnone']
    rfl
  | case2 lexer token after hsome ih =>
    have hsome' : (lexer.behind base).next? =
        some (token.moved base.behind, after.behind base) := by
      rw [next?_behind base h, hsome]
      rfl
    rw [lastGap_of_next?_eq_some hsome, lastGap_of_next?_eq_some hsome',
      ih (isPlace_of_next?_eq_some h hsome)]

/-- Where a text stands does not bear on how it ends. -/
theorem lastGap_mk (text : String) (base : Position) :
    lastGap ⟨text.toList, base⟩ = (ofText text).lastGap := by
  have hplace : (ofText text).position.IsPlace := Position.isPlace_start
  exact lastGap_behind base hplace

/-- A string that is not closed starts with its quote. -/
theorem quote_of_isOpenString {c : Char} {cs : List Char} {p : Position}
    (h : (scanToken c cs p).1.isOpenString = true) :
    c = '"' ∧ (scanString cs (p.after c)).closed = false := by
  obtain ⟨raw, hraw, -, -, -, hisRaw⟩ := scans_scanToken c cs p
  simp only [Token.isOpenString, Bool.and_eq_true, beq_iff_eq] at h
  obtain ⟨hkind, hlexeme⟩ := h
  rw [hkind] at hisRaw
  generalize (scanToken c cs p).1.lexeme.toList = lexeme at hisRaw hlexeme
  generalize (scanToken c cs p).2.rest = rest at hisRaw hraw
  have hquote : c = '"' := by
    cases hisRaw with
    | sign hsign => cases hsign
    | stray hquote => exact absurd (Option.some.inj hlexeme) hquote
    | unclosed => exact (List.cons.inj hraw).1
  refine ⟨hquote, Bool.eq_false_iff.2 fun hclosed => ?_⟩
  rw [scanToken, if_pos hquote, if_pos hclosed] at hkind
  cases hkind

theorem scanToken_of_not_closed {cs : List Char} {p : Position}
    (h : (scanString cs (p.after '"')).closed = false) :
    (scanToken '"' cs p).1.isOpenString = true ∧ (scanToken '"' cs p).2.rest = [] := by
  have hreads := reads_scanString cs (p.after '"')
  unfold StringScan.Reads at hreads
  rw [h, if_neg Bool.false_ne_true] at hreads
  rw [scanToken, if_pos rfl]
  dsimp only
  rw [h, if_neg Bool.false_ne_true]
  exact ⟨by simp [Token.isOpenString], congrArg Lexer.rest hreads.1⟩

/-- A string that is not closed takes all of the text, also with a line feed behind it. -/
theorem exists_openString {after : Lexer} {token : Token}
    (hnext : lexer.next? = some (token, after)) (hopen : token.isOpenString = true) :
    ∃ token' after', (lexer.append ['\n']).next? = some (token', after') ∧
      token'.isOpenString = true ∧ after'.rest = [] := by
  unfold next? at hnext ⊢
  cases hskip : lexer.skipGap with
  | mk text place =>
    rw [hskip] at hnext
    cases text with
    | nil => cases hnext
    | cons c cs =>
      obtain ⟨rfl, rfl⟩ := Prod.mk.inj (Option.some.inj hnext)
      obtain ⟨rfl, hclosed⟩ := quote_of_isOpenString hopen
      have hskip' : (lexer.append ['\n']).skipGap = ⟨'"' :: (cs ++ ['\n']), place⟩ :=
        skipGapFrom_append_of_eq_cons [] hskip
      rw [hskip']
      exact ⟨_, _, rfl, scanToken_of_not_closed (closed_scanString_lineFeed hclosed)⟩

theorem tokens_of_rest_eq_nil {lexer : Lexer} (h : lexer.rest = []) : lexer.tokens = [] := by
  refine tokens_of_next?_eq_none ?_
  unfold next? skipGap
  rw [h]
  rfl

/-- A text that ends inside a string still does so behind a line feed, and the string is its last
token. -/
theorem getLast?_tokens_of_isOpenString {token : Token} (hmem : token ∈ lexer.tokens)
    (hopen : token.isOpenString = true) :
    ∃ last, (lexer.append ['\n']).tokens.getLast? = some last ∧ last.isOpenString = true := by
  fun_induction Lexer.tokens lexer with
  | case1 => cases hmem
  | case2 lexer first after hsome ih =>
    cases hfirst : first.isOpenString with
    | true =>
      obtain ⟨token', after', hsome', hopen', hrest⟩ := exists_openString hsome hfirst
      rw [tokens_of_next?_eq_some hsome', tokens_of_rest_eq_nil hrest]
      exact ⟨token', rfl, hopen'⟩
    | false =>
      have hmem : token ∈ after.tokens := by
        refine (List.mem_cons.1 hmem).resolve_left ?_
        rintro rfl
        rw [hfirst] at hopen
        cases hopen
      obtain ⟨last, hlast, hlastOpen⟩ := ih hmem
      rw [tokens_of_next?_eq_some (next?_append_lineFeed [] hsome hfirst)]
      exact ⟨last, by rw [List.getLast?_cons, hlast]; rfl, hlastOpen⟩

end

end Lexer

/-! ### Texts -/

/-- Whether a text ends inside a string. -/
def endsInString (text : String) : Bool :=
  (tokenize text).any Token.isOpenString

/-- Whether a text ends inside a block comment. -/
def endsInBlockComment (text : String) : Bool :=
  (Lexer.ofText text).lastGap.inBlockComment

section
variable {front : String}

theorem forall_of_endsInString_eq_false (h : endsInString front = false) :
    ∀ token ∈ (Lexer.ofText front).tokens, token.isOpenString = false := by
  simpa [endsInString, tokenize] using h

theorem ofText_append_lineFeed (front back : String) :
    Lexer.ofText (front ++ "\n" ++ back) = (Lexer.ofText front).append ('\n' :: back.toList) := by
  simp [Lexer.ofText, Lexer.append]

/-- The tokens of a text come first, whatever stands behind a line feed, unless the text ends inside
a string. -/
theorem exists_tokenize_append_lineFeed (hstring : endsInString front = false) (back : String) :
    ∃ more, tokenize (front ++ "\n" ++ back) = tokenize front ++ more := by
  unfold tokenize
  rw [ofText_append_lineFeed]
  exact ⟨_, Lexer.tokens_append_lineFeed _ (forall_of_endsInString_eq_false hstring)⟩

theorem tokenize_lineFeed (hstring : endsInString front = false) :
    tokenize (front ++ "\n") = tokenize front := by
  have htext := ofText_append_lineFeed front ""
  rw [String.append_empty] at htext
  unfold tokenize
  rw [htext]
  have htokens := Lexer.tokens_append_lineFeed [] (forall_of_endsInString_eq_false hstring)
  have hnil := Lexer.tokens_of_rest_eq_nil (Lexer.rest_skipGapFrom_lineFeed
    (Lexer.ofText front).lastGap (Lexer.ofText front).ending)
  rwa [hnil, List.append_nil] at htokens

/-- The tokens of two texts with a line feed between them are those of the first and those of the
second, unless the first ends inside a string or a block comment. -/
theorem tokenize_append_lineFeed (hstring : endsInString front = false)
    (hcomment : endsInBlockComment front = false) (back : String) :
    tokenize (front ++ "\n" ++ back) = tokenize front ++
      (tokenize back).map (Token.moved ((Lexer.ofText front).ending.after '\n').behind) := by
  have htokens := Lexer.tokens_append_lineFeed back.toList (forall_of_endsInString_eq_false hstring)
  have hfeed := Lexer.next?_lineFeed_of_not_inBlockComment hcomment back.toList.head?
  rw [Lexer.skipGapFrom_of_next? hfeed] at htokens
  have hback := Lexer.tokens_eq_map_moved ((Lexer.ofText front).ending.after '\n') back.toList
  rw [String.ofList_toList, ← Lexer.tokens_skipGap] at hback
  unfold tokenize at hback ⊢
  rw [ofText_append_lineFeed, htokens, ← hback]
  rfl

theorem endsInBlockComment_append_lineFeed (hstring : endsInString front = false)
    (hcomment : endsInBlockComment front = false) (back : String) :
    endsInBlockComment (front ++ "\n" ++ back) = endsInBlockComment back := by
  have hgap := Lexer.lastGap_append_lineFeed back.toList
    (forall_of_endsInString_eq_false hstring) hcomment
  unfold endsInBlockComment
  rw [ofText_append_lineFeed, hgap, Lexer.lastGap_mk]

theorem getLast?_of_endsInString (hstring : endsInString front = true) :
    ∃ last, (tokenize (front ++ "\n")).getLast? = some last ∧ last.isOpenString = true := by
  obtain ⟨token, hmem, hopen⟩ := List.any_eq_true.1 hstring
  have htext := ofText_append_lineFeed front ""
  rw [String.append_empty] at htext
  unfold tokenize
  rw [htext]
  exact Lexer.getLast?_tokens_of_isOpenString hmem hopen

end

end MiniPL
