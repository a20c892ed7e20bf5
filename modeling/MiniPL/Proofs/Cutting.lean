import MiniPL.Proofs.Splitting
import MiniPL.Token.Stream

/-!
# The tokens of a text cut in two

A text has the same tokens wherever it stands, up to their places (`Lexer.tokens_eq_map_moved`).
Where it is cut between two tokens and not inside a comment, its tokens are those of both parts
(`CutsBehind.tokenize_append`): what ends in front of the cut is the same without the text behind.

`Lexer.past` is the lexer behind some tokens, and `Lexer.GapStops` tells that no comment goes on
across a cut.
-/

namespace MiniPL

/-! ### Places behind a text -/

/-- A token with its place changed. -/
def Token.moved (place : Position → Position) (token : Token) : Token :=
  { token with position := place token.position }

namespace Position

/-- Whether a position can be the place of a character. -/
structure IsPlace (p : Position) : Prop where
  line : 1 ≤ p.line
  column : 1 ≤ p.column

theorem isPlace_start : start.IsPlace :=
  ⟨Nat.le_refl 1, Nat.le_refl 1⟩

theorem IsPlace.after {p : Position} (h : p.IsPlace) (c : Char) : (p.after c).IsPlace := by
  unfold Position.after
  split
  · exact ⟨Nat.le_add_left 1 _, Nat.le_refl 1⟩
  · exact ⟨h.line, Nat.le_add_left 1 _⟩

theorem IsPlace.advance {p : Position} (h : p.IsPlace) (cs : List Char) :
    (p.advance cs).IsPlace := by
  induction cs generalizing p with
  | nil => exact h
  | cons c cs ih => exact ih (h.after c)

/-- The place of what stands at `p` in a text, if the text itself starts at `base`. -/
def behind (base p : Position) : Position :=
  if p.line = 1 then ⟨base.line, base.column + (p.column - 1)⟩
  else ⟨base.line + (p.line - 1), p.column⟩

theorem behind_after (base : Position) {p : Position} (h : p.IsPlace) (c : Char) :
    base.behind (p.after c) = (base.behind p).after c := by
  obtain ⟨hline, hcolumn⟩ := h
  unfold behind after
  by_cases hc : c = '\n'
  · by_cases hp : p.line = 1
    · simp [hc, hp]
    · have hnext : p.line + 1 ≠ 1 := by omega
      simp only [hc, hp, hnext, if_true, if_false, mk.injEq, and_true]
      omega
  · by_cases hp : p.line = 1
    · simp only [hc, hp, if_true, if_false, mk.injEq, true_and]
      omega
    · simp [hc, hp]

theorem behind_advance (base : Position) {p : Position} (h : p.IsPlace) (cs : List Char) :
    base.behind (p.advance cs) = (base.behind p).advance cs := by
  induction cs generalizing p with
  | nil => rfl
  | cons c cs ih => rw [advance_cons, advance_cons, ih (h.after c), behind_after base h]

end Position

/-! ### A text has the same tokens wherever it stands -/

namespace Lexer

/-- The lexer with the start of its text moved to `base`. -/
def behind (base : Position) (lexer : Lexer) : Lexer :=
  ⟨lexer.rest, base.behind lexer.position⟩

/-- The scan of a string with the start of the text moved to `base`. -/
def StringScan.behind (base : Position) (scan : StringScan) : StringScan :=
  { scan with after := scan.after.behind base }

section
variable (base : Position) {p : Position}

theorem skipGapFrom_behind (gap : Gap) (cs : List Char) (h : p.IsPlace) :
    skipGapFrom gap cs (base.behind p) = (skipGapFrom gap cs p).behind base := by
  fun_induction skipGapFrom gap cs p with
  | case1 => rfl
  | case2 gap c cs p next hnext ih =>
    rw [skipGapFrom, hnext]
    dsimp only
    rw [← Position.behind_after base h]
    exact ih (h.after c)
  | case3 gap c cs p hnext =>
    rw [skipGapFrom, hnext]
    rfl

theorem scanString_quote (cs : List Char) (p : Position) :
    scanString ('"' :: cs) p = ⟨[], true, cs, p.after '"'⟩ := by
  rw [scanString.eq_def]
  exact if_pos rfl

theorem scanString_escape (c : Char) (cs : List Char) (p : Position) :
    scanString ('\\' :: c :: cs) p =
      (scanString cs ((p.after '\\').after c)).cons (unescape c) := by
  rw [scanString.eq_def]
  exact (if_neg (by decide)).trans (if_pos rfl)

theorem scanString_plain {c : Char} (hquote : c ≠ '"') (hslash : c ≠ '\\') (cs : List Char)
    (p : Position) : scanString (c :: cs) p = (scanString cs (p.after c)).cons c := by
  rw [scanString.eq_def]
  exact (if_neg hquote).trans (if_neg hslash)

theorem scanString_behind (cs : List Char) (h : p.IsPlace) :
    scanString cs (base.behind p) = (scanString cs p).behind base := by
  fun_induction scanString cs p with
  | case1 p => rfl
  | case2 p cs =>
    rw [scanString_quote, ← Position.behind_after base h]
    rfl
  | case3 p hquote =>
    rw [scanString.eq_def]
    dsimp only
    rw [if_neg hquote, if_pos rfl, ← Position.behind_after base h]
    rfl
  | case4 p c cs hquote ih =>
    rw [scanString_escape, ← Position.behind_after base h, ← Position.behind_after base (h.after _),
      ih ((h.after _).after _)]
    rfl
  | case5 c cs p hquote hslash ih =>
    rw [scanString_plain hquote hslash, ← Position.behind_after base h, ih (h.after _)]
    rfl

/-- What a scan gives if the text starts at `base`. -/
def scanBehind (scan : Token × Lexer) : Token × Lexer :=
  (scan.1.moved base.behind, scan.2.behind base)

theorem scanToken_behind (c : Char) (cs : List Char) (h : p.IsPlace) :
    scanToken c cs (base.behind p) = scanBehind base (scanToken c cs p) := by
  unfold scanToken
  split
  · dsimp only
    rw [← Position.behind_after base h, scanString_behind base cs (h.after c)]
    show (if (scanString cs (p.after c)).closed = true then _ else _) = _
    split <;> rfl
  split
  · unfold scanRun
    dsimp only
    rw [← Position.behind_advance base h]
    rfl
  split
  · unfold scanRun
    dsimp only
    rw [← Position.behind_advance base h]
    rfl
  · unfold scanSign
    rw [← Position.behind_after base h]
    cases cs with
    | nil => rfl
    | cons d ds =>
      dsimp only
      cases pairKind? c d with
      | none => rfl
      | some kind =>
        dsimp only
        rw [← Position.behind_after base (h.after c)]
        rfl

theorem tokens_of_next?_eq_none {lexer : Lexer} (h : lexer.next? = none) : lexer.tokens = [] := by
  rw [tokens]
  split
  · rfl
  · rename_i heq
    rw [h] at heq
    cases heq

theorem tokens_of_next?_eq_some {lexer after : Lexer} {token : Token}
    (h : lexer.next? = some (token, after)) : lexer.tokens = token :: after.tokens := by
  rw [tokens]
  split
  · rename_i heq
    rw [h] at heq
    cases heq
  · rename_i heq
    rw [h] at heq
    cases heq
    rfl

theorem next?_behind {lexer : Lexer} (h : lexer.position.IsPlace) :
    (lexer.behind base).next? = lexer.next?.map (scanBehind base) := by
  have hskip : (lexer.behind base).skipGap = lexer.skipGap.behind base :=
    skipGapFrom_behind base .blank lexer.rest h
  have hplace : lexer.skipGap.position.IsPlace := by
    obtain ⟨gap, -, hposition, -⟩ := lexer.exists_gap
    rw [hposition]
    exact h.advance gap
  unfold next?
  rw [hskip]
  cases hlexer : lexer.skipGap with
  | mk rest position =>
    rw [hlexer] at hplace
    cases rest with
    | nil => rfl
    | cons c cs => exact congrArg some (scanToken_behind base c cs hplace)

/-- A lexer takes its gap and its token off the text. -/
theorem exists_taken {lexer after : Lexer} {token : Token}
    (h : lexer.next? = some (token, after)) : ∃ taken, lexer.rest = taken ++ after.rest ∧
      after.position = lexer.position.advance taken := by
  obtain ⟨gap, hgap, hskip, -⟩ := lexer.exists_gap
  obtain ⟨raw, hraw, -, hafter, -, -⟩ := scans_of_next?_eq_some h
  refine ⟨gap ++ raw, ?_, ?_⟩
  · rw [hgap, hraw, List.append_assoc]
  · rw [hafter, hskip, Position.advance_append]

theorem isPlace_of_next?_eq_some {lexer after : Lexer} {token : Token}
    (h : lexer.position.IsPlace) (hnext : lexer.next? = some (token, after)) :
    after.position.IsPlace := by
  obtain ⟨taken, -, hafter⟩ := exists_taken hnext
  rw [hafter]
  exact h.advance taken

/-- The tokens of a text that starts at `base` are its own tokens, moved. -/
theorem tokens_behind {lexer : Lexer} (h : lexer.position.IsPlace) :
    (lexer.behind base).tokens = lexer.tokens.map (Token.moved base.behind) := by
  fun_induction Lexer.tokens lexer with
  | case1 lexer hnone =>
    rw [tokens_of_next?_eq_none]
    · rfl
    · rw [next?_behind base h, hnone]
      rfl
  | case2 lexer token after hsome ih =>
    have hnext : (lexer.behind base).next? =
        some (token.moved base.behind, after.behind base) := by
      rw [next?_behind base h, hsome]
      rfl
    rw [tokens_of_next?_eq_some hnext, ih (isPlace_of_next?_eq_some h hsome)]
    rfl

/-- The tokens behind a text that ends at `base` are those of the rest, moved. -/
theorem tokens_eq_map_moved (cs : List Char) :
    tokens ⟨cs, base⟩ = (tokenize (String.ofList cs)).map (Token.moved base.behind) := by
  have h : (behind base ⟨cs, .start⟩).tokens =
      (tokens ⟨cs, .start⟩).map (Token.moved base.behind) :=
    tokens_behind base Position.isPlace_start
  unfold tokenize ofText
  rw [String.toList_ofList]
  exact h

end

/-! ### Gaps in front of more text -/

open Text (isBlank)

/-- Where the character behind a block comment stands. -/
def Gap.outside : (depth : Nat) → Gap
  | 0 => blank
  | depth + 1 => blockComment depth

section
variable {p : Position}

theorem skipGapFrom_of_next? {gap next : Gap} {c : Char} {cs : List Char}
    (h : gap.next? c cs.head? = some next) :
    skipGapFrom gap (c :: cs) p = skipGapFrom next cs (p.after c) := by
  rw [skipGapFrom, h]

theorem skipGapFrom_line {line : List Char} (h : '\n' ∉ line) (cs : List Char) :
    skipGapFrom .lineComment (line ++ cs) p = skipGapFrom .lineComment cs (p.advance line) := by
  induction line generalizing p with
  | nil => rfl
  | cons c line ih =>
    have hc : c ≠ '\n' := fun hc => h (hc ▸ List.mem_cons_self)
    have hnext : Gap.lineComment.next? c (line ++ cs).head? = some .lineComment :=
      congrArg some (if_neg hc)
    rw [List.cons_append, skipGapFrom_of_next? hnext]
    exact ih fun hmem => h (List.mem_cons_of_mem _ hmem)

theorem skipGapFrom_lineFeed (cs : List Char) :
    skipGapFrom .lineComment ('\n' :: cs) p = skipGapFrom .blank ('\n' :: cs) p := by
  have hnext : Gap.blank.next? '\n' cs.head? = some .blank := rfl
  rw [skipGapFrom_of_next? hnext]
  rfl

theorem skipGapFrom_openLine (cs : List Char) :
    skipGapFrom .blank ('/' :: '/' :: cs) p =
      skipGapFrom .lineComment cs (p.advance ['/', '/']) := by
  have hfirst : Gap.blank.next? '/' ('/' :: cs).head? = some .lineComment := rfl
  have hsecond : Gap.lineComment.next? '/' cs.head? = some .lineComment := rfl
  rw [skipGapFrom_of_next? hfirst, skipGapFrom_of_next? hsecond]
  rfl

theorem skipGapFrom_openBlock (cs : List Char) :
    skipGapFrom .blank ('/' :: '*' :: cs) p =
      skipGapFrom (.blockComment 0) cs (p.advance ['/', '*']) := by
  have hfirst : Gap.blank.next? '/' ('*' :: cs).head? = some (.opening 0) := rfl
  have hsecond : (Gap.opening 0).next? '*' cs.head? = some (.blockComment 0) := rfl
  rw [skipGapFrom_of_next? hfirst, skipGapFrom_of_next? hsecond]
  rfl

theorem skipGapFrom_nested (depth : Nat) (cs : List Char) :
    skipGapFrom (.blockComment depth) ('/' :: '*' :: cs) p =
      skipGapFrom (.blockComment (depth + 1)) cs (p.advance ['/', '*']) := by
  have hfirst : (Gap.blockComment depth).next? '/' ('*' :: cs).head? =
      some (.opening (depth + 1)) := rfl
  have hsecond : (Gap.opening (depth + 1)).next? '*' cs.head? =
      some (.blockComment (depth + 1)) := rfl
  rw [skipGapFrom_of_next? hfirst, skipGapFrom_of_next? hsecond]
  rfl

theorem skipGapFrom_plain {c : Char} {cs : List Char} (hc : ¬ IsMark c cs.head?) {depth : Nat} :
    skipGapFrom (.blockComment depth) (c :: cs) p =
      skipGapFrom (.blockComment depth) cs (p.after c) := by
  have hclosing : ¬ (c = '*' ∧ cs.head? = some '/') := fun h => hc (.inl h)
  have hopening : ¬ (c = '/' ∧ cs.head? = some '*') := fun h => hc (.inr h)
  have hnext : (Gap.blockComment depth).next? c cs.head? = some (.blockComment depth) := by
    rw [Gap.next?, if_neg hclosing, if_neg hopening]
  exact skipGapFrom_of_next? hnext

/-- The body of a comment leads out of it, whatever stands behind. -/
theorem skipGapFrom_body {body : List Char} (h : CommentBody body) (depth : Nat) (cs : List Char) :
    skipGapFrom (.blockComment depth) (body ++ cs) p =
      skipGapFrom (.outside depth) cs (p.advance body) := by
  induction h generalizing depth p cs with
  | close =>
    have hfirst : (Gap.blockComment depth).next? '*' ('/' :: cs).head? = some (.closing depth) :=
      rfl
    have hsecond : (Gap.closing depth).next? '/' cs.head? = some (.outside depth) := by
      cases depth <;> rfl
    rw [List.cons_append, List.singleton_append, skipGapFrom_of_next? hfirst,
      skipGapFrom_of_next? hsecond]
    rfl
  | @plain c body hc hbody ih =>
    rw [← head?_commentBody_append hbody cs] at hc
    rw [List.cons_append, skipGapFrom_plain hc, ih]
    rfl
  | @nested inner body _ _ ihinner ih =>
    rw [List.cons_append, List.cons_append, List.cons_append, List.cons_append, skipGapFrom_nested,
      List.append_assoc, ihinner]
    show skipGapFrom (.blockComment depth) (body ++ cs) _ = _
    rw [ih]
    simp only [Position.advance_cons, Position.advance_append, Position.advance_nil]

/-- The body of a comment that is never closed is passed over to the end. -/
theorem skipGapFrom_openBody {body : List Char} (h : OpenBody body) (depth : Nat) :
    skipGapFrom (.blockComment depth) body p = ⟨[], p.advance body⟩ := by
  induction h generalizing depth p with
  | nil => rfl
  | plain hc _ ih =>
    rw [skipGapFrom_plain hc, ih]
    rfl
  | @nested inner body hinner _ ih =>
    rw [List.cons_append, List.cons_append, skipGapFrom_nested, skipGapFrom_body hinner]
    show skipGapFrom (.blockComment depth) body _ = _
    rw [ih]
    simp only [Position.advance_cons, Position.advance_append, Position.advance_nil]
  | opening _ ih =>
    rw [skipGapFrom_nested, ih]
    rfl

/-- A gap is passed over, whatever stands behind. -/
theorem skipGapFrom_gap {gap : List Char} (h : IsGap gap) (cs : List Char) :
    skipGapFrom .blank (gap ++ cs) p = skipGapFrom .blank cs (p.advance gap) := by
  induction h generalizing p with
  | nil => rfl
  | @blank c gap hc _ ih =>
    have hnext : Gap.blank.next? c (gap ++ cs).head? = some .blank := if_pos hc
    rw [List.cons_append, skipGapFrom_of_next? hnext, ih]
    rfl
  | @line line gap hline _ ih =>
    have hnext : Gap.lineComment.next? '\n' (gap ++ cs).head? = some .blank := rfl
    simp only [List.cons_append, List.append_assoc]
    rw [skipGapFrom_openLine, skipGapFrom_line hline, skipGapFrom_of_next? hnext, ih]
    simp only [Position.advance_cons, Position.advance_append, Position.advance_nil]
  | @comment body gap hbody _ ih =>
    simp only [List.cons_append, List.append_assoc]
    rw [skipGapFrom_openBlock, skipGapFrom_body hbody]
    show skipGapFrom .blank (gap ++ cs) _ = _
    rw [ih]
    simp only [Position.advance_cons, Position.advance_append, Position.advance_nil]

/-- The text behind the last token is passed over to the end. -/
theorem skipGapFrom_lastGap {gap : List Char} (h : IsLastGap gap) :
    skipGapFrom .blank gap p = ⟨[], p.advance gap⟩ := by
  rcases h with h | ⟨front, comment, rfl, hfront, hcomment⟩
  · have hgap := skipGapFrom_gap h [] (p := p)
    rwa [List.append_nil] at hgap
  · rw [skipGapFrom_gap hfront, Position.advance_append]
    cases hcomment with
    | @line line hline =>
      have hskip := skipGapFrom_line hline [] (p := (p.advance front).advance ['/', '/'])
      rw [List.append_nil] at hskip
      rw [skipGapFrom_openLine, hskip]
      rfl
    | block hbody =>
      rw [skipGapFrom_openBlock, skipGapFrom_openBody hbody]
      rfl

/-- `GapStops gap cs`: no comment goes on from a gap into the text behind it. -/
inductive GapStops : List Char → List Char → Prop
  | gap {gap cs : List Char} (h : IsGap gap) : GapStops gap cs
  /-- A line comment ends in front of its line feed. -/
  | line {front line cs : List Char} (hfront : IsGap front) (hline : '\n' ∉ line) :
    GapStops (front ++ '/' :: '/' :: line) ('\n' :: cs)
  | last {gap : List Char} (h : IsLastGap gap) : GapStops gap []

theorem GapStops.isLastGap {gap cs : List Char} (h : GapStops gap cs) : IsLastGap gap := by
  cases h with
  | gap h => exact .inl h
  | line hfront hline => exact .inr ⟨_, _, rfl, hfront, .line hline⟩
  | last h => exact h

theorem GapStops.skipGapFrom_append {gap cs : List Char} (h : GapStops gap cs) :
    skipGapFrom .blank (gap ++ cs) p = skipGapFrom .blank cs (p.advance gap) := by
  cases h with
  | gap h => exact skipGapFrom_gap h cs
  | line hfront hline =>
    rw [List.append_assoc, skipGapFrom_gap hfront, List.cons_append, List.cons_append,
      skipGapFrom_openLine, skipGapFrom_line hline, skipGapFrom_lineFeed]
    simp only [Position.advance_cons, Position.advance_append, Position.advance_nil]
  | last h =>
    rw [List.append_nil, skipGapFrom_lastGap h]
    rfl

end

/-! ### Tokens without the text behind them -/

section
variable {cs ds rest : List Char} {p q : Position}

theorem ne_cons_append {es : List Char} (hle : es.length ≤ ds.length) (c : Char) :
    es ≠ c :: (rest ++ ds) := by
  rintro rfl
  rw [List.length_cons, List.length_append] at hle
  omega

/-- A gap that ends in front of the text behind is the same without that text. -/
theorem skipGapFrom_of_append {gap : Gap} {c : Char}
    (h : skipGapFrom gap (cs ++ ds) p = ⟨c :: (rest ++ ds), q⟩) :
    skipGapFrom gap cs p = ⟨c :: rest, q⟩ := by
  have hshort : ∀ (gap : Gap) (p : Position), skipGapFrom gap ds p ≠ ⟨c :: (rest ++ ds), q⟩ :=
    fun gap p heq => ne_cons_append (length_skipGapFrom_le gap ds p) c (congrArg Lexer.rest heq)
  induction cs generalizing gap p with
  | nil => exact absurd h (hshort gap p)
  | cons d cs ih =>
    cases hnext : gap.next? d (cs ++ ds).head? with
    | none =>
      rw [List.cons_append, skipGapFrom, hnext] at h
      obtain ⟨htext, rfl⟩ := Lexer.mk.inj h
      obtain ⟨rfl, hbehind⟩ := List.cons.inj htext
      obtain rfl : cs = rest := List.append_cancel_right hbehind
      obtain rfl := Gap.eq_blank_of_next?_eq_none hnext
      have hnext' : Gap.blank.next? d cs.head? = none := by
        cases cs with
        | nil =>
          simp only [Gap.next?] at hnext ⊢
          grind
        | cons e cs => exact hnext
      rw [skipGapFrom, hnext']
    | some next =>
      rw [List.cons_append, skipGapFrom_of_next? hnext] at h
      cases cs with
      | nil => exact absurd h (hshort next _)
      | cons e cs =>
        have hnext' : gap.next? d (e :: cs).head? = some next := hnext
        rw [skipGapFrom_of_next? hnext', ih h]

/-- The scan of a closed string leaves less than all of the text. -/
theorem exists_closing_quote (hclosed : (scanString cs p).closed = true)
    (h : (scanString cs p).after = ⟨rest, q⟩) : ∃ body, cs = body ++ '"' :: rest := by
  have hreads := reads_scanString cs p
  unfold StringScan.Reads at hreads
  rw [if_pos hclosed, h] at hreads
  obtain ⟨body, hbody, -⟩ := hreads
  exact ⟨body, hbody⟩

/-- A string that is closed in front of the text behind is the same without that text. -/
theorem scanString_of_append (hclosed : (scanString (cs ++ ds) p).closed = true)
    (h : (scanString (cs ++ ds) p).after = ⟨rest ++ ds, q⟩) :
    scanString cs p = { scanString (cs ++ ds) p with after := ⟨rest, q⟩ } := by
  fun_induction scanString cs p with
  | case1 p =>
    obtain ⟨body, hbody⟩ := exists_closing_quote hclosed h
    have hlength := congrArg List.length hbody
    simp only [List.nil_append, List.length_append, List.length_cons] at hlength
    omega
  | case2 p cs =>
    rw [List.cons_append, scanString_quote] at h ⊢
    obtain ⟨htext, rfl⟩ := Lexer.mk.inj h
    rw [List.append_cancel_right htext]
  | case3 p hquote =>
    obtain ⟨body, hbody⟩ := exists_closing_quote hclosed h
    cases body with
    | nil => cases hbody
    | cons c body =>
      have hlength := congrArg List.length hbody
      simp only [List.cons_append, List.nil_append, List.length_append, List.length_cons] at hlength
      omega
  | case4 p d cs hquote ih =>
    rw [List.cons_append, List.cons_append, scanString_escape] at hclosed h ⊢
    rw [ih hclosed h]
    rfl
  | case5 c cs p hquote hslash ih =>
    rw [List.cons_append, scanString_plain hquote hslash] at hclosed h ⊢
    rw [ih hclosed h]
    rfl

theorem dropWhile_of_append {isMember : Char → Bool}
    (h : (cs ++ ds).dropWhile isMember = rest ++ ds) :
    cs.dropWhile isMember = rest ∧ cs.takeWhile isMember = (cs ++ ds).takeWhile isMember := by
  induction cs with
  | nil =>
    have hsplit : ds.takeWhile isMember ++ ds.dropWhile isMember = ds :=
      List.takeWhile_append_dropWhile
    rw [List.nil_append] at h ⊢
    rw [h, ← List.append_assoc] at hsplit
    have hnil := List.append_cancel_right (hsplit.trans (List.nil_append ds).symm)
    obtain ⟨htake, rfl⟩ := List.append_eq_nil_iff.1 hnil
    exact ⟨rfl, htake.symm⟩
  | cons c cs ih =>
    by_cases hc : isMember c = true
    · rw [List.cons_append, List.dropWhile_cons_of_pos hc] at h
      obtain ⟨hdrop, htake⟩ := ih h
      rw [List.cons_append, List.dropWhile_cons_of_pos hc, List.takeWhile_cons_of_pos hc,
        List.takeWhile_cons_of_pos hc]
      exact ⟨hdrop, congrArg (c :: ·) htake⟩
    · rw [List.cons_append, List.dropWhile_cons_of_neg hc] at h
      rw [List.cons_append, List.dropWhile_cons_of_neg hc, List.takeWhile_cons_of_neg hc,
        List.takeWhile_cons_of_neg hc]
      exact ⟨List.append_cancel_right h, rfl⟩

theorem scanRun_of_append {isMember : Char → Bool} {kind : String → TokenKind} {c : Char}
    {token : Token} (h : scanRun isMember kind c (cs ++ ds) p = (token, ⟨rest ++ ds, q⟩)) :
    scanRun isMember kind c cs p = (token, ⟨rest, q⟩) := by
  unfold scanRun at h ⊢
  obtain ⟨htoken, hafter⟩ := Prod.mk.inj h
  obtain ⟨htext, hposition⟩ := Lexer.mk.inj hafter
  obtain ⟨hdrop, htake⟩ := dropWhile_of_append htext
  dsimp only
  rw [hdrop, htake, hposition, htoken]

theorem scan_of_append {es : List Char} {q' : Position} {token token' : Token}
    (h : (token', Lexer.mk (es ++ ds) q') = (token, ⟨rest ++ ds, q⟩)) :
    (token', Lexer.mk es q') = (token, ⟨rest, q⟩) := by
  obtain ⟨rfl, hafter⟩ := Prod.mk.inj h
  obtain ⟨htext, rfl⟩ := Lexer.mk.inj hafter
  rw [List.append_cancel_right htext]

theorem scanSign_of_append {c : Char} {token : Token}
    (h : scanSign c (cs ++ ds) p = (token, ⟨rest ++ ds, q⟩)) :
    scanSign c cs p = (token, ⟨rest, q⟩) := by
  cases cs with
  | cons d cs =>
    unfold scanSign at h ⊢
    dsimp only [List.cons_append] at h ⊢
    cases hpair : pairKind? c d with
    | some kind =>
      rw [hpair] at h
      exact scan_of_append h
    | none =>
      rw [hpair] at h
      exact scan_of_append h
  | nil =>
    cases ds with
    | nil => rwa [List.append_nil, List.append_nil] at h
    | cons d ds =>
      unfold scanSign at h ⊢
      dsimp only [List.nil_append] at h ⊢
      cases hpair : pairKind? c d with
      | none =>
        rw [hpair] at h
        exact scan_of_append h
      | some kind =>
        -- the pair would take a character of the text behind
        rw [hpair] at h
        have hlength := congrArg (fun scan => scan.2.rest.length) h
        simp only [List.length_append, List.length_cons] at hlength
        omega

/-- A token that ends in front of the text behind is the same without that text. -/
theorem scanToken_of_append {c : Char} {token : Token}
    (h : scanToken c (cs ++ ds) p = (token, ⟨rest ++ ds, q⟩)) :
    scanToken c cs p = (token, ⟨rest, q⟩) := by
  by_cases hds : ds = []
  · rwa [hds, List.append_nil, List.append_nil] at h
  unfold scanToken at h ⊢
  by_cases hquote : c = '"'
  · rw [if_pos hquote] at h ⊢
    dsimp only at h ⊢
    by_cases hclosed : (scanString (cs ++ ds) (p.after c)).closed = true
    · rw [if_pos hclosed] at h
      obtain ⟨rfl, hafter⟩ := Prod.mk.inj h
      rw [scanString_of_append hclosed hafter, if_pos hclosed]
    · -- a string that is not closed leaves no text behind
      have hreads := reads_scanString (cs ++ ds) (p.after c)
      unfold StringScan.Reads at hreads
      rw [if_neg hclosed] at hreads h
      rw [hreads.1] at h
      have htext : [] = rest ++ ds := congrArg (fun scan => scan.2.rest) h
      exact absurd (List.append_eq_nil_iff.1 htext.symm).2 hds
  rw [if_neg hquote] at h ⊢
  by_cases hdigit : c.isDigit = true
  · rw [if_pos hdigit] at h ⊢
    exact scanRun_of_append h
  rw [if_neg hdigit] at h ⊢
  by_cases hletter : isLetter c = true
  · rw [if_pos hletter] at h ⊢
    exact scanRun_of_append h
  rw [if_neg hletter] at h ⊢
  exact scanSign_of_append h

/-- The next token is the same without the text behind it. -/
theorem next?_of_append {token : Token}
    (h : next? ⟨cs ++ ds, p⟩ = some (token, ⟨rest ++ ds, q⟩)) :
    next? ⟨cs, p⟩ = some (token, ⟨rest, q⟩) := by
  unfold next? at h ⊢
  cases hskip : skipGap ⟨cs ++ ds, p⟩ with
  | mk text place =>
    rw [hskip] at h
    cases text with
    | nil => cases h
    | cons c es =>
      have hscan : scanToken c es place = (token, ⟨rest ++ ds, q⟩) := Option.some.inj h
      obtain ⟨raw, hraw, hne, -⟩ := scans_scanToken c es place
      rw [hscan] at hraw
      cases raw with
      | nil => exact absurd rfl hne
      | cons d raw =>
        obtain rfl : es = raw ++ rest ++ ds :=
          (List.cons.inj hraw).2.trans (List.append_assoc ..).symm
        have hskip' : skipGap ⟨cs, p⟩ = ⟨c :: (raw ++ rest), place⟩ := skipGapFrom_of_append hskip
        rw [hskip']
        exact congrArg some (scanToken_of_append hscan)

end

/-! ### Cuts -/

/-- The lexer behind the next `count` tokens. -/
def past : (count : Nat) → Lexer → Lexer
  | 0, lexer => lexer
  | count + 1, lexer =>
    match lexer.next? with
    | none => lexer
    | some (_, after) => after.past count

theorem past_of_next?_eq_none {lexer : Lexer} (h : lexer.next? = none) (count : Nat) :
    lexer.past count = lexer := by
  cases count with
  | zero => rfl
  | succ count => rw [past, h]

theorem past_of_next?_eq_some {lexer after : Lexer} {token : Token}
    (h : lexer.next? = some (token, after)) (count : Nat) :
    lexer.past (count + 1) = after.past count := by
  rw [past, h]

theorem exists_taken_past (lexer : Lexer) (count : Nat) :
    ∃ taken, lexer.rest = taken ++ (lexer.past count).rest := by
  induction count generalizing lexer with
  | zero => exact ⟨[], rfl⟩
  | succ count ih =>
    cases hnext : lexer.next? with
    | none =>
      rw [past_of_next?_eq_none hnext]
      exact ⟨[], rfl⟩
    | some scan =>
      obtain ⟨token, after⟩ := scan
      obtain ⟨front, hfront, -⟩ := exists_taken hnext
      obtain ⟨taken, htaken⟩ := ih after
      rw [past_of_next?_eq_some hnext]
      exact ⟨front ++ taken, by rw [hfront, htaken, List.append_assoc]⟩

section
variable {gap back : List Char} {p q : Position}

theorem tokens_congr {lexer lexer' : Lexer} (h : lexer.next? = lexer'.next?) :
    lexer.tokens = lexer'.tokens := by
  cases hnext : lexer'.next? with
  | none => rw [tokens_of_next?_eq_none (h.trans hnext), tokens_of_next?_eq_none hnext]
  | some scan => rw [tokens_of_next?_eq_some (h.trans hnext), tokens_of_next?_eq_some hnext]

theorem tokens_skipGap (lexer : Lexer) : lexer.skipGap.tokens = lexer.tokens :=
  tokens_congr lexer.next?_skipGap

theorem GapStops.tokens_eq_nil (h : GapStops gap back) (p : Position) : tokens ⟨gap, p⟩ = [] := by
  refine tokens_of_next?_eq_none ?_
  unfold next? skipGap
  rw [skipGapFrom_lastGap h.isLastGap]

theorem GapStops.tokens_append (h : GapStops gap back) (p : Position) :
    tokens ⟨gap ++ back, p⟩ = tokens ⟨back, p.advance gap⟩ := by
  refine tokens_congr ?_
  unfold next? skipGap
  rw [h.skipGapFrom_append]

/-- Behind some tokens, and not inside a comment, the tokens of a text fall apart into those of the
text in front and those of the text behind. -/
theorem tokens_of_past (hgap : GapStops gap back) {front : List Char} {count : Nat}
    (h : past count ⟨front ++ back, p⟩ = ⟨gap ++ back, q⟩) :
    tokens ⟨front, p⟩ = (tokens ⟨front ++ back, p⟩).take count ∧
      tokens ⟨front ++ back, p⟩ = tokens ⟨front, p⟩ ++ tokens ⟨back, p.advance front⟩ := by
  induction count generalizing front p with
  | zero =>
    obtain ⟨htext, rfl⟩ := Lexer.mk.inj h
    obtain rfl : front = gap := List.append_cancel_right htext
    rw [hgap.tokens_eq_nil, hgap.tokens_append]
    exact ⟨rfl, rfl⟩
  | succ count ih =>
    cases hnext : next? ⟨front ++ back, p⟩ with
    | none =>
      rw [past_of_next?_eq_none hnext] at h
      obtain ⟨htext, rfl⟩ := Lexer.mk.inj h
      obtain rfl : front = gap := List.append_cancel_right htext
      rw [← hgap.tokens_append, hgap.tokens_eq_nil, tokens_of_next?_eq_none hnext]
      exact ⟨rfl, rfl⟩
    | some scan =>
      obtain ⟨token, after, place⟩ := scan
      rw [past_of_next?_eq_some hnext] at h
      obtain ⟨taken, htaken⟩ := exists_taken_past ⟨after, place⟩ count
      rw [h] at htaken
      dsimp only at htaken
      rw [← List.append_assoc] at htaken
      subst htaken
      obtain ⟨read, hread, hplace⟩ := exists_taken hnext
      dsimp only at hread hplace
      rw [← List.append_assoc] at hread
      obtain rfl : front = read ++ (taken ++ gap) := List.append_cancel_right hread
      obtain ⟨htake, htokens⟩ := ih h
      rw [tokens_of_next?_eq_some hnext, tokens_of_next?_eq_some (next?_of_append hnext),
        List.take_succ_cons, htake, Position.advance_append, ← hplace, List.cons_append, ← htake,
        ← htokens]
      exact ⟨rfl, rfl⟩

end

end Lexer

/-- `CutsBehind count front back`: the cut between two parts of a text stands behind the first
`count` tokens of the whole, and not inside a comment. -/
def CutsBehind (count : Nat) (front back : String) : Prop :=
  ∃ gap place, (Lexer.ofText (front ++ back)).past count = ⟨gap ++ back.toList, place⟩ ∧
    Lexer.GapStops gap back.toList

/-- A text that is cut falls apart into the tokens of both parts, those of the second moved behind
the first. -/
theorem CutsBehind.tokenize_append {count : Nat} {front back : String}
    (h : CutsBehind count front back) :
    tokenize front = (tokenize (front ++ back)).take count ∧
      tokenize (front ++ back) =
        tokenize front ++ (tokenize back).map (Token.moved (placeAfter front.toList).behind) := by
  obtain ⟨gap, place, hpast, hgap⟩ := h
  have hplace : Position.start.advance front.toList = placeAfter front.toList :=
    advance_placeAfter [] front.toList
  have hbehind := Lexer.tokens_eq_map_moved (placeAfter front.toList) back.toList
  rw [String.ofList_toList] at hbehind
  unfold Lexer.ofText at hpast
  rw [String.toList_append] at hpast
  have htokens := Lexer.tokens_of_past hgap hpast
  rw [hplace, hbehind, ← String.toList_append] at htokens
  exact htokens

end MiniPL
