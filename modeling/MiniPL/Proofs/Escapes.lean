import Mathlib.Algebra.Group.Nat.Even
import Mathlib.Data.List.DropRight
import MiniPL.Proofs.Splitting

/-!
# Where a string is closed

Behind its opening quote, a string is closed by the first quote in front of which an even number of
backslashes stands in a row, none included.  The string reads up to there; without such a quote it
takes all of the text and is no string literal.  Either way it stands for what it has read with each
backslash and the character behind it replaced (`Lexer.unescaped`).

`Lexer.ClosesBehind` is such a quote, `Lexer.ClosesFirst` the first one, and `Lexer.StaysOpen` a
text without one.  Main statement: `Lexer.scanToken_quote`.
-/

namespace MiniPL.Lexer

/-! ### Backslashes in a row -/

/-- How many backslashes stand in a row at the end of a text. -/
def backslashRun (cs : List Char) : Nat :=
  (cs.rtakeWhile (· == '\\')).length

theorem backslashRun_nil : backslashRun [] = 0 := rfl

theorem backslashRun_concat_backslash (cs : List Char) :
    backslashRun (cs ++ ['\\']) = backslashRun cs + 1 := by
  unfold backslashRun
  rw [List.rtakeWhile_concat_pos _ _ _ rfl, List.length_append, List.length_singleton]

theorem backslashRun_concat {c : Char} (h : c ≠ '\\') (cs : List Char) :
    backslashRun (cs ++ [c]) = 0 := by
  unfold backslashRun
  rw [List.rtakeWhile_concat_neg _ _ _ (by simpa using h), List.length_nil]

/-- What stands in front of another character is not in one row with the end of the text. -/
theorem backslashRun_cons {c : Char} (h : c ≠ '\\') (cs : List Char) :
    backslashRun (c :: cs) = backslashRun cs := by
  induction cs using List.reverseRecOn with
  | nil => exact backslashRun_concat h []
  | append_singleton cs d ih =>
    rw [← List.cons_append]
    by_cases hd : d = '\\'
    · rw [hd, backslashRun_concat_backslash, backslashRun_concat_backslash, ih]
    · rw [backslashRun_concat hd, backslashRun_concat hd]

/-- A backslash and the character behind it leave the row as even as it is. -/
theorem even_backslashRun_escape (c : Char) (cs : List Char) :
    Even (backslashRun ('\\' :: c :: cs)) ↔ Even (backslashRun cs) := by
  induction cs using List.reverseRecOn with
  | nil =>
    by_cases hc : c = '\\'
    · subst hc
      decide
    · rw [← List.singleton_append, backslashRun_concat hc, backslashRun_nil]
  | append_singleton cs d ih =>
    rw [← List.cons_append, ← List.cons_append]
    by_cases hd : d = '\\'
    · rw [hd, backslashRun_concat_backslash, backslashRun_concat_backslash, Nat.even_add_one,
        Nat.even_add_one, ih]
    · rw [backslashRun_concat hd, backslashRun_concat hd]

/-! ### Quotes that close -/

/-- Behind `body` stands a quote, and then `rest`; the backslashes in front of the quote are even in
number. -/
structure ClosesBehind (body rest text : List Char) : Prop where
  text_eq : text = body ++ '"' :: rest
  even : Even (backslashRun body)

/-- The quote behind `body` is the first that closes. -/
structure ClosesFirst (body rest text : List Char) : Prop extends ClosesBehind body rest text where
  first : ∀ other behind, ClosesBehind other behind text → body.length ≤ other.length

/-- No quote of the text closes. -/
def StaysOpen (text : List Char) : Prop :=
  ∀ body rest, ¬ ClosesBehind body rest text

theorem staysOpen_nil : StaysOpen [] := fun _ _ h =>
  absurd (List.append_eq_nil_iff.1 h.text_eq.symm).2 (List.cons_ne_nil _ _)

theorem StaysOpen.plain {c : Char} {text : List Char} (hquote : c ≠ '"') (hslash : c ≠ '\\')
    (h : StaysOpen text) : StaysOpen (c :: text) := by
  rintro body rest ⟨htext, heven⟩
  cases body with
  | nil => exact hquote (List.cons.inj htext).1
  | cons d body =>
    obtain ⟨rfl, hbehind⟩ := List.cons.inj htext
    rw [backslashRun_cons hslash] at heven
    exact h body rest ⟨hbehind, heven⟩

theorem StaysOpen.escape (c : Char) {text : List Char} (h : StaysOpen text) :
    StaysOpen ('\\' :: c :: text) := by
  rintro body rest ⟨htext, heven⟩
  rcases body with _ | ⟨d, _ | ⟨e, body⟩⟩
  · exact absurd (List.cons.inj htext).1 (by decide)
  · -- one backslash stands in front of the quote
    obtain ⟨rfl, -⟩ := List.cons.inj htext
    exact absurd heven (by decide)
  · obtain ⟨hslash, hescape⟩ := List.cons.inj htext
    obtain ⟨rfl, hbehind⟩ := List.cons.inj hescape
    rw [← hslash] at heven
    exact h body rest ⟨hbehind, (even_backslashRun_escape _ _).1 heven⟩

theorem staysOpen_backslash : StaysOpen ['\\'] := by
  rintro body rest ⟨htext, -⟩
  have hmem : '"' ∈ body ++ '"' :: rest := List.mem_append_right _ List.mem_cons_self
  rw [← htext] at hmem
  exact absurd hmem (by decide)

/-! ### What stands between quotes -/

/-- What a text between quotes stands for: each backslash is replaced together with the character
behind it, and a last one alone is dropped. -/
def unescaped : List Char → List Char
  | [] => []
  | c :: cs =>
    if c = '\\' then
      match cs with
      | [] => []
      | d :: cs => unescape d :: unescaped cs
    else c :: unescaped cs

theorem unescaped_plain {c : Char} (h : c ≠ '\\') (cs : List Char) :
    unescaped (c :: cs) = c :: unescaped cs := by
  rw [unescaped.eq_def]
  exact if_neg h

theorem unescaped_escape (c : Char) (cs : List Char) :
    unescaped ('\\' :: c :: cs) = unescape c :: unescaped cs := by
  rw [unescaped.eq_def]
  exact if_pos rfl

section
variable {body value : List Char}

theorem Unescapes.even_backslashRun (h : Unescapes body value) : Even (backslashRun body) := by
  induction h with
  | nil => exact Even.zero
  | plain _ hslash _ ih => rwa [backslashRun_cons hslash]
  | lineFeed _ ih | tab _ ih | literal _ _ _ ih => exact (even_backslashRun_escape _ _).2 ih

/-- What stands for a value holds no quote that closes, in front of any text that holds none. -/
theorem Unescapes.staysOpen_append (h : Unescapes body value) {last : List Char}
    (hlast : StaysOpen last) : StaysOpen (body ++ last) := by
  induction h with
  | nil => exact hlast
  | plain hquote hslash _ ih => exact ih.plain hquote hslash
  | lineFeed _ ih | tab _ ih | literal _ _ _ ih => exact ih.escape _

theorem Unescapes.unescaped_append (h : Unescapes body value) (last : List Char) :
    unescaped (body ++ last) = value ++ unescaped last := by
  induction h with
  | nil => rfl
  | plain _ hslash _ ih => rw [List.cons_append, unescaped_plain hslash, ih, List.cons_append]
  | lineFeed _ ih | tab _ ih =>
    rw [List.cons_append, List.cons_append, unescaped_escape, ih]
    rfl
  | literal hn ht _ ih =>
    rw [List.cons_append, List.cons_append, unescaped_escape, ih, unescape, if_neg hn, if_neg ht,
      List.cons_append]

theorem Unescapes.eq_unescaped (h : Unescapes body value) : value = unescaped body := by
  have hvalue := h.unescaped_append []
  rw [List.append_nil] at hvalue
  rw [hvalue, unescaped, List.append_nil]

theorem UnescapesOpen.eq_unescaped (h : UnescapesOpen body value) : value = unescaped body := by
  rcases h with h | ⟨init, rfl, h⟩
  · exact h.eq_unescaped
  · rw [h.unescaped_append]
    exact (List.append_nil value).symm

theorem UnescapesOpen.staysOpen (h : UnescapesOpen body value) : StaysOpen body := by
  rcases h with h | ⟨init, rfl, h⟩
  · rw [← List.append_nil body]
    exact h.staysOpen_append staysOpen_nil
  · exact h.staysOpen_append staysOpen_backslash

/-- What stands for a value is followed by the first quote that closes. -/
theorem Unescapes.closesFirst (h : Unescapes body value) (rest : List Char) :
    ClosesFirst body rest (body ++ '"' :: rest) where
  text_eq := rfl
  even := h.even_backslashRun
  first other behind hother := by
    by_contra hshort
    have hopen := h.staysOpen_append staysOpen_nil
    rw [List.append_nil] at hopen
    -- a shorter one would lie inside of `body`, with its quote
    have hfront : other ++ ['"'] <+: body ++ '"' :: rest :=
      ⟨behind, by rw [hother.text_eq, List.append_assoc, List.singleton_append]⟩
    have hinside : other ++ ['"'] <+: body :=
      List.prefix_of_prefix_length_le hfront (List.prefix_append _ _) (by simp; omega)
    obtain ⟨more, hmore⟩ := hinside
    rw [List.append_assoc, List.singleton_append] at hmore
    exact hopen other more ⟨hmore.symm, hother.even⟩

end

/-- Behind an opening quote at `p`, a string literal is read exactly if some quote of the text has
an even number of backslashes in front of it.  The literal then reads through the first such quote,
and stands for the text in front of it; otherwise all of the text is read, into one unknown
token. -/
theorem scanToken_quote (text : List Char) (p : Position) :
    ((scanToken '"' text p).1.kind = .stringLiteral ↔ ∃ body rest, ClosesBehind body rest text) ∧
      ((∃ body rest, ClosesFirst body rest text ∧
          scanToken '"' text p = (⟨.stringLiteral, String.ofList (unescaped body), p⟩,
            ⟨rest, p.advance ('"' :: body ++ ['"'])⟩)) ∨
        StaysOpen text ∧
          scanToken '"' text p = (⟨.unknown, String.ofList ('"' :: unescaped text), p⟩,
            ⟨[], p.advance ('"' :: text)⟩)) := by
  have hreads := reads_scanString text (p.after '"')
  unfold StringScan.Reads at hreads
  rw [scanToken, if_pos rfl]
  dsimp only
  cases hclosed : (scanString text (p.after '"')).closed with
  | true =>
    rw [hclosed, if_pos rfl] at hreads
    obtain ⟨body, htext, hbody, hposition⟩ := hreads
    have hfirst := hbody.closesFirst (scanString text (p.after '"')).after.rest
    rw [← htext] at hfirst
    rw [if_pos rfl, hbody.eq_unescaped]
    refine ⟨iff_of_true rfl ⟨body, _, hfirst.toClosesBehind⟩, .inl ⟨body, _, hfirst, ?_⟩⟩
    rw [List.cons_append, Position.advance_cons, ← hposition]
  | false =>
    rw [hclosed, if_neg Bool.false_ne_true] at hreads
    obtain ⟨hafter, hopen⟩ := hreads
    rw [if_neg Bool.false_ne_true, hopen.eq_unescaped, hafter]
    refine ⟨iff_of_false ?_ ?_, .inr ⟨hopen.staysOpen, rfl⟩⟩
    · intro hkind
      cases hkind
    · rintro ⟨body, rest, hcloses⟩
      exact hopen.staysOpen body rest hcloses

end MiniPL.Lexer
