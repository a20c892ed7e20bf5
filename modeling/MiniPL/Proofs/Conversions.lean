import MiniPL.Proofs.Reading
import MiniPL.Proofs.Writing

/-!
# Conversions

The text of a value, converted to the type of the value, is the value again, and converting a value
twice is converting it once.  The text of a number or a truth value is one word
(`Value.isWord_text`), so that blanks around it do not count: neither when a text is converted
(`Text.IsWord.trimChars_eq`), nor when the words of an input are read (`Text.IsWord.words_eq`).
What `print` writes of such a value, `read` takes back.

Main statement: `Value.text_restores`.
-/

namespace MiniPL

namespace Text

/-! ### Words between blanks -/

theorem isBlank_eq_false_of_isDigit {c : Char} (h : c.isDigit = true) : isBlank c = false := by
  refine Bool.eq_false_iff.2 fun hblank => ?_
  have hword := Lexer.isWordChar_eq_false_of_isBlank hblank
  simp [Lexer.isWordChar, Char.isAlphanum, h] at hword

/-- The characters are one word: there are some, and none is blank. -/
structure IsWord (word : List Char) : Prop where
  ne_nil : word ≠ []
  not_blank : ∀ c ∈ word, isBlank c = false

/-- All characters of a text are blank. -/
def IsBlankText (text : String) : Prop :=
  ∀ c ∈ text.toList, isBlank c = true

/-- A text is empty or starts with a blank, so that a word in front of it ends there. -/
def EndsWord (text : String) : Prop :=
  ∀ c, text.toList.head? = some c → isBlank c = true

namespace IsWord

variable {word front back : List Char}

theorem reverse (h : IsWord word) : IsWord word.reverse :=
  ⟨mt List.reverse_eq_nil_iff.1 h.ne_nil, fun c hc => h.not_blank c (List.mem_reverse.1 hc)⟩

/-- Blanks are dropped up to the word. -/
theorem dropWhile_eq (h : IsWord word) (hfront : ∀ c ∈ front, isBlank c = true)
    (back : List Char) : (front ++ (word ++ back)).dropWhile isBlank = word ++ back := by
  rw [List.dropWhile_append_of_pos hfront]
  obtain ⟨c, cs, rfl⟩ := List.exists_cons_of_ne_nil h.ne_nil
  rw [List.cons_append, List.dropWhile_cons, h.not_blank c List.mem_cons_self]
  rfl

theorem trimChars_eq (h : IsWord word) (hfront : ∀ c ∈ front, isBlank c = true)
    (hback : ∀ c ∈ back, isBlank c = true) : trimChars (front ++ word ++ back) = word := by
  have hreverse : ∀ c ∈ back.reverse, isBlank c = true :=
    fun c hc => hback c (List.mem_reverse.1 hc)
  have hdrop := h.reverse.dropWhile_eq hreverse []
  rw [List.append_nil] at hdrop
  rw [trimChars, List.append_assoc, h.dropWhile_eq hfront, List.reverse_append, hdrop,
    List.reverse_reverse]

theorem fields_eq (h : IsWord word) : fields word = [word] := by
  obtain ⟨hne, hblank⟩ := h
  induction word with
  | nil => exact absurd rfl hne
  | cons c cs ih =>
    obtain ⟨hc, hcs⟩ := List.forall_mem_cons.1 hblank
    rw [fields, if_neg (by simp [hc])]
    cases cs with
    | nil => rfl
    | cons d ds => rw [ih (List.cons_ne_nil d ds) hcs]

theorem wordChars_append (h : IsWord word)
    (hback : ∀ c, back.head? = some c → isBlank c = true) :
    wordChars (word ++ back) = word :: wordChars back := by
  have hsingle : wordChars word = [word] := by
    rw [wordChars, h.fields_eq]
    simp [h.ne_nil]
  cases back with
  | nil =>
    rw [List.append_nil, hsingle]
    rfl
  | cons c back =>
    have hc := hback c rfl
    have hword : wordChars (word ++ [c]) = [word] := by
      rw [wordChars, fields_append_blank hc, h.fields_eq]
      simp [fields, h.ne_nil]
    have hskip : wordChars (c :: back) = wordChars back := by
      simp [wordChars, fields, hc]
    rw [wordChars_append_blank hc, hword, hskip, List.singleton_append]

end IsWord

theorem wordChars_blanks {blanks : List Char} (h : ∀ c ∈ blanks, isBlank c = true)
    (cs : List Char) : wordChars (blanks ++ cs) = wordChars cs := by
  induction blanks with
  | nil => rfl
  | cons c blanks ih =>
    obtain ⟨hc, hblanks⟩ := List.forall_mem_cons.1 h
    rw [List.cons_append, ← ih hblanks]
    simp [wordChars, fields, hc]

/-- A word between blanks is the first word of the text. -/
theorem IsWord.words_eq {front word back : String} (h : IsWord word.toList)
    (hfront : IsBlankText front) (hback : EndsWord back) :
    words (front ++ word ++ back) = word :: words back := by
  have hwords (text : String) : words text = (wordChars text.toList).map String.ofList := by
    rw [← words_ofList, String.ofList_toList]
  rw [hwords, hwords, String.toList_append, String.toList_append, List.append_assoc,
    wordChars_blanks hfront, h.wordChars_append hback, List.map_cons, String.ofList_toList]

end Text

open Text (isBlank IsWord IsBlankText EndsWord)

namespace Value

/-! ### The texts of values -/

/-- Numbers and truth values are written as one word. -/
theorem isWord_text {v : Value} (h : v.ty ≠ .string) : IsWord v.text.toList := by
  cases v with
  | string s => exact absurd rfl h
  | bool b =>
    have hblanks : (bool b).text.toList.all (fun c => !isBlank c) = true := by cases b <;> rfl
    refine ⟨by cases b <;> exact List.cons_ne_nil _ _, fun c hc => ?_⟩
    simpa using List.all_eq_true.1 hblanks c hc
  | int n =>
    have hdigits : ∀ c ∈ Nat.toDigits 10 n.toInt.natAbs, isBlank c = false := fun c hc =>
      Text.isBlank_eq_false_of_isDigit (Nat.isDigit_of_mem_toDigits (by decide) (by decide) hc)
    show IsWord (Text.Decimal.write n).toList
    rw [Text.Decimal.write, String.toList_ofList, Text.Decimal.writeChars]
    split
    · exact ⟨List.cons_ne_nil _ _, List.forall_mem_cons.2 ⟨by decide, hdigits⟩⟩
    · exact ⟨Nat.toDigits_ne_nil, hdigits⟩

/-! ### Conversions -/

/-- A text that is the text of a number or truth value, once it is trimmed, has that value. -/
theorem coerce_of_trim_eq {v : Value} {text : String} (hty : v.ty ≠ .string)
    (h : Text.trim text = v.text) : (string text).coerce v.ty = .ok v := by
  cases v with
  | string s => exact absurd rfl hty
  | int n =>
    have hread : Text.Decimal.read? (Text.trim text) = some n := by
      rw [h]
      exact Text.Decimal.read?_write n
    simp only [ty, coerce, toInt, hread]
    rfl
  | bool b =>
    have hread : readBool? text = some b := by
      rw [readBool?, h]
      cases b <;> decide +kernel
    simp only [ty, coerce, toBool, hread]
    rfl

/-- Blanks around the text of a number or truth value do not count. -/
theorem coerce_between_blanks {v : Value} (hty : v.ty ≠ .string) {front back : String}
    (hfront : IsBlankText front) (hback : IsBlankText back) :
    (string (front ++ v.text ++ back)).coerce v.ty = .ok v := by
  refine coerce_of_trim_eq hty ?_
  rw [Text.trim, String.toList_append, String.toList_append,
    (isWord_text hty).trimChars_eq hfront hback, String.ofList_toList]

/-- The text of a value, at the type of the value, is the value. -/
theorem coerce_text (v : Value) : (string v.text).coerce v.ty = .ok v := by
  have hempty : IsBlankText "" := List.forall_mem_nil _
  have hword (hty : v.ty ≠ .string) : (string v.text).coerce v.ty = .ok v := by
    simpa using coerce_between_blanks hty hempty hempty
  cases v with
  | string s => rfl
  | int n => exact hword nofun
  | bool b => exact hword nofun

theorem coerce_ty (v : Value) : v.coerce v.ty = .ok v := by
  cases v <;> rfl

end Value

/-! ### Printing and reading -/

theorem exec_print {e : Expr} {m : Machine} {v : Value} (heval : e.eval m.store = .ok v)
    (hfault : m.output.fault = none) (position : Position) :
    (Statement.print e position).exec m =
      .ok () { m with output.written := m.output.written ++ v.text } := by
  have hrun : Run.eval e m = .ok v m := by
    show Run.lift (e.eval m.store) m = _
    rw [heval]
    rfl
  rw [Statement.exec, Run.bind_eq_of_ok hrun, Run.write_eq, hfault]

/-- A `read` stores the first word of the input, if it has a value of the type of the variable. -/
theorem exec_read_of_offers {target : Identifier} {m : Machine} {ty : ValueType} {word : String}
    {more : List (Except Cause String)} {v : Value}
    (hty : m.store.typeOf? target.name = some ty) (hoffers : m.input.offers = .ok word :: more)
    (hcoerce : (Value.string word).coerce ty = .ok v) :
    ∃ input, input.offers = more ∧ (Statement.read target).exec m =
      .ok () { m with store := m.store.declare target.name v, input } := by
  obtain ⟨old, hold, rfl⟩ := Option.map_eq_some_iff.1 hty
  obtain ⟨hfirst, hrest⟩ := m.input.nextWord_offers
  rw [hoffers] at hfirst hrest
  refine ⟨m.input.nextWord.2, hrest, ?_⟩
  rw [exec_read, hfirst]
  have hstore := Run.store_of_get?_eq_some (m := { m with input := m.input.nextWord.2 }) hold
    (.string word)
  rw [hcoerce] at hstore
  exact hstore

namespace Value

/-- Conversions lose nothing: the text of a value, converted back, is the value; a converted value
has the type asked for, and converting it again does not change it; and blanks around the text of a
number or truth value do not count.  So `print` writes a word from which `read` gives the value to a
variable of its type, wherever the word stands in the input. -/
theorem text_restores (v : Value) :
    (∃ s, v.coerce .string = .ok s ∧ s.coerce v.ty = .ok v) ∧
      (∀ t w, v.coerce t = .ok w → w.ty = t ∧ w.coerce t = .ok w) ∧
      (v.ty ≠ .string → ∀ front back, IsBlankText front → IsBlankText back →
        (string (front ++ v.text ++ back)).coerce v.ty = .ok v) ∧
      (v.ty ≠ .string →
        (∀ e position (m : Machine), e.eval m.store = .ok v → m.output.fault = none →
          (Statement.print e position).exec m =
            .ok () { m with output.written := m.output.written ++ v.text }) ∧
        ∀ target (m : Machine) front back more, m.store.typeOf? target.name = some v.ty →
          IsBlankText front → EndsWord back →
          m.input.offers = (Text.words (front ++ v.text ++ back)).map .ok ++ more →
          ∃ input, input.offers = (Text.words back).map .ok ++ more ∧
            (Statement.read target).exec m =
              .ok () { m with store := m.store.declare target.name v, input }) := by
  refine ⟨⟨string v.text, rfl, v.coerce_text⟩, fun t w h => ?_, fun hty front back => ?_, ?_⟩
  · obtain rfl := ty_of_coerce h
    exact ⟨rfl, w.coerce_ty⟩
  · exact coerce_between_blanks hty
  · refine fun hty => ⟨fun e position m heval hfault => exec_print heval hfault position, ?_⟩
    intro target m front back more hvariable hfront hback hoffers
    rw [(isWord_text hty).words_eq hfront hback] at hoffers
    exact exec_read_of_offers hvariable hoffers v.coerce_text

/-- The least number, printed as a sum that wraps, and read between other blanks. -/
theorem text_restores_minimum :
    let e : Expr := .binary .add (.int 2147483647) (.int 1) ⟨1, 18⟩
    let x : Identifier := ⟨"x", some .int, ⟨1, 6⟩⟩
    let m : Machine := .initial .empty
    let m' : Machine :=
      ⟨Store.empty.declare "x" (.int 0), ⟨[], [some "\t\n", some "-2147483648\u00a0 7"]⟩, {}⟩
    (∃ s, (int Int32.minValue).coerce .string = .ok s ∧ s.coerce .int = .ok (int Int32.minValue)) ∧
      ((int Int32.minValue).coerce .bool = .ok (bool true) ∧ (bool true).ty = .bool ∧
        (bool true).coerce .bool = .ok (bool true)) ∧
      (string "\u2003\t-2147483648\u00a0\n").coerce .int = .ok (int Int32.minValue) ∧
      (Statement.print e ⟨1, 1⟩).exec m =
        .ok () { m with output.written := m.output.written ++ "-2147483648" } ∧
      ∃ input, input.offers = [.ok "7"] ∧ (Statement.read x).exec m' =
        .ok () { m' with store := m'.store.declare "x" (int Int32.minValue), input } := by
  intro e x m m'
  obtain ⟨hback, htwice, hblanks, hwords⟩ := text_restores (int Int32.minValue)
  have heval : e.eval m.store = .ok (int Int32.minValue) := by decide +kernel
  obtain ⟨hprint, hread⟩ := hwords nofun
  refine ⟨hback, ⟨rfl, htwice .bool (bool true) rfl⟩, ?_, hprint e ⟨1, 1⟩ m heval rfl, ?_⟩
  · exact hblanks nofun "\u2003\t" "\u00a0\n" (List.all_eq_true.1 rfl)
      (List.all_eq_true.1 rfl)
  · have hmore : EndsWord "\u00a0 7" := fun c hc => by
      cases hc
      decide
    exact hread x m' "" "\u00a0 7" [] (by decide +kernel) (List.forall_mem_nil _) hmore rfl

end Value

end MiniPL
