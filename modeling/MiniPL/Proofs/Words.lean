import MiniPL.Text.Blank
import MiniPL.Text.Lines

/-!
# Words, lines and bytes

The words of a text are those of its lines, and of any pieces that end in blanks
(`Text.wordChars_flatten`, `Text.flatMap_words_lines`).  A line feed is the only character whose
code holds the byte of a line feed, so the lines of a text in UTF-8 are the lines of its bytes
(`Text.cutAfter_utf8`).
-/

namespace MiniPL.Text

/-! ### Words of lines -/

/-- The words of a list of characters. -/
def wordChars (cs : List Char) : List (List Char) :=
  (fields cs).filter fun field => !field.isEmpty

theorem words_ofList (cs : List Char) :
    words (String.ofList cs) = (wordChars cs).map String.ofList := by
  rw [words, String.toList_ofList, wordChars]

theorem fields_ne_nil (cs : List Char) : fields cs ≠ [] := by
  cases cs with
  | nil => exact List.cons_ne_nil _ _
  | cons c cs =>
    rw [fields]
    split
    · exact List.cons_ne_nil _ _
    · split <;> exact List.cons_ne_nil _ _

theorem fields_append_blank {c : Char} (hc : isBlank c = true) (front rest : List Char) :
    fields (front ++ c :: rest) = fields front ++ fields rest := by
  induction front with
  | nil =>
    rw [List.nil_append, fields.eq_2, if_pos hc]
    rfl
  | cons x front ih =>
    rw [List.cons_append, fields, fields, ih]
    by_cases hx : isBlank x = true
    · rw [if_pos hx, if_pos hx, List.cons_append]
    · rw [if_neg hx, if_neg hx]
      obtain ⟨field, more, hfields⟩ := List.exists_cons_of_ne_nil (fields_ne_nil front)
      rw [hfields]
      rfl

/-- A blank parts the words in front of it from those behind it. -/
theorem wordChars_append_blank {c : Char} (hc : isBlank c = true) (front rest : List Char) :
    wordChars (front ++ c :: rest) = wordChars (front ++ [c]) ++ wordChars rest := by
  rw [wordChars, fields_append_blank hc, wordChars, fields_append_blank hc, wordChars,
    List.filter_append, List.filter_append]
  simp [fields]

/-- The words of a text are those of its pieces, however it is cut behind blanks. -/
theorem wordChars_flatten (pieces : List (List Char))
    (h : ∀ piece ∈ pieces.dropLast, ∃ front c, isBlank c = true ∧ piece = front ++ [c]) :
    wordChars pieces.flatten = pieces.flatMap wordChars := by
  induction pieces with
  | nil => rfl
  | cons piece pieces ih =>
    cases pieces with
    | nil => simp
    | cons next more =>
      obtain ⟨front, c, hc, rfl⟩ := h piece List.mem_cons_self
      have hmore := ih fun other hother => h other (List.mem_cons_of_mem _ hother)
      rw [List.flatten_cons, List.flatMap_cons, ← hmore, List.append_assoc, List.singleton_append,
        wordChars_append_blank hc]

/-! ### Lines of characters and of bytes -/

variable {α β : Type}

theorem exists_of_mem_dropLast_cutAfter {p : α → Bool} {xs piece : List α}
    (h : piece ∈ (cutAfter p xs).dropLast) : ∃ front x, p x = true ∧ piece = front ++ [x] := by
  induction xs generalizing piece with
  | nil => cases h
  | cons x xs ih =>
    rw [cutAfter] at h
    split at h
    · rename_i hx
      cases hcut : cutAfter p xs with
      | nil =>
        rw [hcut] at h
        cases h
      | cons next more =>
        rw [hcut, List.dropLast_cons_cons, List.mem_cons] at h
        rcases h with rfl | h
        · exact ⟨[], x, hx, rfl⟩
        · exact ih (hcut ▸ h)
    · cases hcut : cutAfter p xs with
      | nil =>
        rw [hcut] at h
        cases h
      | cons next more =>
        rw [hcut] at h ih
        cases more with
        | nil => cases h
        | cons other more =>
          rw [List.dropLast_cons_cons] at h ih
          rcases List.mem_cons.1 h with rfl | h
          · obtain ⟨front, y, hy, rfl⟩ := ih List.mem_cons_self
            exact ⟨x :: front, y, hy, rfl⟩
          · exact ih (List.mem_cons_of_mem _ h)

/-- The words of a text are those of its lines. -/
theorem flatMap_words_lines (cs : List Char) :
    (cutAfter (· == '\n') cs).flatMap (fun line => words (String.ofList line)) =
      words (String.ofList cs) := by
  have hcut : wordChars cs = (cutAfter (· == '\n') cs).flatMap wordChars := by
    rw [← wordChars_flatten _ fun piece hpiece => ?_, flatten_cutAfter]
    obtain ⟨front, c, hc, rfl⟩ := exists_of_mem_dropLast_cutAfter hpiece
    obtain rfl := beq_iff_eq.1 hc
    exact ⟨front, '\n', by decide, rfl⟩
  simp only [words_ofList, hcut, List.map_flatMap]

theorem cutAfter_append {p : α → Bool} {front : List α} (hne : front ≠ [])
    (h : ∀ x ∈ front, p x = false) (xs : List α) :
    cutAfter p (front ++ xs) =
      match cutAfter p xs with
      | [] => [front]
      | piece :: pieces => (front ++ piece) :: pieces := by
  induction front with
  | nil => exact absurd rfl hne
  | cons x front ih =>
    have hx : ¬ p x = true := by simp [h x List.mem_cons_self]
    rw [List.cons_append, cutAfter, if_neg hx]
    cases front with
    | nil => rfl
    | cons y front =>
      rw [ih (List.cons_ne_nil _ _) fun z hz => h z (List.mem_cons_of_mem _ hz)]
      cases cutAfter p xs <;> rfl

/-- Encoding commutes with cutting, where it keeps what is cut after apart from all else. -/
theorem cutAfter_flatMap {p : α → Bool} {q : β → Bool} {f : α → List β}
    (hcut : ∀ x, p x = true → ∃ y, q y = true ∧ f x = [y])
    (hkeep : ∀ x, p x = false → f x ≠ [] ∧ ∀ y ∈ f x, q y = false) (xs : List α) :
    cutAfter q (xs.flatMap f) = (cutAfter p xs).map fun piece => piece.flatMap f := by
  induction xs with
  | nil => rfl
  | cons x xs ih =>
    rw [List.flatMap_cons]
    cases hx : p x with
    | true =>
      obtain ⟨y, hy, hfx⟩ := hcut x hx
      rw [cutAfter.eq_2 p, if_pos hx, hfx, List.singleton_append, cutAfter, if_pos hy, ih,
        List.map_cons, List.flatMap_singleton, hfx]
    | false =>
      rw [cutAfter.eq_2 p, if_neg (by simp [hx]), cutAfter_append (hkeep x hx).1 (hkeep x hx).2, ih]
      cases cutAfter p xs with
      | nil => simp
      | cons piece pieces => simp

/-- The bytes of characters in UTF-8. -/
def utf8 (cs : List Char) : List UInt8 :=
  cs.flatMap String.utf8EncodeChar

/-- A line feed is the only character that is written with its byte. -/
theorem eq_lineFeed_of_mem_utf8EncodeChar {c : Char} (h : 10 ∈ String.utf8EncodeChar c) :
    c = '\n' := by
  have hbyte {n : Nat} (hn : 10 = UInt8.ofNat n) (hlt : n < 256) : n = 10 := by
    have htoNat := congrArg UInt8.toNat hn
    rw [UInt8.toNat_ofNat', Nat.mod_eq_of_lt hlt] at htoNat
    exact htoNat.symm
  unfold String.utf8EncodeChar at h
  dsimp only at h
  split at h
  · have hval : c.val.toNat = 10 := hbyte (List.mem_singleton.1 h) (by omega)
    exact Char.ext (UInt32.toNat.inj hval)
  -- every byte of a longer code is at least 128
  · split at h
    · simp only [List.mem_cons, List.not_mem_nil, or_false] at h
      rcases h with h | h <;> exact absurd (hbyte h (by omega)) (by omega)
    · split at h
      · simp only [List.mem_cons, List.not_mem_nil, or_false] at h
        rcases h with h | h | h <;> exact absurd (hbyte h (by omega)) (by omega)
      · simp only [List.mem_cons, List.not_mem_nil, or_false] at h
        rcases h with h | h | h | h <;> exact absurd (hbyte h (by omega)) (by omega)

theorem cutAfter_utf8 (cs : List Char) :
    cutAfter (· == 10) (utf8 cs) = (cutAfter (· == '\n') cs).map utf8 := by
  refine cutAfter_flatMap (fun c hc => ?_) (fun c hc => ⟨String.utf8EncodeChar_ne_nil, ?_⟩) cs
  · obtain rfl := beq_iff_eq.1 hc
    exact ⟨10, rfl, by decide⟩
  · intro byte hbyte
    refine beq_eq_false_iff_ne.2 ?_
    rintro rfl
    exact absurd (eq_lineFeed_of_mem_utf8EncodeChar hbyte) (beq_eq_false_iff_ne.1 hc)

theorem fromUTF8?_eq_some_iff {bytes : List UInt8} {text : String} :
    String.fromUTF8? ⟨bytes.toArray⟩ = some text ↔ bytes = utf8 text.toList := by
  have htext : text.toByteArray.data = (utf8 text.toList).toArray := by
    rw [← String.utf8Encode_toList, List.utf8Encode, List.data_toByteArray, utf8]
  unfold String.fromUTF8?
  constructor
  · intro h
    split at h
    · obtain rfl := Option.some.inj h
      exact List.toArray_inj htext
    · cases h
  · intro h
    have hbytes : (⟨bytes.toArray⟩ : ByteArray) = text.toByteArray := by
      rw [ByteArray.ext_iff, htext, h]
    rw [dif_pos (hbytes ▸ text.isValidUTF8)]
    exact congrArg some (String.toByteArray_inj.1 hbytes)

end MiniPL.Text
