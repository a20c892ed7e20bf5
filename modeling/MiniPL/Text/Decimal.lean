/-!
# Decimal numbers of 32 bits

A number is written with the fewest ASCII digits that tell its size, after a minus sign when it is
negative.  It is read from an optional single sign followed by at least one ASCII digit; leading
zeros are allowed, and the number must fit in 32 bits with a sign.

Definitions: `Decimal.read?`, `Decimal.write`.
-/

namespace MiniPL.Text.Decimal

/-- The 32-bit number of an integer that fits. -/
def word? (z : Int) : Option Int32 :=
  if -2147483648 ≤ z ∧ z ≤ 2147483647 then some (Int32.ofInt z) else none

/-- The number that a non-empty run of ASCII digits writes. -/
def natural? (digits : List Char) : Option Nat :=
  if !digits.isEmpty && digits.all Char.isDigit then some (Nat.ofDigitChars 10 digits 0) else none

/-- The number that the characters write. -/
def readChars? : List Char → Option Int32
  | '+' :: digits => (natural? digits).bind fun n => word? n
  | '-' :: digits => (natural? digits).bind fun n => word? (-n)
  | digits => (natural? digits).bind fun n => word? n

/-- The number that a text writes. -/
def read? (text : String) : Option Int32 :=
  readChars? text.toList

/-- The characters that write a number. -/
def writeChars (n : Int32) : List Char :=
  if n.toInt < 0 then '-' :: Nat.toDigits 10 n.toInt.natAbs else Nat.toDigits 10 n.toInt.natAbs

/-- The text that writes a number. -/
def write (n : Int32) : String :=
  String.ofList (writeChars n)

/-- A text of digits has no sign. -/
theorem readChars?_of_natural? {digits : List Char} {n : Nat} (h : natural? digits = some n) :
    readChars? digits = word? n := by
  have hall : ∀ c ∈ digits, c.isDigit = true := by
    unfold natural? at h
    split at h
    · rename_i hd
      exact List.all_eq_true.1 (Bool.and_eq_true _ _ ▸ hd).2
    · cases h
  unfold readChars?
  split
  · exact absurd (hall '+' List.mem_cons_self) (by decide)
  · exact absurd (hall '-' List.mem_cons_self) (by decide)
  · rw [h, Option.bind_some]

theorem word?_natCast (n : Nat) :
    word? n = if n ≤ 2147483647 then some (Int32.ofNat n) else none := by
  unfold word?
  rw [Int32.ofInt_eq_ofNat]
  split
  · rw [if_pos (by omega)]
  · rw [if_neg (by omega)]

theorem word?_toInt (n : Int32) : word? n.toInt = some n := by
  have hlo : -2147483648 ≤ n.toInt := n.minValue_le_toInt
  have hhi : n.toInt < 2147483648 := n.toInt_lt
  rw [word?, if_pos ⟨hlo, by omega⟩, Int32.ofInt_toInt]

theorem natural?_toDigits (n : Nat) : natural? (Nat.toDigits 10 n) = some n := by
  have hall : (Nat.toDigits 10 n).all Char.isDigit = true :=
    List.all_eq_true.2 fun c hc => Nat.isDigit_of_mem_toDigits (by decide) (by decide) hc
  simp [natural?, hall, Nat.toDigits_ne_nil, Nat.ofDigitChars_ten_toDigits]

/-- Writing a number and reading the text gives the number back. -/
theorem readChars?_writeChars (n : Int32) : readChars? (writeChars n) = some n := by
  by_cases hneg : n.toInt < 0
  · have habs : -(n.toInt.natAbs : Int) = n.toInt := by omega
    rw [writeChars, if_pos hneg]
    change (natural? _).bind (fun m => word? (-m)) = _
    rw [natural?_toDigits, Option.bind_some, habs, word?_toInt]
  · have habs : (n.toInt.natAbs : Int) = n.toInt := by omega
    rw [writeChars, if_neg hneg, readChars?_of_natural? (natural?_toDigits _), habs, word?_toInt]

/-- Writing a number and reading the text gives the number back. -/
theorem read?_write (n : Int32) : read? (write n) = some n := by
  simp [read?, write, readChars?_writeChars]

end MiniPL.Text.Decimal
