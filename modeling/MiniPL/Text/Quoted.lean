import MiniPL.Text.Unprintable

/-!
# Quoted text

A text is quoted for the reader of an outline: between double quotes, with an escape for every
character that would be invisible or ambiguous.

Definitions: `Quoted.escape`, `Quoted.encode`.
-/

namespace MiniPL.Text.Quoted

/-- The lower-case hexadecimal digits of a code point, without leading zeros. -/
def hex (c : Char) : List Char :=
  Nat.toDigits 16 c.toNat

/-- One character as it stands between the quotes. -/
def escape (c : Char) : List Char :=
  if c = '\x00' then ['\\', '0']
  else if c = '\t' then ['\\', 't']
  else if c = '\n' then ['\\', 'n']
  else if c = '\r' then ['\\', 'r']
  else if c = '"' then ['\\', '"']
  else if c = '\\' then ['\\', '\\']
  else if isUnprintable c then ['\\', 'u', '\x7b'] ++ hex c ++ ['\x7d']
  else [c]

/-- A text between double quotes, escaped character by character. -/
def encode (text : String) : String :=
  String.ofList ('"' :: text.toList.flatMap escape ++ ['"'])

end MiniPL.Text.Quoted
