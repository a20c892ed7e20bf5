/-!
# JSON documents

A document and its text with one member a line, two spaces of indentation a level, and `[]` for an
empty list.

Definitions: `Json`, `Json.pretty`.
-/

namespace MiniPL.Text

/-- A JSON document whose numbers are integers. -/
inductive Json
  | null
  | bool (value : Bool)
  | number (value : Int)
  | text (value : String)
  | list (items : List Json)
  | record (members : List (String × Json))
  deriving Repr

namespace Json

/-- The two hexadecimal digits of a small code point. -/
def hexPair (n : Nat) : List Char :=
  [Nat.digitChar (n / 16), Nat.digitChar (n % 16)]

/-- One character as it stands in a JSON string. -/
def escape (c : Char) : List Char :=
  if c = '"' then ['\\', '"']
  else if c = '\\' then ['\\', '\\']
  else if c = '\x08' then ['\\', 'b']
  else if c = '\x0c' then ['\\', 'f']
  else if c = '\n' then ['\\', 'n']
  else if c = '\r' then ['\\', 'r']
  else if c = '\t' then ['\\', 't']
  else if c < ' ' then ['\\', 'u', '0', '0'] ++ hexPair c.toNat
  else [c]

/-- A text as a JSON string. -/
def quote (text : String) : String :=
  String.ofList ('"' :: text.toList.flatMap escape ++ ['"'])

/-- A new line with the indentation of a level. -/
def newLine (level : Nat) : String :=
  String.ofList ('\n' :: List.replicate (2 * level) ' ')

/-- The members of a list or record between its brackets, each on a line one level deeper. -/
def enclose (opening closing : String) (level : Nat) : List String → String
  | [] => opening ++ closing
  | members =>
    opening ++ newLine (level + 1) ++ String.intercalate ("," ++ newLine (level + 1)) members ++
      newLine level ++ closing

mutual

/-- The text of a document at a level of indentation. -/
def prettyAt (level : Nat) : Json → String
  | null => "null"
  | bool true => "true"
  | bool false => "false"
  | number n => toString n
  | text s => quote s
  | list items => enclose "[" "]" level (prettyItems (level + 1) items)
  | record members => enclose "\x7b" "\x7d" level (prettyMembers (level + 1) members)

/-- The texts of the items of a list. -/
def prettyItems (level : Nat) : List Json → List String
  | [] => []
  | item :: items => prettyAt level item :: prettyItems level items

/-- The texts of the members of a record. -/
def prettyMembers (level : Nat) : List (String × Json) → List String
  | [] => []
  | (name, value) :: members =>
    (quote name ++ ": " ++ prettyAt level value) :: prettyMembers level members

end

/-- The text of a document, one member a line. -/
def pretty (document : Json) : String :=
  prettyAt 0 document

end Json

end MiniPL.Text
