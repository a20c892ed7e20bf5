import MiniPL.Position

/-!
# Tokens

A token is a piece of source text with a kind, the text it stands for, and the place where it
starts.  Reserved words are keywords; `true` and `false` are boolean literals.

Definitions: `Keyword`, `TokenKind`, `Token`; `Keyword.ofWord?` reads a reserved word and
`Keyword.word` writes it.
-/

namespace MiniPL

/-- The reserved words that structure a program. -/
inductive Keyword
  | var
  | «for»
  | «end»
  | «in»
  | «do»
  | read
  | print
  | int
  | string
  | bool
  | assert
  deriving DecidableEq, Repr

namespace Keyword

/-- Every keyword, in the order in which the language lists them. -/
def all : List Keyword :=
  [var, «for», «end», «in», «do», read, print, int, string, bool, assert]

/-- The reserved word. -/
def word : Keyword → String
  | var => "var"
  | «for» => "for"
  | «end» => "end"
  | «in» => "in"
  | «do» => "do"
  | read => "read"
  | print => "print"
  | int => "int"
  | string => "string"
  | bool => "bool"
  | assert => "assert"

/-- The keyword that a word is reserved for. -/
def ofWord? (word : String) : Option Keyword :=
  all.find? fun keyword => keyword.word == word

@[simp] theorem ofWord?_word (keyword : Keyword) : ofWord? keyword.word = some keyword := by
  cases keyword <;> decide

theorem word_of_ofWord? {word : String} {keyword : Keyword} (h : ofWord? word = some keyword) :
    keyword.word = word := by
  simpa using List.find?_some h

end Keyword

/-- What a token is. -/
inductive TokenKind
  | eof
  | unknown
  | identifier
  | intLiteral
  | stringLiteral
  | boolLiteral
  | plus
  | minus
  | star
  | slash
  | less
  | equal
  | and
  | not
  | semicolon
  | colon
  | assign
  | range
  | leftParen
  | rightParen
  | keyword (keyword : Keyword)
  deriving DecidableEq, Repr

/-- How messages name a kind of token. -/
def TokenKind.text : TokenKind → String
  | eof => "end of input"
  | unknown => "unknown token"
  | identifier => "identifier"
  | intLiteral => "integer"
  | stringLiteral => "string"
  | boolLiteral => "boolean"
  | plus => "'+'"
  | minus => "'-'"
  | star => "'*'"
  | slash => "'/'"
  | less => "'<'"
  | equal => "'='"
  | and => "'&'"
  | not => "'!'"
  | semicolon => "';'"
  | colon => "':'"
  | assign => "':='"
  | range => "'..'"
  | leftParen => "'('"
  | rightParen => "')'"
  | keyword k => "keyword '" ++ k.word ++ "'"

/-- A piece of source text; `lexeme` is the text it stands for, without the quotes and escapes of a
string. -/
structure Token where
  kind : TokenKind
  lexeme : String
  position : Position
  deriving DecidableEq, Repr

namespace Token

/-- The end of the input, at a place. -/
def eof (position : Position) : Token :=
  ⟨.eof, "", position⟩

/-- Whether a token is a given reserved word. -/
def isKeyword (token : Token) (keyword : Keyword) : Bool :=
  token.kind == .keyword keyword

/-- How messages name a token: by its kind, and by its lexeme where the kind leaves that open. -/
def describe (token : Token) : String :=
  match token.kind with
  | .identifier | .intLiteral | .stringLiteral | .boolLiteral | .unknown =>
    token.kind.text ++ " '" ++ token.lexeme ++ "'"
  | kind => kind.text

end Token

end MiniPL
