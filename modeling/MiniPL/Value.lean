import MiniPL.Diagnostic
import MiniPL.Syntax
import MiniPL.Text.Blank
import MiniPL.Text.Decimal

/-!
# Values

A value is a 32-bit integer, a text or a boolean.  Every value has a text; a text has a number or a
truth value when it writes one, up to blanks around it and the case of the letters of a truth value.

Definitions: `Value`, its type `Value.ty`, and the conversions `Value.text`, `Value.toInt`,
`Value.toBool` and `Value.coerce`.
-/

namespace MiniPL

/-- What a variable holds. -/
inductive Value
  | int (value : Int32)
  | string (value : String)
  | bool (value : Bool)
  deriving DecidableEq, Repr

namespace Value

/-- The type of a value. -/
def ty : Value → ValueType
  | int _ => .int
  | string _ => .string
  | bool _ => .bool

/-- What a variable holds that is declared without an initial value. -/
def initial : ValueType → Value
  | .int => int 0
  | .string => string ""
  | .bool => bool false

@[simp] theorem ty_initial (t : ValueType) : (initial t).ty = t := by
  cases t <;> rfl

/-- The word of a truth value. -/
def boolWord (b : Bool) : String :=
  if b then "true" else "false"

/-- The text of a value. -/
def text : Value → String
  | int n => Text.Decimal.write n
  | string s => s
  | bool b => boolWord b

/-- The truth value that a text writes, whatever the case of its letters. -/
def readBool? (text : String) : Option Bool :=
  let word := (Text.trim text).map Char.toLower
  if word = boolWord true then some true else if word = boolWord false then some false else none

/-- A value as a number: a truth value counts as one or zero, a text as the number it writes. -/
def toInt : Value → Except Cause Int32
  | int n => .ok n
  | bool b => .ok (if b then 1 else 0)
  | string s =>
    match Text.Decimal.read? (Text.trim s) with
    | some n => .ok n
    | none => .error (.notInteger s)

/-- A value as a truth value: a number is true when it is not zero, a text when it writes `true`. -/
def toBool : Value → Except Cause Bool
  | bool b => .ok b
  | int n => .ok (n != 0)
  | string s =>
    match readBool? s with
    | some b => .ok b
    | none => .error (.notBoolean s)

/-- A value converted to a type. -/
def coerce (value : Value) : ValueType → Except Cause Value
  | .int => value.toInt.map int
  | .bool => value.toBool.map bool
  | .string => .ok (string value.text)

/-- A conversion gives a value of the type asked for. -/
theorem ty_of_coerce {value result : Value} {t : ValueType} (h : value.coerce t = .ok result) :
    result.ty = t := by
  cases t with
  | int => cases hi : value.toInt <;> simp_all [coerce, Except.map]; subst h; rfl
  | bool => cases hb : value.toBool <;> simp_all [coerce, Except.map]; subst h; rfl
  | string => simp only [coerce, Except.ok.injEq] at h; subst h; rfl

end Value

end MiniPL
