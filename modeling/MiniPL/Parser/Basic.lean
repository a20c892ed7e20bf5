import MiniPL.Diagnostic
import MiniPL.Syntax

/-!
# Parser rules

A rule of the grammar works on a `State`: the tokens still to read, the types of the variables
declared so far, and the diagnostics reported so far.  A rule never gives tokens back, and never
withdraws a diagnostic; both are part of its type (`State.Reaches`), so that recursive rules end
because the tokens do.

Definitions: `State`, `Outcome`, `Rule` with its monad structure, and the rules that every other
rule is made of: `Rule.advance`, `Rule.report`, `Rule.fail`, `Rule.expect`.  `Outcome.result` and
`Rule.run` forget the bounds; the lemmas on them turn a rule into plain equations.
-/

namespace MiniPL

namespace Parser

/-! ### States -/

/-- What a rule works on.  Behind the tokens in `rest`, none of which ends the input, stands
`eof`. -/
structure State where
  rest : List Token
  eof : Token
  types : TypeTable
  diagnostics : List Diagnostic
  kind_eof : eof.kind = .eof

namespace State

/-- The token to look at. -/
def current (s : State) : Token :=
  s.rest.headD s.eof

/-- The state behind the current token. -/
def advance (s : State) : State :=
  { s with rest := s.rest.tail }

/-- The state with one more diagnostic. -/
def report (s : State) (fault : Diagnostic) : State :=
  { s with diagnostics := s.diagnostics ++ [fault] }

/-- The state that knows one more declared type. -/
def declare (s : State) (name : String) (ty : ValueType) : State :=
  { s with types := s.types.declare name ty }

/-- The state in front of a later token. -/
def skipTo (s : State) (rest : List Token) : State :=
  { s with rest }

/-- The mention of a variable by a token, with the type known for it. -/
def reference (s : State) (token : Token) : Identifier :=
  ⟨token.lexeme, s.types token.lexeme, token.position⟩

/-- Whether a rule may lead from one state to another: tokens are only taken from the front, and
diagnostics are only added at the end. -/
structure Reaches (s t : State) : Prop where
  rest : t.rest <:+ s.rest
  eof : t.eof = s.eof
  diagnostics : s.diagnostics <+: t.diagnostics

namespace Reaches

theorem refl (s : State) : s.Reaches s :=
  ⟨List.suffix_refl _, rfl, List.prefix_refl _⟩

theorem trans {s t u : State} (h : s.Reaches t) (k : t.Reaches u) : s.Reaches u :=
  ⟨k.rest.trans h.rest, k.eof.trans h.eof, h.diagnostics.trans k.diagnostics⟩

theorem length_le {s t : State} (h : s.Reaches t) : t.rest.length ≤ s.rest.length :=
  h.rest.length_le

end Reaches

theorem reaches_advance (s : State) : s.Reaches s.advance :=
  ⟨List.tail_suffix _, rfl, List.prefix_refl _⟩

theorem reaches_report (s : State) (fault : Diagnostic) : s.Reaches (s.report fault) :=
  ⟨List.suffix_refl _, rfl, List.prefix_append _ _⟩

theorem reaches_declare (s : State) (name : String) (ty : ValueType) :
    s.Reaches (s.declare name ty) :=
  ⟨List.suffix_refl _, rfl, List.prefix_refl _⟩

theorem reaches_skipTo (s : State) {rest : List Token} (h : rest <:+ s.rest) :
    s.Reaches (s.skipTo rest) :=
  ⟨h, rfl, List.prefix_refl _⟩

theorem length_advance_lt {s : State} {token : Token} {rest : List Token}
    (h : s.rest = token :: rest) : s.advance.rest.length < s.rest.length := by
  simp [advance, h]

end State

/-! ### Outcomes -/

/-- What a rule makes of a state: a value, or a fault that has not been reported yet; and the state
it leaves behind. -/
inductive Outcome (α : Type) (s : State)
  | ok (value : α) (after : State) (reaches : s.Reaches after)
  | error (fault : Diagnostic) (after : State) (reaches : s.Reaches after)

namespace Outcome

variable {α β : Type} {s : State}

/-- An outcome seen from an earlier state. -/
def since {t : State} (h : s.Reaches t) : Outcome α t → Outcome α s
  | ok value u k => ok value u (h.trans k)
  | error fault u k => error fault u (h.trans k)

/-- Goes on from a value; a fault ends the rule. -/
def andThen (outcome : Outcome α s)
    (next : (value : α) → (t : State) → s.Reaches t → Outcome β t) : Outcome β s :=
  match outcome with
  | ok value t h => (next value t h).since h
  | error fault t h => error fault t h

/-- An outcome without its bound. -/
def result : Outcome α s → EStateM.Result Diagnostic State α
  | ok value t _ => .ok value t
  | error fault t _ => .error fault t

@[simp] theorem result_since {t : State} (h : s.Reaches t) (outcome : Outcome α t) :
    (outcome.since h).result = outcome.result := by
  cases outcome <;> rfl

theorem result_andThen (outcome : Outcome α s)
    (next : (value : α) → (t : State) → Outcome β t) :
    (outcome.andThen fun value t _ => next value t).result =
      match outcome.result with
      | .ok value t => (next value t).result
      | .error fault t => .error fault t := by
  cases outcome with
  | ok value t h => exact result_since h (next value t)
  | error fault t h => rfl

end Outcome

/-! ### Rules -/

/-- A rule of the grammar. -/
def Rule (α : Type) : Type := (s : State) → Outcome α s

namespace Rule

variable {α β : Type}

instance : Monad Rule where
  pure value := fun s => .ok value s (.refl s)
  bind rule next := fun s => (rule s).andThen fun value t _ => next value t

/-- What a rule does, without the bound. -/
def run (rule : Rule α) : EStateM Diagnostic State α :=
  fun s => (rule s).result

@[simp] theorem run_pure (value : α) (s : State) :
    (pure value : Rule α).run s = .ok value s := rfl

theorem run_bind (rule : Rule α) (next : α → Rule β) (s : State) :
    (rule >>= next).run s =
      match rule.run s with
      | .ok value t => (next value).run t
      | .error fault t => .error fault t :=
  Outcome.result_andThen _ _

/-- The token to look at. -/
def current : Rule Token :=
  fun s => .ok s.current s (.refl s)

/-- Steps over the current token. -/
def advance : Rule Unit :=
  fun s => .ok () s.advance s.reaches_advance

/-- Reports a diagnostic and goes on. -/
def report (fault : Diagnostic) : Rule Unit :=
  fun s => .ok () (s.report fault) (s.reaches_report fault)

/-- Gives up with a fault. -/
def fail (fault : Diagnostic) : Rule α :=
  fun s => .error fault s (.refl s)

/-- Records a declared type. -/
def declare (name : String) (ty : ValueType) : Rule Unit :=
  fun s => .ok () (s.declare name ty) (s.reaches_declare name ty)

/-- The mention of a variable by a token, with the type known for it by now. -/
def reference (token : Token) : Rule Identifier :=
  fun s => .ok (s.reference token) s (.refl s)

/-- Takes a token of the given kind.  A token that could not be classified is reported and stands in
for it; any other token is a fault and stays. -/
def expect (kind : TokenKind) : Rule Token := do
  let token ← current
  if token.kind = kind then
    advance
    return token
  else if token.kind = .unknown then
    report (.unclassified token)
    advance
    return ⟨kind, token.lexeme, token.position⟩
  else
    fail (.unexpected (.token kind) token)

/-- Takes a variable and mentions it. -/
def identifier : Rule Identifier := do
  reference (← expect .identifier)

end Rule

end Parser

end MiniPL
