import MiniPL.Text.EditDistance
import MiniPL.Value

/-!
# Stores

A store binds names to values.  It is kept as a list in the order of the names, without repetition,
so that two stores with the same bindings are the same store.

Definitions: `Store`, `Store.get?`, `Store.declare`, `Store.assign?`, `Store.lookup`, `Store.types`.
The lemmas `get?_declare` and `types_declare` say what a declaration does.
-/

namespace MiniPL

/-- Variables with their values, in the order of the names. -/
structure Store where
  bindings : List (String × Value)
  sorted : bindings.Pairwise fun a b => a.1 < b.1
  deriving DecidableEq

namespace Store

/-- The store without variables. -/
def empty : Store := ⟨[], .nil⟩

instance : Inhabited Store := ⟨empty⟩

/-- The bound names, in order. -/
def names (store : Store) : List String :=
  store.bindings.map Prod.fst

/-- The number of bound names. -/
def size (store : Store) : Nat :=
  store.bindings.length

/-- Whether no name is bound. -/
def isEmpty (store : Store) : Bool :=
  store.bindings.isEmpty

/-- The value of a name, if it is bound. -/
def get? (store : Store) (name : String) : Option Value :=
  store.bindings.lookup name

/-- Whether a name is bound. -/
def contains (store : Store) (name : String) : Bool :=
  (store.get? name).isSome

/-- The type of the value of a name, if it is bound. -/
def typeOf? (store : Store) (name : String) : Option ValueType :=
  (store.get? name).map Value.ty

/-- The types of all bound names. -/
def types (store : Store) : TypeTable :=
  store.typeOf?

/-! ### Binding a name -/

/-- Binds a name in a list in the order of the names. -/
def bind (name : String) (value : Value) : List (String × Value) → List (String × Value)
  | [] => [(name, value)]
  | (other, old) :: rest =>
    if name < other then (name, value) :: (other, old) :: rest
    else if name = other then (name, value) :: rest
    else (other, old) :: bind name value rest

theorem fst_of_mem_bind {name : String} {value : Value} {binding : String × Value}
    {bindings : List (String × Value)} (h : binding ∈ bind name value bindings) :
    binding.1 = name ∨ binding ∈ bindings := by
  fun_induction bind name value bindings <;> simp_all <;> grind

theorem sorted_bind (name : String) (value : Value) {bindings : List (String × Value)}
    (h : bindings.Pairwise fun a b => a.1 < b.1) :
    (bind name value bindings).Pairwise fun a b => a.1 < b.1 := by
  fun_induction bind name value bindings with
  | case1 => simp
  | case2 other old rest hlt =>
    refine .cons (fun binding hb => ?_) h
    rcases List.mem_cons.1 hb with rfl | hb
    · exact hlt
    · exact String.lt_trans hlt (List.rel_of_pairwise_cons h hb)
  | case3 old rest => exact .cons (fun _ hb => List.rel_of_pairwise_cons h hb) h.of_cons
  | case4 other old rest hlt hne ih =>
    refine .cons (fun binding hb => ?_) (ih h.of_cons)
    rcases fst_of_mem_bind hb with hname | hb
    · rw [hname]
      exact Std.lt_of_le_of_ne (String.not_lt.1 hlt) (Ne.symm hne)
    · exact List.rel_of_pairwise_cons h hb

theorem lookup_bind (name other : String) (value : Value) (bindings : List (String × Value)) :
    (bind name value bindings).lookup other =
      if other = name then some value else bindings.lookup other := by
  fun_induction bind name value bindings <;> grind

/-- Binds a name, whether it was bound or not. -/
def declare (store : Store) (name : String) (value : Value) : Store :=
  ⟨bind name value store.bindings, sorted_bind name value store.sorted⟩

@[simp] theorem get?_declare (store : Store) (name other : String) (value : Value) :
    (store.declare name value).get? other =
      if other = name then some value else store.get? other :=
  lookup_bind name other value store.bindings

/-- A declaration changes the type of its own name only. -/
theorem types_declare (store : Store) (name : String) (value : Value) :
    (store.declare name value).types = store.types.declare name value.ty := by
  funext other
  simp only [types, typeOf?, get?_declare, TypeTable.declare]
  split <;> rfl

/-- Binds a name that is bound already. -/
def assign? (store : Store) (name : String) (value : Value) : Option Store :=
  if store.contains name then some (store.declare name value) else none

/-! ### Looking up a name -/

/-- The fault of mentioning a name that is not bound; a close name that is bound is suggested. -/
def undefined (store : Store) (name : String) (position : Position) : Diagnostic :=
  { Diagnostic.of (.undefinedVariable name) position with
    suggestion := Text.closest? name store.names }

/-- The value of a name that is mentioned somewhere. -/
def lookup (store : Store) (name : String) (position : Position) : Except Diagnostic Value :=
  match store.get? name with
  | some value => .ok value
  | none => .error (store.undefined name position)

end Store

end MiniPL
