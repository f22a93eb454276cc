import DotLambda.Bindings
import DotLambda.Operator

/-!
Terms, and the store of what is shared. A list is a cell of the store, so that every term which holds the
list sees what is appended to it; all other terms are values that never change. Literals carry data of
any type: the kind of a literal says how it was made, not what it holds. A term to which data refer is
kept in a cell of its own.
-/

namespace DotLambda

/-- A term. -/
inductive Term where
  | int (value : Datum)
  | bool (value : Datum)
  | string (value : Datum)
  | name (id : String)
  /-- A name that is no text. -/
  | nameless (id : Datum)
  | function (parameter : Datum) (body : Term)
  | operation (lhs : Term) (operator : Operator) (rhs : Term)
  | conditional (condition yes no : Term)
  /-- Terms separated by dots: a function before its arguments. -/
  | chain (items : List Term)
  /-- The list in a cell of the store. -/
  | list (cell : Nat)
  /-- A term that only encloses another one. -/
  | wrapped (inner : Term)
  /-- A chain or a list, by its kind, whose items are no sequence but one thing of a named type. -/
  | itemless (kind owner : String)
  /-- A term of a kind that is not known. -/
  | unknown (kind : String)
  /-- A datum where a term should stand. -/
  | datum (d : Datum)

namespace Term

/-- The name of a term's type. All terms are of one type, but a datum where a term should stand keeps
its own. -/
def typeName : Term → String
  | datum d => d.typeName
  | _ => "Value"

/-- The name of a term's kind. -/
def kind : Term → String
  | int _ => "int"
  | bool _ => "bool"
  | string _ => "string"
  | name _ | nameless _ => "id"
  | function _ _ => "function"
  | operation _ _ _ => "operation"
  | conditional _ _ _ => "conditional"
  | chain _ => "expr_list"
  | list _ => "list"
  | wrapped _ => "expr"
  | itemless kind _ => kind
  | unknown kind => kind
  | datum d => d.typeName

/-- Whether functions can be applied to a term. -/
def isArgument : Term → Bool
  | int _ | bool _ => true
  | _ => false

/-- What a literal holds. -/
def value : Term → Except Error Datum
  | int value | bool value | string value => pure value
  | t => throw (.noPart t.typeName "value")

end Term

/-- The cells in which lists are kept, and those of the terms to which data refer. -/
structure Store where
  cells : Array (List Term)
  terms : Array Term

namespace Store

/-- The store without any list or term. -/
def empty : Store := ⟨#[], #[]⟩

/-- The number of lists, which is the cell of the next one. -/
def size (s : Store) : Nat := s.cells.size

/-- The items of the list in a cell. -/
def items (s : Store) (cell : Nat) : List Term := (s.cells[cell]?).getD []

/-- Puts a new list into the next cell. -/
def allocate (s : Store) (items : List Term) : Store := { s with cells := s.cells.push items }

/-- Puts one more item at the end of the list in a cell. -/
def append (s : Store) (cell : Nat) (item : Term) : Store :=
  { s with cells := s.cells.modify cell fun items => items ++ [item] }

/-- The term in a cell. -/
def term (s : Store) (cell : Nat) : Term := (s.terms[cell]?).getD (.datum .none)

/-- The term that a datum gives: the one it refers to, if it refers to one. -/
def termOf (s : Store) : Datum → Term
  | .term cell => s.term cell
  | d => .datum d

/-- Puts terms into the next cells. -/
def keep (s : Store) (terms : List Term) : Store := { s with terms := s.terms ++ terms.toArray }

theorem size_allocate (s : Store) (items : List Term) : (s.allocate items).size = s.size + 1 := by
  simp [allocate, size]

theorem items_allocate_self (s : Store) (items : List Term) :
    (s.allocate items).items s.size = items := by
  simp [allocate, Store.items, size]

theorem items_allocate_of_lt (s : Store) (items : List Term) {cell : Nat} (old : cell < s.size) :
    (s.allocate items).items cell = s.items cell := by
  simp only [size] at old
  simp [allocate, Store.items, Array.getElem?_push, Nat.ne_of_lt old]

theorem size_append (s : Store) (cell : Nat) (item : Term) :
    (s.append cell item).size = s.size := by
  simp [append, size]

theorem items_append_self (s : Store) {cell : Nat} (item : Term) (old : cell < s.size) :
    (s.append cell item).items cell = s.items cell ++ [item] := by
  simp only [size] at old
  simp [append, Store.items, Array.getElem_modify, old]

theorem items_append_of_ne (s : Store) {cell other : Nat} (item : Term) (different : other ≠ cell) :
    (s.append cell item).items other = s.items other := by
  simp [append, Store.items, Array.getElem?_modify, Ne.symm different]

theorem term_keep_of_lt (s : Store) (terms : List Term) {cell : Nat} (old : cell < s.terms.size) :
    (s.keep terms).term cell = s.term cell := by
  simp [keep, Store.term, Array.getElem?_append, old]

theorem items_keep (s : Store) (terms : List Term) (cell : Nat) :
    (s.keep terms).items cell = s.items cell := rfl

end Store

/-- What a part of a new term is given as. -/
inductive Component where
  | datum (d : Datum)
  | term (t : Term)
  | terms (items : List Term)

/-- The components from which a term that is no list is made. -/
def Term.components : Term → Bindings Component
  | .int value | .bool value | .string value => [("value", .datum value)]
  | .name id => [("id", .datum (.text id))]
  | .nameless id => [("id", .datum id)]
  | .function parameter body => [("variable", .datum parameter), ("result", .term body)]
  | .operation lhs operator rhs =>
    [("lhs", .term lhs), ("operation", .datum operator.sign), ("rhs", .term rhs)]
  | .conditional condition yes no =>
    [("condition", .term condition), ("then_clause", .term yes), ("else_clause", .term no)]
  | .chain items => [("expressions", .terms items)]
  | .wrapped inner => [("expression", .term inner)]
  | .list _ | .itemless _ _ | .unknown _ | .datum _ => []

end DotLambda
