import DotLambda.Error

/-!
Data: what literals hold and what operators compute with. A boolean counts as the integer one or zero
in arithmetic and in order, but it is a type of its own. A datum may also refer to a term, by the cell in
which the term is kept: two such data are equal if they refer to the same cell, however alike the terms
are. Data are shown in two ways, plainly and with texts in quotes; data inside a list are always shown in
the second way.
-/

namespace DotLambda

/-- A datum. -/
inductive Datum where
  | none
  | bool (b : Bool)
  | int (n : Int)
  | text (s : String)
  | list (items : List Datum)
  /-- The term in a cell. -/
  | term (cell : Nat)

/-- The texts of the terms in cells: as they print, and as they are dumped. -/
structure Wording where
  printed : Nat → Except Error String
  dumped : Nat → Except Error String

namespace Datum

/-- The name of a datum's type. -/
def typeName : Datum → String
  | none => "NoneType"
  | bool _ => "bool"
  | int _ => "int"
  | text _ => "str"
  | list _ => "list"
  | term _ => "Value"

/-- A datum as an integer, where it counts as one. -/
def asInt? : Datum → Option Int
  | bool b => some (if b then 1 else 0)
  | int n => some n
  | _ => Option.none

/-- Whether a datum counts as true: all but nothing, zero, the empty text and the empty list. -/
def truth : Datum → Bool
  | none => false
  | bool b => b
  | int n => n != 0
  | text s => s != ""
  | list items => !items.isEmpty
  | term _ => true

/-- The length of a text or a list. -/
def length : Datum → Except Error Nat
  | text s => pure s.length
  | list items => pure items.length
  | d => throw (.noLength d.typeName)

/-- The items of a list, or the characters of a text. -/
def items? : Datum → Option (List Datum)
  | text s => some (s.toList.map fun c => text (String.singleton c))
  | list items => some items
  | _ => Option.none

/-! ## Text -/

/-- The decimal text of an integer, or the failure of one that is too long. -/
def decimal (n : Int) : Except Error String :=
  match Text.Decimal.text? n with
  | some s => pure s
  | Option.none => throw .numberTooLong

mutual

/-- A datum with its texts in quotes and its terms dumped. -/
def quoted (w : Wording) : Datum → Except Error String
  | none => pure "None"
  | bool b => pure (if b then "True" else "False")
  | int n => decimal n
  | text s => pure (Text.Quoted.quote s)
  | list items => do
    let shown ← quotedAll w items
    pure ("[" ++ ", ".intercalate shown ++ "]")
  | term cell => w.dumped cell

/-- Each of several data with its texts in quotes and its terms dumped. -/
def quotedAll (w : Wording) : List Datum → Except Error (List String)
  | [] => pure []
  | d :: rest => do
    let shown ← d.quoted w
    let others ← quotedAll w rest
    pure (shown :: others)

end

/-- A datum shown plainly: a text as it is, a term as it prints, all else as in quotes. -/
def plain (w : Wording) : Datum → Except Error String
  | text s => pure s
  | term cell => w.printed cell
  | d => d.quoted w

/-! ## Equality and order -/

mutual

/-- Whether two data are equal, a boolean to its integer too. -/
def equal : Datum → Datum → Bool
  | none, none => true
  | text s, text t => s == t
  | list xs, list ys => equalAll xs ys
  | term c, term d => c == d
  | a, b =>
    match a.asInt?, b.asInt? with
    | some m, some n => m == n
    | _, _ => false

/-- Whether two lists of data are equal, item by item. -/
def equalAll : List Datum → List Datum → Bool
  | [], [] => true
  | a :: as, b :: bs => a.equal b && equalAll as bs
  | _, _ => false

end

mutual

/-- How two data stand to each other; the types of the first two data that have no order otherwise. -/
def order : Datum → Datum → Except (String × String) Ordering
  | text s, text t => pure (compare s t)
  | list xs, list ys => orderAll xs ys
  | a, b =>
    match a.asInt?, b.asInt? with
    | some m, some n => pure (compare m n)
    | _, _ => throw (a.typeName, b.typeName)

/-- How two lists stand to each other: as the first items that differ do, else by length. -/
def orderAll : List Datum → List Datum → Except (String × String) Ordering
  | [], [] => pure .eq
  | [], _ :: _ => pure .lt
  | _ :: _, [] => pure .gt
  | a :: as, b :: bs => if a.equal b then orderAll as bs else a.order b

end

end Datum

end DotLambda
