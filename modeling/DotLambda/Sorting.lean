import DotLambda.Simplify

/-!
Sorting by merging. Each item has a term; two items are compared by what their terms simplify to, which
has to be a number for both, and the items themselves are kept as they are. Merging takes items from the
front of two lists; what is left of them is known also when a comparison fails.
-/

namespace DotLambda

open Simplify (Lookup)

/-- A merge: what is left of the two lists, and the merged list or why there is none. -/
structure Merge (α : Type) where
  left : List α
  right : List α
  outcome : Except Error (List α)

namespace Merge

/-- A merge with an item put before its outcome. -/
def cons {α : Type} (item : α) (m : Merge α) : Merge α :=
  { m with outcome := m.outcome.map (item :: ·) }

/-- The merge when one of the lists has come to its end. -/
def finish {α : Type} (left right : List α) : Merge α := ⟨left, right, .ok (left ++ right)⟩

end Merge

namespace Sorting

/-- Whether a term may stand before another: whether its number is not greater. -/
def precedes (s : Settings) (lookup : Lookup) (a b : Term) : Eval Bool := do
  let l ← simplify s lookup s.depth a
  let r ← simplify s lookup s.depth b
  match l, r with
  | .int m, .int n => Eval.ofExcept (Operator.le.holds m n)
  | _, _ => throw .unsortable

/-- Merges two lists, comparing at most `count` times. -/
def mergeUpTo {α : Type} (s : Settings) (lookup : Lookup) (term : α → Term) :
    (count : Nat) → (left right : List α) → Eval (Merge α)
  | count + 1, a :: left, b :: right => do
    let first ← Eval.attempt (precedes s lookup (term a) (term b))
    match first with
    | .error e => pure ⟨a :: left, b :: right, .error e⟩
    | .ok true => do
      let m ← mergeUpTo s lookup term count left (b :: right)
      pure (m.cons a)
    | .ok false => do
      let m ← mergeUpTo s lookup term count (a :: left) right
      pure (m.cons b)
  | _, left, right => pure (.finish left right)

/-- Merges two lists by the terms of their items. Every comparison takes an item from one of them. -/
def merge {α : Type} (s : Settings) (lookup : Lookup) (term : α → Term) (left right : List α) :
    Eval (Merge α) :=
  mergeUpTo s lookup term (left.length + right.length) left right

/-- Sorts a list by halving it at most `depth` times. -/
def sortUpTo {α : Type} (s : Settings) (lookup : Lookup) (term : α → Term) :
    (depth : Nat) → List α → Eval (List α)
  | 0, items => pure items
  | depth + 1, items =>
    if items.length ≤ 1 then pure items
    else do
      let middle := items.length / 2
      let left ← sortUpTo s lookup term depth (items.take middle)
      let right ← sortUpTo s lookup term depth (items.drop middle)
      let m ← merge s lookup term left right
      Eval.ofExcept m.outcome

/-- Sorts a list by the terms of its items. Its halves are shorter than it, so it is halved less often
than it is long. -/
def sort {α : Type} (s : Settings) (lookup : Lookup) (term : α → Term) (items : List α) :
    Eval (List α) :=
  sortUpTo s lookup term items.length items

end Sorting

end DotLambda
