import DotLambda.Proofs.ParallelRules
import DotLambda.Proofs.Refinement

/-!
Syntax trees of two runs that go side by side. Main statement: trees that are alike have values that are twins
or fail alike, where the blank stands in no operand and no argument.
-/

namespace DotLambda

open Eval

variable {p : Pairing} {known : Known} {mixed slack : Bool} {s s' : Settings} {w w' : World}

/-- What is alike without the blank is alike where it may stand. -/
theorem Eval.ParallelTerm.weaken {x x' : Eval Term} (parallel : ParallelTerm p slack known w w' false x x') :
    ParallelTerm p slack known w w' mixed x x' := by
  have weakened : ParallelTerm p slack known w w' mixed (x >>= pure) (x' >>= pure) :=
    Parallel.bind parallel fun _ _ _ _ _ _ twinned twin => .pure twinned (twin.weaken twinned.graded)
  rwa [bind_pure, bind_pure] at weakened

namespace Phrase

/-- Trees that are alike up to the names in them. Where a tree is mixed, the blank may stand for its number,
but in no operand and no argument, other than in the items of a list that is not sorted; all else is alike
without it. -/
inductive Twin (p : Pairing) : Bool → {form : Form} → Phrase form → Phrase form → Prop where
  | number {mixed : Bool} (n : Nat) : Twin p mixed (number n) (number n)
  | string {mixed : Bool} (text : String) : Twin p mixed (string text) (string text)
  | name {mixed : Bool} {id : String} (ordinary : p.Ordinary id) : Twin p mixed (name id) (name (p.rename id))
  | blank {x : String} {n : Nat} (is : p.blank = some (x, n)) : Twin p true (name x) (number n)
  | group {mixed : Bool} {e e' : Phrase .sequence} (inner : Twin p mixed e e') :
      Twin p mixed (group e) (group e')
  | plus {mixed : Bool} {e e' : Phrase .expression} (operand : Twin p mixed e e') :
      Twin p mixed (sign false e) (sign false e')
  | minus {mixed : Bool} {e e' : Phrase .expression} (operand : Twin p false e e') :
      Twin p mixed (sign true e) (sign true e')
  | dyad {mixed : Bool} (op : Dyad) {lhs lhs' rhs rhs' : Phrase .expression} (left : Twin p false lhs lhs')
      (right : Twin p false rhs rhs') : Twin p mixed (dyad op lhs rhs) (dyad op lhs' rhs')
  | negation {mixed : Bool} {e e' : Phrase .expression} (operand : Twin p false e e') :
      Twin p mixed (negation e) (negation e')
  | conditional {mixed : Bool} {condition condition' yes yes' no no' : Phrase .expression}
      (decides : Twin p mixed condition condition') (first : Twin p mixed yes yes') (second : Twin p mixed no no') :
      Twin p mixed (conditional condition yes no) (conditional condition' yes' no')
  | function {mixed : Bool} {y : String} {body body' : Phrase .expression}
      (free : mixed = true → ¬ p.IsBlank y) (inner : Twin p mixed body body') :
      Twin p mixed (function y body) (function (p.rename y) body')
  | builtin {mixed : Bool} (f : Builtin) {e e' : Phrase .expression} (operand : Twin p false e e') :
      Twin p mixed (builtin f e) (builtin f e')
  | ofList {mixed : Bool} {f : Builtin} (unsorted : f ≠ .sort) {contents contents' : Phrase .items}
      (inner : Twin p mixed contents contents') :
      Twin p mixed (builtin f (list contents)) (builtin f (list contents'))
  | emptyList {mixed : Bool} : Twin p mixed emptyList emptyList
  | list {mixed : Bool} {contents contents' : Phrase .items} (inner : Twin p mixed contents contents') :
      Twin p mixed (list contents) (list contents')
  | alone {mixed : Bool} {e e' : Phrase .expression} (only : Twin p mixed e e') :
      Twin p mixed (alone e) (alone e')
  | application {mixed : Bool} {first first' : Phrase .expression} {rest rest' : Phrase .arguments}
      (head : Twin p mixed first first') (others : Twin p false rest rest') :
      Twin p mixed (application first rest) (application first' rest')
  | argument {mixed : Bool} {e e' : Phrase .expression} (last : Twin p mixed e e') :
      Twin p mixed (argument e) (argument e')
  | arguments {mixed : Bool} {first first' : Phrase .expression} {rest rest' : Phrase .arguments}
      (head : Twin p mixed first first') (others : Twin p false rest rest') :
      Twin p mixed (arguments first rest) (arguments first' rest')
  | item {mixed : Bool} {e e' : Phrase .expression} (last : Twin p mixed e e') : Twin p mixed (item e) (item e')
  | items {mixed : Bool} {first first' : Phrase .expression} {rest rest' : Phrase .items}
      (head : Twin p mixed first first') (others : Twin p mixed rest rest') :
      Twin p mixed (items first rest) (items first' rest')

variable (deepens : s.Deepens slack s')
include deepens

end Phrase

end DotLambda
