import DotLambda.Proofs.Arithmetic
import DotLambda.Proofs.Growth
import DotLambda.Proofs.ParallelRules
import DotLambda.Proofs.Readback
import DotLambda.Proofs.Refinement

/-!
Evaluations that are not traced. Main statements: without tracing, the rule of an expression writes nothing and binds
no variable if it succeeds, and neither does finding the value of a tree.
-/

namespace DotLambda

open Eval

open Simplify (Lookup)

namespace Eval

/-- An evaluation that writes nothing and binds no variable, if it succeeds. -/
def Silent {α : Type} (x : Eval α) : Prop :=
  ∀ w a after, x w = .ok a after → after.bindings = w.bindings ∧ after.output = w.output

namespace Silent

variable {α β : Type}

theorem pure (a : α) : Silent (pure a) := by
  rintro w _ _ ⟨⟩
  exact ⟨rfl, rfl⟩

theorem throw (e : Error) : Silent (throw e : Eval α) := by
  rintro w _ _ ⟨⟩

theorem bind {x : Eval α} {f : α → Eval β} (first : Silent x) (next : ∀ a, Silent (f a)) : Silent (x >>= f) := by
  intro w b last ended
  obtain ⟨a, after, here, there⟩ := ok_of_bind ended
  have early := first w a after here
  have late := next a after b last there
  exact ⟨late.1.trans early.1, late.2.trans early.2⟩

/-- What fails in the end is never heard of. -/
theorem failing (x : Eval α) (e : α → Error) : Silent (do let a ← x; MonadExcept.throw (e a) : Eval β) := by
  intro w b last ended
  obtain ⟨a, after, -, there⟩ := ok_of_bind ended
  cases there

theorem get {f : World → Eval β} (next : ∀ w, Silent (f w)) : Silent (MonadState.get >>= f) :=
  fun w => next w w

theorem ofExcept (e : Except Error α) : Silent (Eval.ofExcept e) := by
  cases e with
  | ok a => exact .pure a
  | error e => exact .throw e

theorem examine (f : Store → Except Error α) : Silent (Eval.examine f) := .get fun _ => .ofExcept _

variable {s : Settings} (untraced : s.tracing = false)
include untraced

theorem make (t : Term) : Silent (Eval.make s t) := by
  rw [Eval.make_untraced untraced]
  exact .pure t

theorem makeList (items : List Term) : Silent (Eval.makeList s items) := by
  intro w t after ended
  rw [Ground.makeList_eq untraced] at ended
  cases ended
  exact ⟨rfl, rfl⟩

end Silent

end Eval

/-! ## Simplification -/

namespace Simplify

variable {s : Settings} (untraced : s.tracing = false)
include untraced

/-- Without tracing, what simplification changes are the lists; what it does before it fails is not heard of. -/
theorem admits_silence :
    Admits s (fun w after => after.bindings = w.bindings ∧ after.output = w.output) fun _ _ => True where
  refl _ := ⟨rfl, rfl⟩
  trans early late := ⟨late.1.trans early.1, late.2.trans early.2⟩
  fail _ := trivial
  failAfter _ _ := trivial
  traced tracing := absurd tracing (ne_true_of_eq_false untraced)
  complained _ _ := trivial
  allocated _ _ := ⟨rfl, rfl⟩
  kept _ _ := ⟨rfl, rfl⟩

theorem silent_simplify (lookup : Lookup) (depth : Nat) (t : Term) : Silent (simplify s lookup depth t) :=
  fun _ _ _ => ((confined_simplify_replace (admits_silence untraced) lookup depth).1 t).of_ok

end Simplify

/-! ## Sorting -/

namespace Sorting

variable {s : Settings} (untraced : s.tracing = false) {lookup : Lookup}
include untraced

theorem silent_precedes (a b : Term) : Silent (precedes s lookup a b) := by
  refine (Simplify.silent_simplify untraced lookup s.depth a).bind fun l => ?_
  refine (Simplify.silent_simplify untraced lookup s.depth b).bind fun r => ?_
  split
  · exact .ofExcept _
  · exact .throw _

theorem silent_joinUpTo (count : Nat) (left right : List Term) :
    Silent (joinUpTo s lookup id count left right) := by
  induction count generalizing left right with
  | zero => exact .pure _
  | succ count ih =>
    cases left with
    | nil => exact .pure _
    | cons a left =>
      cases right with
      | nil => exact .pure _
      | cons b right =>
        refine (silent_precedes untraced a b).bind fun first => ?_
        split
        · exact (ih _ _).bind fun _ => .pure _
        · exact (ih _ _).bind fun _ => .pure _

theorem silent_sortUpTo (depth : Nat) (items : List Term) : Silent (sortUpTo s lookup id depth items) := by
  induction depth generalizing items with
  | zero => exact .pure _
  | succ depth ih =>
    unfold sortUpTo
    split
    · exact .pure _
    · refine (ih _).bind fun left => (ih _).bind fun right => ?_
      rw [merge, outcome_mergeUpTo]
      exact silent_joinUpTo untraced _ left right

end Sorting

/-! ## Expressions -/

namespace Meaning

variable {s : Settings} (untraced : s.tracing = false)
include untraced

theorem silent_simplifyNow (t : Term) : Silent (simplifyNow s t) :=
  .get fun w => Simplify.silent_simplify untraced w.bindings s.depth t

theorem silent_arithmetic (lhs : Term) (op : Operator) (rhs : Term) : Silent (arithmetic s lhs op rhs) := by
  unfold arithmetic
  split
  · exact Silent.bind (.examine _) fun _ => .make untraced _
  · exact .make untraced _

theorem silent_comparison (lhs : Term) (op : Operator) (rhs : Term) : Silent (comparison s lhs op rhs) := by
  unfold comparison
  split
  · exact Silent.bind (.examine _) fun _ => .make untraced _
  · exact .make untraced _

theorem silent_equality (lhs : Term) (op : Operator) (rhs : Term) : Silent (equality s lhs op rhs) := by
  unfold equality
  split
  · exact Silent.bind (.examine _) fun _ => .make untraced _
  · exact Silent.bind (.examine _) fun _ => .make untraced _
  · exact .make untraced _

theorem silent_conditional (condition yes no : Term) : Silent (conditional s condition yes no) := by
  unfold conditional
  split
  · exact .pure _
  · exact .make untraced _

theorem silent_chain (first rest : Term) : Silent (chain s first rest) :=
  (Silent.make untraced _).bind fun t => silent_simplifyNow untraced t

theorem silent_name (id : String) : Silent (name s id) := by
  refine .get fun w => ?_
  split
  · rw [traceRule_untraced untraced, pure_bind]
    exact .pure _
  · rw [traceRule_untraced untraced, pure_bind]
    exact .make untraced _

theorem silent_valueOf (t : Term) : Silent (valueOf s t) :=
  (silent_simplifyNow untraced t).bind fun _ => .ofExcept _

theorem silent_conjunction (lhs rhs : Term) : Silent (conjunction s lhs rhs) := by
  refine (silent_valueOf untraced lhs).bind fun l => ?_
  dsimp only
  split
  · exact (silent_valueOf untraced rhs).bind fun _ => .make untraced _
  · exact .make untraced _

theorem silent_disjunction (lhs rhs : Term) : Silent (disjunction s lhs rhs) := by
  refine (silent_valueOf untraced lhs).bind fun l => ?_
  dsimp only
  split
  · exact .make untraced _
  · exact (silent_valueOf untraced rhs).bind fun _ => .make untraced _

theorem silent_negation (t : Term) : Silent (negation s t) :=
  (silent_valueOf untraced t).bind fun _ => .make untraced _

theorem silent_sign (symbol : String) (t : Term) : Silent (sign s symbol t) := by
  unfold sign
  split
  · exact (Silent.make untraced _).bind fun _ => .make untraced _
  · exact .pure t

theorem silent_itemsOf (function : String) (t : Term) : Silent (itemsOf s function t) := by
  refine (silent_simplifyNow untraced t).bind fun t => ?_
  split
  · exact .examine _
  · exact .failing _ (.notAList function)

theorem silent_head (t : Term) : Silent (head s t) := by
  refine (silent_itemsOf untraced "head" t).bind fun items => ?_
  split
  · exact .throw _
  · exact .pure _

theorem silent_tail (t : Term) : Silent (tail s t) :=
  (silent_itemsOf untraced "tail" t).bind fun _ => .makeList untraced _

theorem silent_sort (t : Term) : Silent (sort s t) :=
  (silent_itemsOf untraced "sort" t).bind fun items => .get fun _ =>
    (Sorting.silent_sortUpTo untraced items.length items).bind fun _ => .makeList untraced _

theorem silent_length (t : Term) : Silent (length s t) := by
  refine (silent_simplifyNow untraced t).bind fun t => ?_
  split
  · exact Silent.bind (.examine _) fun _ => .make untraced _
  · exact Silent.bind (.ofExcept _) fun _ => .make untraced _
  · exact .failing _ (.notAList "length")

theorem silent_item (first rest : Term) : Silent (item s first rest) := by
  have listed (items : List Term) : Silent (do
      let t ← Eval.makeList s (first :: items)
      traceDumped s "Rule: expr COMMA comma_sep_list -> comma_sep_list" t
      pure t) := by
    refine Silent.bind (.makeList untraced _) fun t => ?_
    rw [traceDumped, traceRule_untraced untraced, pure_bind]
    exact .pure t
  unfold item
  split
  · exact Silent.bind (.examine _) listed
  · exact listed []

theorem silent_traceRule (rule : String) (shown : Store → Except Error String) : Silent (traceRule s rule shown) := by
  rw [traceRule_untraced untraced]
  exact .pure ()

omit untraced in
/-- The term of an evaluation as the meaning of a phrase. -/
private theorem silent_found {x : Eval Term} (silent : Silent x) : Silent (do let t ← x; pure (Meaning.term t)) :=
  silent.bind fun _ => .pure _

private theorem silent_shown {x : Eval Term} {rule : String} (silent : Silent x) :
    Silent (do let t ← x; traceDumped s rule t; pure (Meaning.term t)) :=
  silent.bind fun _ => (silent_traceRule untraced _ _).bind fun _ => .pure _

private theorem silent_passed {rule : String} {shown : Store → Except Error String} {t : Term} :
    Silent (do traceRule s rule shown; pure (Meaning.term t)) :=
  (silent_traceRule untraced _ _).bind fun _ => .pure _

/-- The rule of an expression is not heard of. -/
theorem silent_ofRule {rule : Rule} (expression : rule.lhs ≠ .statement) (meanings : List Meaning) :
    Silent (ofRule s rule meanings) := by
  unfold ofRule
  -- One case for each rule in the order of `ofRule`, and one for symbols that fit no rule.
  split
  · exact absurd rfl expression
  · exact absurd rfl expression
  · exact absurd rfl expression
  · exact absurd rfl expression
  · exact silent_passed untraced
  · exact silent_shown untraced (silent_chain untraced _ _)
  · exact silent_shown untraced (.make untraced _)
  · exact silent_shown untraced (silent_arithmetic untraced _ _ _)
  · exact silent_passed untraced
  · exact silent_shown untraced (silent_conditional untraced _ _ _)
  · exact silent_shown untraced (silent_equality untraced _ _ _)
  · exact silent_shown untraced (silent_comparison untraced _ _ _)
  · exact silent_shown untraced (silent_arithmetic untraced _ _ _)
  · exact silent_passed untraced
  · exact (silent_traceRule untraced _ _).bind fun _ => silent_found (.make untraced _)
  · exact silent_found (.make untraced _)
  · exact silent_found (silent_name untraced _)
  · exact silent_passed untraced
  · exact silent_passed untraced
  · exact (silent_traceRule untraced _ _).bind fun _ => silent_found (.makeList untraced _)
  · exact silent_passed untraced
  · exact (silent_traceRule untraced _ _).bind fun _ => silent_found (.makeList untraced _)
  · exact silent_found (silent_item untraced _ _)
  · exact silent_found (silent_head untraced _)
  · exact silent_found (silent_tail untraced _)
  · exact silent_found (silent_sort untraced _)
  · exact silent_found (silent_length untraced _)
  · exact silent_found (silent_sign untraced _ _)
  · exact silent_found (silent_conjunction untraced _ _)
  · exact silent_found (silent_disjunction untraced _ _)
  · exact silent_found (silent_negation untraced _)
  · exact .pure _

end Meaning

namespace Phrase

variable {s : Settings} (untraced : s.tracing = false)
include untraced

theorem silent_dyad (op : Dyad) (lhs rhs : Term) : Silent (op.evaluate s lhs rhs) := by
  cases op with
  | add | sub | mul | div => exact Meaning.silent_arithmetic untraced _ _ _
  | eq | ne => exact Meaning.silent_equality untraced _ _ _
  | lt | le | gt | ge => exact Meaning.silent_comparison untraced _ _ _
  | both => exact Meaning.silent_conjunction untraced _ _
  | either => exact Meaning.silent_disjunction untraced _ _

theorem silent_builtin (f : Builtin) (t : Term) : Silent (f.evaluate s t) := by
  cases f with
  | head => exact Meaning.silent_head untraced t
  | tail => exact Meaning.silent_tail untraced t
  | sort => exact Meaning.silent_sort untraced t
  | length => exact Meaning.silent_length untraced t

/-- To find the value of a tree is not heard of. -/
theorem silent_evaluate {form : Form} (e : Phrase form) : Silent (e.evaluate s) := by
  induction e with
  | number | string => exact .make untraced _
  | name id => exact Meaning.silent_name untraced id
  | group _ ih | list _ ih | alone _ ih | argument _ ih => exact ih
  | sign minus _ ih => exact ih.bind fun t => Meaning.silent_sign untraced _ t
  | dyad op _ _ left right => exact left.bind fun l => right.bind fun r => silent_dyad untraced op l r
  | negation _ ih => exact ih.bind fun t => Meaning.silent_negation untraced t
  | conditional _ _ _ decides first second =>
    exact decides.bind fun c => first.bind fun y => second.bind fun n => Meaning.silent_conditional untraced c y n
  | function _ _ ih => exact ih.bind fun _ => .make untraced _
  | builtin f _ ih => exact ih.bind fun t => silent_builtin untraced f t
  | emptyList => exact .makeList untraced _
  | application _ _ head others | arguments _ _ head others =>
    exact head.bind fun f => others.bind fun r => Meaning.silent_chain untraced f r
  | item _ ih => exact ih.bind fun _ => .makeList untraced _
  | items _ _ head others => exact head.bind fun f => others.bind fun r => Meaning.silent_item untraced f r

end Phrase

end DotLambda
