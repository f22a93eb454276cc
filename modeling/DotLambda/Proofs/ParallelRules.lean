import DotLambda.Proofs.Effects
import DotLambda.Proofs.Parallel

/-!
The rules of the grammar in two runs that go side by side. Main statement: a rule applied to meanings that are
twins gives meanings that are twins or fails alike, and what both runs know stays alike.
-/

namespace DotLambda

open Eval

variable {p : Pairing} {known : Known} {mixed slack : Bool} {s s' : Settings} {w w' : World}

theorem Simplify.parallel_simplify (deepens : s.Deepens slack s') {lookup lookup' : Lookup}
    (twinned : Twinned p known w w') (lookups : Lookups p known lookup lookup') {t t' : Term}
    (twin : Twin p known mixed t t') :
    ParallelTerm p slack known w w' mixed (simplify s lookup s.depth t) (simplify s' lookup' s'.depth t') :=
  (parallels_simplify_replace deepens deepens.deeper).1 twinned lookups (fun _ => trivial) twin

theorem Eval.ok_of_bind {α β : Type} {x : Eval α} {f : α → Eval β} {b : β} {after : World}
    (ended : (x >>= f) w = .ok b after) : ∃ a between, x w = .ok a between ∧ f a between = .ok b after := by
  cases first : x w with
  | ok a between =>
    rw [bind_of_ok first] at ended
    exact ⟨a, between, rfl, ended⟩
  | error e between =>
    rw [bind_of_error first] at ended
    cases ended

theorem Eval.attempt_of_ok {α : Type} {x : Eval α} {a : α} {after : World} (ended : x w = .ok a after) :
    Eval.attempt x w = .ok (.ok a) after := by
  simp only [Eval.attempt, ended]

theorem Eval.attempt_of_error {α : Type} {x : Eval α} {e : Error} {after : World} (failed : x w = .error e after) :
    Eval.attempt x w = .ok (.error e) after := by
  simp only [Eval.attempt, failed]

theorem Eval.list_of_makeList (untraced : s.tracing = false) {items : List Term} {t : Term} {after : World}
    (ended : Eval.makeList s items w = .ok t after) : ∃ cell, t = .list cell := by
  simp only [Eval.makeList, Eval.announce, Eval.announceResult, Eval.trace_untraced untraced, pure_bind,
    bind_pure] at ended
  cases ended
  exact ⟨_, rfl⟩

/-- A list that is simplified is a list again. -/
theorem Simplify.list_of_simplify (untraced : s.tracing = false) {lookup : Lookup} {depth cell : Nat} {t : Term}
    {after : World} (ended : simplify s lookup depth (.list cell) w = .ok t after) : ∃ cell, t = .list cell := by
  cases depth with
  | zero => cases ended
  | succ depth =>
    rw [simplify_untraced untraced] at ended
    obtain ⟨_, _, -, read⟩ := ok_of_bind ended
    obtain ⟨_, _, -, made⟩ := ok_of_bind read
    exact list_of_makeList untraced made

/-! ## Sorting -/

namespace Sorting

open Simplify (Lookup)

/-- Merges two lists, comparing at most `count` times, and fails as soon as a comparison does. -/
def joinUpTo {α : Type} (s : Settings) (lookup : Lookup) (term : α → Term) :
    (count : Nat) → (left right : List α) → Eval (List α)
  | count + 1, a :: left, b :: right => do
    let first ← precedes s lookup (term a) (term b)
    if first then do
      let rest ← joinUpTo s lookup term count left (b :: right)
      pure (a :: rest)
    else do
      let rest ← joinUpTo s lookup term count (a :: left) right
      pure (b :: rest)
  | _, left, right => pure (left ++ right)

/-- What fails where an attempt has failed, and goes on with its result otherwise, needs no attempt. -/
theorem attempt_bind {α β : Type} {x : Eval α} {f : Except Error α → Eval β} {g : α → Eval β}
    (fails : ∀ e, f (.error e) = throw e) (succeeds : ∀ a, f (.ok a) = g a) :
    Eval.attempt x >>= f = x >>= g := by
  funext w
  cases ended : x w with
  | ok a after => rw [bind_of_ok ended, bind_of_ok (attempt_of_ok ended), succeeds]
  | error e after =>
    rw [bind_of_error ended, bind_of_ok (attempt_of_error ended), fails]
    rfl

theorem ofExcept_cons {α : Type} (item : α) (m : Merge α) :
    Eval.ofExcept (m.cons item).outcome = (do let rest ← Eval.ofExcept m.outcome; pure (item :: rest)) := by
  obtain ⟨left, right, outcome⟩ := m
  cases outcome <;> rfl

/-- What comes of a merge does not depend on what is left of its lists. -/
theorem outcome_mergeUpTo {α : Type} (s : Settings) (lookup : Lookup) (term : α → Term) (count : Nat)
    (left right : List α) :
    (do let m ← mergeUpTo s lookup term count left right; Eval.ofExcept m.outcome) =
      joinUpTo s lookup term count left right := by
  induction count generalizing left right with
  | zero => rfl
  | succ count ih =>
    cases left with
    | nil => rfl
    | cons a left =>
      cases right with
      | nil => rfl
      | cons b right =>
        simp only [mergeUpTo, joinUpTo, bind_assoc]
        refine attempt_bind (fun e => rfl) fun first => ?_
        cases first with
        | true => simp only [bind_assoc, pure_bind, ofExcept_cons, ← ih, if_true]
        | false => simp [ofExcept_cons, ← ih]

section
variable (deepens : s.Deepens slack s') {lookup lookup' : Lookup}
include deepens

theorem parallel_precedes {a a' b b' : Term} (twinned : Twinned p known w w')
    (lookups : Lookups p known lookup lookup') (first : Twin p known false a a')
    (second : Twin p known false b b') :
    Parallel p slack known w w' (precedes s lookup a b) (precedes s' lookup' a' b') fun _ c c' => c' = c := by
  refine (Simplify.parallel_simplify deepens twinned lookups first).bind
    fun more _ _ l l' wider twinned first => ?_
  refine (Simplify.parallel_simplify deepens twinned (lookups.mono wider) (second.mono wider)).bind
    fun most _ _ r r' wider twinned second => ?_
  have first := first.mono wider
  split
  · cases first with
    | int =>
      cases second with
      | int => exact .ofExcept twinned (.refl fun _ _ => rfl)
  · rename_i notInts
    split
    · exact (notInts _ _ first.eq_int.1 second.eq_int.1).elim
    · exact .throw twinned fun _ => rfl

theorem parallel_joinUpTo (count : Nat) {left left' right right' : List Term} (twinned : Twinned p known w w')
    (lookups : Lookups p known lookup lookup') (first : Twins p known false left left')
    (second : Twins p known false right right') :
    Parallel p slack known w w' (joinUpTo s lookup id count left right)
      (joinUpTo s' lookup' id count left' right') fun more out out' => Twins p more false out out' := by
  induction count generalizing known w w' left left' right right' with
  | zero => exact .pure twinned (List.rel_append first second)
  | succ count ih =>
    cases first with
    | nil => exact .pure twinned second
    | cons a left =>
      cases second with
      | nil => exact .pure twinned (List.rel_append (.cons a left) .nil)
      | cons b right =>
        refine (parallel_precedes deepens twinned lookups a b).bind fun more _ _ c c' wider twinned same => ?_
        have lookups := lookups.mono wider
        rw [same]
        cases c with
        | true =>
          have rest := ih twinned lookups (Twins.mono left wider) (Twins.mono (.cons b right) wider)
          exact rest.bind fun most _ _ _ _ later twinned others =>
            .pure twinned (.cons (a.mono (wider.trans later)) others)
        | false =>
          have rest := ih twinned lookups (Twins.mono (.cons a left) wider) (Twins.mono right wider)
          exact rest.bind fun most _ _ _ _ later twinned others =>
            .pure twinned (.cons (b.mono (wider.trans later)) others)

theorem parallel_sortUpTo (depth : Nat) {items items' : List Term} (twinned : Twinned p known w w')
    (lookups : Lookups p known lookup lookup') (twins : Twins p known false items items') :
    Parallel p slack known w w' (sortUpTo s lookup id depth items) (sortUpTo s' lookup' id depth items')
      fun more out out' => Twins p more false out out' := by
  induction depth generalizing known w w' items items' with
  | zero => exact .pure twinned twins
  | succ depth ih =>
    have same := twins.length_eq
    unfold sortUpTo
    rw [← same]
    by_cases short : items.length ≤ 1
    · rw [if_pos short, if_pos short]
      exact .pure twinned twins
    · rw [if_neg short, if_neg short]
      refine (ih twinned lookups (List.forall₂_take _ twins)).bind fun more _ _ left left' wider twinned first => ?_
      have lookups := lookups.mono wider
      refine (ih twinned lookups (Twins.mono (List.forall₂_drop _ twins) wider)).bind
        fun most _ _ right right' later twinned second => ?_
      have first := Twins.mono first later
      simp only [merge, outcome_mergeUpTo, ← first.length_eq, ← second.length_eq]
      exact parallel_joinUpTo deepens _ twinned (lookups.mono later) first second

end

end Sorting

/-! ## Expressions -/

namespace Meaning

variable (deepens : s.Deepens slack s')
include deepens

theorem parallel_simplifyNow {t t' : Term} (twinned : Twinned p known w w') (twin : Twin p known mixed t t') :
    ParallelTerm p slack known w w' mixed (simplifyNow s t) (simplifyNow s' t') :=
  .get (Simplify.parallel_simplify deepens twinned twinned.lookups twin)

variable {lhs lhs' rhs rhs' : Term}

theorem parallel_arithmetic {op : Operator} (signed : op.sign.references = []) (twinned : Twinned p known w w')
    (left : Twin p known false lhs lhs') (right : Twin p known false rhs rhs') :
    ParallelTerm p slack known w w' mixed (arithmetic s lhs op rhs)
      (arithmetic s' lhs' op rhs') := by
  unfold arithmetic
  split
  · cases left with
    | int plain =>
      cases right with
      | int plain' => exact Simplify.parallel_literal deepens twinned plain plain' fun _ _ => .int
  · rename_i notInts
    split
    · exact (notInts _ _ left.eq_int.1 right.eq_int.1).elim
    · exact .make deepens twinned (.operation left signed right)

theorem parallel_comparison {op : Operator} (signed : op.sign.references = []) (twinned : Twinned p known w w')
    (left : Twin p known false lhs lhs') (right : Twin p known false rhs rhs') :
    ParallelTerm p slack known w w' mixed (comparison s lhs op rhs)
      (comparison s' lhs' op rhs') := by
  unfold comparison
  split
  · cases left with
    | int plain =>
      cases right with
      | int plain' => exact Simplify.parallel_literal deepens twinned plain plain' fun _ _ => .bool
  · rename_i notInts
    split
    · exact (notInts _ _ left.eq_int.1 right.eq_int.1).elim
    · exact .make deepens twinned (.operation left signed right)

theorem parallel_equality {op : Operator} (signed : op.sign.references = []) (twinned : Twinned p known w w')
    (left : Twin p known false lhs lhs') (right : Twin p known false rhs rhs') :
    ParallelTerm p slack known w w' mixed (equality s lhs op rhs)
      (equality s' lhs' op rhs') := by
  unfold equality
  split
  · cases left with
    | int plain =>
      cases right with
      | int plain' => exact Simplify.parallel_literal deepens twinned plain plain' fun _ _ => .bool
  · cases left with
    | bool plain =>
      cases right with
      | bool plain' => exact Simplify.parallel_literal deepens twinned plain plain' fun _ _ => .bool
  · rename_i notInts notBools
    split
    · exact (notInts _ _ left.eq_int.1 right.eq_int.1).elim
    · exact (notBools _ _ left.eq_bool.1 right.eq_bool.1).elim
    · exact .make deepens twinned (.operation left signed right)

theorem parallel_conditional {condition condition' yes yes' no no' : Term} (twinned : Twinned p known w w')
    (decides : Twin p known mixed condition condition') (first : Twin p known mixed yes yes')
    (second : Twin p known mixed no no') :
    ParallelTerm p slack known w w' mixed (conditional s condition yes no)
      (conditional s' condition' yes' no') := by
  have kept := Twin.conditional decides first second
  cases decides with
  | @bool _ d plain =>
    refine .pure twinned ?_
    split
    · exact first
    · exact second
  | int | string | name | blank | function | operation | conditional | pair | more | list =>
    exact .make deepens twinned kept

theorem parallel_chain {first first' rest rest' : Term} (twinned : Twinned p known w w')
    (head : Twin p known mixed first first') (others : Twin p known false rest rest') :
    ParallelTerm p slack known w w' mixed (chain s first rest) (chain s' first' rest') := by
  unfold chain
  refine Parallel.bind (.make deepens twinned ?_) fun more _ _ _ _ _ twinned made =>
    parallel_simplifyNow deepens twinned made
  have whole := others
  cases others with
  | pair | more => exact .more head whole
  | int | bool | string | name | function | operation | conditional | list => exact .pair head whole

theorem parallel_name {id : String} (ordinary : p.Ordinary id) (twinned : Twinned p known w w') :
    ParallelTerm p slack known w w' mixed (name s id) (name s' (p.rename id)) := by
  have found := twinned.lookups.find? ordinary.named
  simp only [name, traceRule_untraced deepens.untraced, traceRule_untraced deepens.untraced', pure_bind]
  refine .get ?_
  generalize w.bindings.find? id = here at found ⊢
  generalize w'.bindings.find? (p.rename id) = there at found ⊢
  cases found with
  | none => exact .make deepens twinned (.name ordinary)
  | some twin => exact .pure twinned (twin.weaken twinned.graded)

theorem parallel_valueOf {t t' : Term} (twinned : Twinned p known w w') (twin : Twin p known false t t') :
    Parallel p slack known w w' (valueOf s t) (valueOf s' t') fun _ d d' => d' = d ∧ d.references = [] := by
  refine (parallel_simplifyNow deepens twinned twin).bind fun more _ _ _ _ _ twinned twin => ?_
  refine .ofExcept twinned ?_
  cases twin with
  | int plain | bool plain | string plain => exact ⟨rfl, plain⟩
  | name | function | operation | conditional | pair | more | list => exact .inr rfl

/-- A value as a boolean. -/
private theorem parallel_truth {x x' : Eval Datum}
    (parallel : Parallel p slack known w w' x x' fun _ d d' => d' = d ∧ d.references = []) :
    ParallelTerm p slack known w w' mixed (do let value ← x; Eval.make s (.bool value))
      (do let value ← x'; Eval.make s' (.bool value)) := by
  refine parallel.bind fun more _ _ d d' _ twinned same => ?_
  obtain ⟨rfl, plain⟩ := same
  exact .make deepens twinned (.bool plain)

theorem parallel_conjunction (twinned : Twinned p known w w') (left : Twin p known false lhs lhs')
    (right : Twin p known false rhs rhs') :
    ParallelTerm p slack known w w' mixed (conjunction s lhs rhs) (conjunction s' lhs' rhs') := by
  refine (parallel_valueOf deepens twinned left).bind fun more _ _ d d' wider twinned same => ?_
  obtain ⟨rfl, plain⟩ := same
  dsimp only
  split
  · exact parallel_truth deepens (parallel_valueOf deepens twinned (right.mono wider))
  · exact parallel_truth deepens (.pure twinned ⟨rfl, plain⟩)

theorem parallel_disjunction (twinned : Twinned p known w w') (left : Twin p known false lhs lhs')
    (right : Twin p known false rhs rhs') :
    ParallelTerm p slack known w w' mixed (disjunction s lhs rhs) (disjunction s' lhs' rhs') := by
  refine (parallel_valueOf deepens twinned left).bind fun more _ _ d d' wider twinned same => ?_
  obtain ⟨rfl, plain⟩ := same
  dsimp only
  split
  · exact parallel_truth deepens (.pure twinned ⟨rfl, plain⟩)
  · exact parallel_truth deepens (parallel_valueOf deepens twinned (right.mono wider))

theorem parallel_negation {t t' : Term} (twinned : Twinned p known w w') (twin : Twin p known false t t') :
    ParallelTerm p slack known w w' mixed (negation s t) (negation s' t') := by
  refine (parallel_valueOf deepens twinned twin).bind fun more _ _ d d' _ twinned same => ?_
  rw [same.1]
  exact .make deepens twinned (.bool rfl)

/-- A minus is an operation, under which the blank may not stand; a plus is nothing. -/
theorem parallel_sign {symbol : String} {t t' : Term} (twinned : Twinned p known w w')
    (twin : Twin p known mixed t t') (closed : symbol = "-" → mixed = false) :
    ParallelTerm p slack known w w' mixed (sign s symbol t) (sign s' symbol t') := by
  unfold sign
  by_cases minus : symbol = "-"
  · have closed := closed minus
    subst closed
    rw [if_pos minus, if_pos minus]
    have nought : Twin p known false (.int (.int 0)) (.int (.int 0)) := .int rfl
    refine (Parallel.make deepens twinned nought).bind fun more _ _ _ _ wider twinned nought => ?_
    exact .make deepens twinned (.operation nought rfl (twin.mono wider))
  · rw [if_neg minus, if_neg minus]
    exact .pure twinned twin

/-! ## Lists -/

theorem parallel_printed {t t' : Term} (twinned : Twinned p known w w') (twin : Twin p known false t t') :
    Parallel p slack known w w' (Eval.examine fun store => t.printed store s.depth)
      (Eval.examine fun store => t'.printed store s'.depth) fun _ => p.Like :=
  .examine twinned (twin.agree_texts twinned.stores deepens.deeper).1

theorem parallel_dumped {t t' : Term} (twinned : Twinned p known w w') (twin : Twin p known false t t') :
    Parallel p slack known w w' (Eval.examine fun store => t.dumped store s.depth)
      (Eval.examine fun store => t'.dumped store s'.depth) fun _ text text' => p.Exact → text' = text :=
  .examine twinned (twin.agree_texts twinned.stores deepens.deeper).2

theorem parallel_notAList {α β : Type} {function : String} {t t' : Term} {good : Known → α → β → Prop}
    (twinned : Twinned p known w w') (twin : Twin p known false t t') :
    Parallel p slack known w w' (notAList s function t) (notAList s' function t') good := by
  refine (parallel_printed deepens twinned twin).bind fun _ _ _ text text' _ twinned like =>
    .throw twinned fun exact => ?_
  rw [like.eq exact]

omit deepens in
theorem parallel_cell {cell : Nat} (twinned : Twinned p known w w') (is : known mixed cell) :
    Parallel p slack known w w' (Eval.examine fun store => pure (store.items cell))
      (Eval.examine fun store => pure (store.items cell)) fun more items items' => Twins p more mixed items items' :=
  ⟨known, .refl known, twinned, twinned.stores _ _ is⟩

/-- A list that is simplified is a list again. -/
theorem parallel_listed {t t' : Term} (twinned : Twinned p known w w') (twin : Twin p known mixed t t')
    (listed : mixed = true → ∃ cell, t = .list cell) :
    Parallel p slack known w w' (simplifyNow s t) (simplifyNow s' t') fun more u u' =>
      Twin p more mixed u u' ∧ (mixed = true → ∃ cell, u = .list cell) := by
  refine (parallel_simplifyNow deepens twinned twin).conj fun u after ended is => ?_
  obtain ⟨cell, rfl⟩ := listed is
  exact Simplify.list_of_simplify deepens.untraced ended

theorem parallel_itemsOf {function : String} {t t' : Term} (twinned : Twinned p known w w')
    (twin : Twin p known mixed t t') (listed : mixed = true → ∃ cell, t = .list cell) :
    Parallel p slack known w w' (itemsOf s function t) (itemsOf s' function t')
      fun more items items' => Twins p more mixed items items' := by
  refine (parallel_listed deepens twinned twin listed).bind fun more _ _ u u' _ twinned both => ?_
  obtain ⟨twin, listed⟩ := both
  cases mixed with
  | true =>
    obtain ⟨cell, rfl⟩ := listed rfl
    cases twin with
    | list is => exact parallel_cell twinned is
  | false =>
    have whole := twin
    cases twin with
    | list is => exact parallel_cell twinned is
    | int | bool | string | name | function | operation | conditional | pair | more =>
      exact parallel_notAList deepens twinned whole

theorem parallel_head {t t' : Term} (twinned : Twinned p known w w') (twin : Twin p known mixed t t')
    (listed : mixed = true → ∃ cell, t = .list cell) :
    ParallelTerm p slack known w w' mixed (head s t) (head s' t') := by
  refine (parallel_itemsOf deepens twinned twin listed).bind fun more _ _ _ _ _ twinned twins => ?_
  cases twins with
  | nil => exact .throw twinned fun _ => rfl
  | cons first _ => exact .pure twinned first

theorem parallel_tail {t t' : Term} (twinned : Twinned p known w w') (twin : Twin p known mixed t t')
    (listed : mixed = true → ∃ cell, t = .list cell) :
    ParallelTerm p slack known w w' mixed (tail s t) (tail s' t') :=
  (parallel_itemsOf deepens twinned twin listed).bind fun _ _ _ _ _ _ twinned twins =>
    .makeList deepens twinned (List.forall₂_drop 1 twins)

theorem parallel_sort {t t' : Term} (twinned : Twinned p known w w') (twin : Twin p known false t t') :
    ParallelTerm p slack known w w' false (sort s t) (sort s' t') := by
  refine (parallel_itemsOf deepens twinned twin nofun).bind fun _ _ _ items items' _ twinned twins => .get ?_
  rw [Sorting.sort, Sorting.sort, ← twins.length_eq]
  exact (Sorting.parallel_sortUpTo deepens _ twinned twinned.lookups twins).bind
    fun _ _ _ _ _ _ twinned twins => .makeList deepens twinned twins

theorem parallel_length {t t' : Term} (twinned : Twinned p known w w') (twin : Twin p known mixed t t')
    (listed : mixed = true → ∃ cell, t = .list cell) :
    ParallelTerm p slack known w w' mixed (length s t) (length s' t') := by
  have counted {more : Known} {after after' : World} {cell : Nat} (twinned : Twinned p more after after')
      (is : more mixed cell) : ParallelTerm p slack more after after' mixed
        (do let items ← Eval.examine fun store => pure (store.items cell)
            Eval.make s (.int (.int items.length)))
        (do let items ← Eval.examine fun store => pure (store.items cell)
            Eval.make s' (.int (.int items.length))) := by
    refine (parallel_cell twinned is).bind fun _ _ _ items items' _ twinned twins => ?_
    rw [← twins.length_eq]
    exact .make deepens twinned (.int rfl)
  refine (parallel_listed deepens twinned twin listed).bind fun more _ _ u u' _ twinned both => ?_
  obtain ⟨twin, listed⟩ := both
  cases mixed with
  | true =>
    obtain ⟨cell, rfl⟩ := listed rfl
    cases twin with
    | list is => exact counted twinned is
  | false =>
    have whole := twin
    cases twin with
    | list is => exact counted twinned is
    | @string _ d plain =>
      have measured : Parallel p slack _ _ _ (Eval.ofExcept d.length) (Eval.ofExcept d.length)
          fun _ n n' => n' = n := .ofExcept twinned (.refl fun _ _ => rfl)
      refine measured.bind fun _ _ _ n n' _ twinned same => ?_
      rw [same]
      exact .make deepens twinned (.int rfl)
    | int | bool | name | function | operation | conditional | pair | more =>
      exact parallel_notAList deepens twinned whole

theorem parallel_item {first first' rest rest' : Term} (twinned : Twinned p known w w')
    (head : Twin p known mixed first first') (others : Twin p known mixed rest rest') :
    ParallelTerm p slack known w w' mixed (item s first rest) (item s' first' rest') := by
  have listed {x x' : Eval (List Term)} (items : Parallel p slack known w w' x x' fun more items items' =>
      Twins p more mixed items items') : ParallelTerm p slack known w w' mixed
        (do let items ← x; Eval.makeList s (first :: items))
        (do let items ← x'; Eval.makeList s' (first' :: items)) :=
    items.bind fun _ _ _ _ _ wider twinned items => .makeList deepens twinned (.cons (head.mono wider) items)
  simp only [item, traceDumped, traceRule_untraced deepens.untraced, traceRule_untraced deepens.untraced',
    pure_bind, bind_pure]
  cases others with
  | list is => exact listed (parallel_cell twinned is)
  | int | bool | string | name | blank | function | operation | conditional | pair | more =>
    exact listed (.pure twinned .nil)

/-! ## Statements -/

theorem parallel_assign {id : String} (other : ¬ p.IsBlank id) {t t' : Term} (twinned : Twinned p known w w')
    (twin : Twin p known false t t') :
    Parallel p slack known w w' (assign s id t) (assign s' (p.rename id) t') fun _ _ _ => True := by
  refine (parallel_dumped deepens twinned twin).bind fun more _ _ text text' wider twinned same => ?_
  refine Parallel.bind (.emit twinned (.colors fun exact => ?_)) fun most after after' _ _ later twinned _ => ?_
  · rw [same exact, exact id]
  · exact ⟨most, .refl most, twinned.insert other (twin.mono (wider.trans later)), trivial⟩

theorem parallel_print {t t' : Term} (twinned : Twinned p known w w') (twin : Twin p known false t t') :
    Parallel p slack known w w' (print s t) (print s' t') fun _ _ _ => True := by
  refine (parallel_simplifyNow deepens twinned twin).bind fun more _ _ _ _ _ twinned twin => ?_
  refine (parallel_printed deepens twinned twin).bind fun most _ _ _ _ _ twinned like => ?_
  exact .emit twinned (.ofLike like)

theorem parallel_dump (all : ∀ id, p.names id) (twinned : Twinned p known w w') :
    Parallel p slack known w w' (dump s) (dump s') fun _ _ _ => True := by
  refine .get (.forM (fun wider paired => paired.mono wider) twinned twinned.lookups.entries
    fun more _ _ twinned entry entry' paired => ?_)
  obtain ⟨named, twin⟩ := paired
  refine (parallel_dumped deepens twinned (twin (all _))).bind fun most _ _ text text' _ twinned same => ?_
  refine .emit twinned (.ofSpaced (fun exact => ?_) ?_ ?_)
  · rw [same exact, named, exact]
  · simp [Spaced]
  · simp [Spaced]

omit deepens in
theorem parallel_append {id : String} (named : p.names id) {t t' : Term} (twinned : Twinned p known w w')
    (twin : Twin p known false t t') :
    ParallelTerm p slack known w w' false (append id t) (append (p.rename id) t') := by
  have found := twinned.lookups.find? named
  refine .get ?_
  generalize w.bindings.find? id = here at found ⊢
  generalize w'.bindings.find? (p.rename id) = there at found ⊢
  cases found with
  | none =>
    refine .throw twinned fun exact => ?_
    rw [exact id]
  | some found =>
    cases found with
    | list is => exact ⟨known, .refl known, twinned.append is twin, .list is⟩
    | int | bool | string | name | function | operation | conditional | pair | more =>
      refine .throw twinned fun exact => ?_
      rw [exact id]

end Meaning

/-! ## Rules -/

/-- Tokens that stand in the same line and are the same up to what a name is called. The blank is no such
name. -/
structure Token.Alike (p : Pairing) (t t' : Token) : Prop where
  kind_eq : t'.kind = t.kind
  line_eq : t'.line = t.line
  name_eq : t.kind = .identifier → t'.text = p.rename t.text ∧ p.Ordinary t.text
  content_eq : t.kind ≠ .identifier → t'.content = t.content

theorem Token.Alike.text_eq {t t' : Token} (alike : Token.Alike p t t') (other : t.kind ≠ .identifier) :
    t'.text = t.text := by
  simp only [Token.text, alike.content_eq other]

theorem Token.Alike.datum_eq {t t' : Token} (alike : Token.Alike p t t') (other : t.kind ≠ .identifier) :
    t'.datum = t.datum := by
  simp only [Token.datum, alike.content_eq other]

namespace Meaning

/-- Meanings of a symbol that are alike: tokens of its kind, terms that are twins, or statements done. -/
inductive Paired (p : Pairing) (known : Known) : Symbol → Meaning → Meaning → Prop where
  | token {t t' : Token} (alike : Token.Alike p t t') : Paired p known (.terminal t.kind) (.token t) (.token t')
  | term {phrase : Nonterminal} {t t' : Term} (other : phrase ≠ .statement) (twin : Twin p known false t t') :
      Paired p known (.nonterminal phrase) (.term t) (.term t')
  | done (result result' : Option Term) :
      Paired p known (.nonterminal .statement) (.done result) (.done result')

/-- Meanings of symbols in a row that are alike one by one. -/
def PairedRow (p : Pairing) (known : Known) : List Symbol → List Meaning → List Meaning → Prop
  | [], row, row' => row = [] ∧ row' = []
  | .terminal kind :: symbols, row, row' => ∃ t t' rest rest', row = .token t :: rest ∧ row' = .token t' :: rest' ∧
    (t.kind = kind ∧ Token.Alike p t t') ∧ PairedRow p known symbols rest rest'
  | .nonterminal .statement :: symbols, row, row' => ∃ result result' rest rest', row = .done result :: rest ∧
    row' = .done result' :: rest' ∧ PairedRow p known symbols rest rest'
  | .nonterminal _ :: symbols, row, row' => ∃ t t' rest rest', row = .term t :: rest ∧ row' = .term t' :: rest' ∧
    Twin p known false t t' ∧ PairedRow p known symbols rest rest'

theorem Paired.mono {more : Known} {symbol : Symbol} {m m' : Meaning} (paired : Paired p known symbol m m')
    (wider : known.Le more) : Paired p more symbol m m' := by
  cases paired with
  | token alike => exact .token alike
  | term other twin => exact .term other (twin.mono wider)
  | done result result' => exact .done result result'

theorem PairedRow.cons {symbol : Symbol} {symbols : List Symbol} {m m' : Meaning} {row row' : List Meaning}
    (paired : Paired p known symbol m m') (others : PairedRow p known symbols row row') :
    PairedRow p known (symbol :: symbols) (m :: row) (m' :: row') := by
  cases paired with
  | @token t t' alike => exact ⟨t, t', row, row', rfl, rfl, ⟨rfl, alike⟩, others⟩
  | done result result' => exact ⟨result, result', row, row', rfl, rfl, others⟩
  | @term phrase t t' other twin =>
    cases phrase with
    | statement => exact absurd rfl other
    | exprList | expr | term | factor | list | items => exact ⟨t, t', row, row', rfl, rfl, twin, others⟩

variable (deepens : s.Deepens slack s') {phrase : Nonterminal} (other : phrase ≠ .statement)

/-- Evaluations of meanings of a phrase that go side by side. -/
abbrev ParallelPhrase (p : Pairing) (slack : Bool) (known : Known) (w w' : World) (phrase : Nonterminal)
    (x x' : Eval Meaning) : Prop :=
  Parallel p slack known w w' x x' fun more m m' => Paired p more (.nonterminal phrase) m m'

section
include other

private theorem parallel_found {x x' : Eval Term} (parallel : ParallelTerm p slack known w w' false x x') :
    ParallelPhrase p slack known w w' phrase (do let t ← x; pure (.term t)) (do let t ← x'; pure (.term t)) :=
  parallel.bind fun _ _ _ _ _ _ twinned twin => .pure twinned (.term other twin)

include deepens

private theorem parallel_shown {x x' : Eval Term} {rule : String}
    (parallel : ParallelTerm p slack known w w' false x x') :
    ParallelPhrase p slack known w w' phrase (do let t ← x; traceDumped s rule t; pure (.term t))
      (do let t ← x'; traceDumped s' rule t; pure (.term t)) := by
  simp only [traceDumped, traceRule_untraced deepens.untraced, traceRule_untraced deepens.untraced', pure_bind]
  exact parallel_found other parallel

private theorem parallel_told {rule : String} {shown shown' : Store → Except Error String} {x x' : Eval Term}
    (parallel : ParallelTerm p slack known w w' false x x') :
    ParallelPhrase p slack known w w' phrase (do traceRule s rule shown; let t ← x; pure (.term t))
      (do traceRule s' rule shown'; let t ← x'; pure (.term t)) := by
  simp only [traceRule_untraced deepens.untraced, traceRule_untraced deepens.untraced', pure_bind]
  exact parallel_found other parallel

private theorem parallel_passed {rule : String} {shown shown' : Store → Except Error String} {t t' : Term}
    (twinned : Twinned p known w w') (twin : Twin p known false t t') :
    ParallelPhrase p slack known w w' phrase (do traceRule s rule shown; pure (.term t))
      (do traceRule s' rule shown'; pure (.term t')) := by
  simp only [traceRule_untraced deepens.untraced, traceRule_untraced deepens.untraced', pure_bind]
  exact .pure twinned (.term other twin)

end

/-- The rule of an expression takes meanings that are alike to meanings that are. -/
theorem parallel_expression (deepens : s.Deepens slack s') {rule : Rule} (expression : rule.lhs ≠ .statement)
    {row row' : List Meaning} (twinned : Twinned p known w w') (paired : PairedRow p known rule.rhs row row') :
    ParallelPhrase p slack known w w' rule.lhs (ofRule s rule row) (ofRule s' rule row') := by
  cases rule with
  | append | dump | print | assign => exact absurd rfl expression
  | lastInChain | termExpr | factorTerm | listExpr =>
    obtain ⟨_, _, _, _, rfl, rfl, twin, rfl, rfl⟩ := paired
    exact parallel_passed deepens expression twinned twin
  | parenthesized | listOf =>
    obtain ⟨_, _, _, _, rfl, rfl, -, _, _, _, _, rfl, rfl, twin, _, _, _, _, rfl, rfl, -, rfl, rfl⟩ := paired
    exact parallel_passed deepens expression twinned twin
  | chain =>
    obtain ⟨_, _, _, _, rfl, rfl, first, _, _, _, _, rfl, rfl, -, _, _, _, _, rfl, rfl, rest, rfl, rfl⟩ := paired
    exact parallel_shown deepens expression (parallel_chain deepens twinned first rest)
  | function =>
    obtain ⟨_, _, _, _, rfl, rfl, -, y, y', _, _, rfl, rfl, ⟨kind, alike⟩, others⟩ := paired
    obtain ⟨_, _, _, _, rfl, rfl, -, _, _, _, _, rfl, rfl, body, rfl, rfl⟩ := others
    refine parallel_shown deepens expression ?_
    rw [(alike.name_eq kind).1]
    exact .make deepens twinned (.function id (nofun : false = true → _) body)
  | sum | product =>
    obtain ⟨_, _, _, _, rfl, rfl, left, op, op', _, _, rfl, rfl, ⟨kind, alike⟩, others⟩ := paired
    obtain ⟨_, _, _, _, rfl, rfl, right, rfl, rfl⟩ := others
    have same : op'.text = op.text := alike.text_eq (by rw [kind]; decide)
    refine parallel_shown deepens expression ?_
    rw [same]
    exact parallel_arithmetic deepens (references_ofSymbol _) twinned left right
  | equality =>
    obtain ⟨_, _, _, _, rfl, rfl, left, op, op', _, _, rfl, rfl, ⟨kind, alike⟩, others⟩ := paired
    obtain ⟨_, _, _, _, rfl, rfl, right, rfl, rfl⟩ := others
    have same : op'.text = op.text := alike.text_eq (by rw [kind]; decide)
    refine parallel_shown deepens expression ?_
    rw [same]
    exact parallel_equality deepens (references_ofSymbol _) twinned left right
  | comparison =>
    obtain ⟨_, _, _, _, rfl, rfl, left, op, op', _, _, rfl, rfl, ⟨kind, alike⟩, others⟩ := paired
    obtain ⟨_, _, _, _, rfl, rfl, right, rfl, rfl⟩ := others
    have same : op'.text = op.text := alike.text_eq (by rw [kind]; decide)
    refine parallel_shown deepens expression ?_
    rw [same]
    exact parallel_comparison deepens (references_ofSymbol _) twinned left right
  | conditional =>
    obtain ⟨_, _, _, _, rfl, rfl, -, _, _, _, _, rfl, rfl, condition, others⟩ := paired
    obtain ⟨_, _, _, _, rfl, rfl, -, _, _, _, _, rfl, rfl, yes, others⟩ := others
    obtain ⟨_, _, _, _, rfl, rfl, -, _, _, _, _, rfl, rfl, no, _, _, _, _, rfl, rfl, -, rfl, rfl⟩ := others
    exact parallel_shown deepens expression (parallel_conditional deepens twinned condition yes no)
  | number =>
    obtain ⟨t, t', _, _, rfl, rfl, ⟨kind, alike⟩, rfl, rfl⟩ := paired
    refine parallel_told deepens expression ?_
    rw [alike.datum_eq (by rw [kind]; decide)]
    exact .make deepens twinned (.int (references_datum t))
  | string =>
    obtain ⟨t, t', _, _, rfl, rfl, ⟨kind, alike⟩, rfl, rfl⟩ := paired
    refine parallel_found expression ?_
    rw [alike.datum_eq (by rw [kind]; decide)]
    exact .make deepens twinned (.string (references_datum t))
  | name =>
    obtain ⟨t, t', _, _, rfl, rfl, ⟨kind, alike⟩, rfl, rfl⟩ := paired
    obtain ⟨called, ordinary⟩ := alike.name_eq kind
    refine parallel_found expression ?_
    rw [called]
    exact parallel_name deepens ordinary twinned
  | emptyList =>
    obtain ⟨_, _, _, _, rfl, rfl, -, _, _, _, _, rfl, rfl, -, rfl, rfl⟩ := paired
    exact parallel_told deepens expression (.makeList deepens twinned .nil)
  | lastItem =>
    obtain ⟨_, _, _, _, rfl, rfl, twin, rfl, rfl⟩ := paired
    exact parallel_told deepens expression (.makeList deepens twinned (.cons twin .nil))
  | item =>
    obtain ⟨_, _, _, _, rfl, rfl, first, _, _, _, _, rfl, rfl, -, _, _, _, _, rfl, rfl, rest, rfl, rfl⟩ := paired
    exact parallel_found expression (parallel_item deepens twinned first rest)
  | head =>
    obtain ⟨_, _, _, _, rfl, rfl, -, _, _, _, _, rfl, rfl, -, _, _, _, _, rfl, rfl, twin, rfl, rfl⟩ := paired
    exact parallel_found expression (parallel_head deepens twinned twin nofun)
  | tail =>
    obtain ⟨_, _, _, _, rfl, rfl, -, _, _, _, _, rfl, rfl, -, _, _, _, _, rfl, rfl, twin, rfl, rfl⟩ := paired
    exact parallel_found expression (parallel_tail deepens twinned twin nofun)
  | sort =>
    obtain ⟨_, _, _, _, rfl, rfl, -, _, _, _, _, rfl, rfl, -, _, _, _, _, rfl, rfl, twin, rfl, rfl⟩ := paired
    exact parallel_found expression (parallel_sort deepens twinned twin)
  | length =>
    obtain ⟨_, _, _, _, rfl, rfl, -, _, _, _, _, rfl, rfl, -, _, _, _, _, rfl, rfl, twin, rfl, rfl⟩ := paired
    exact parallel_found expression (parallel_length deepens twinned twin nofun)
  | sign =>
    obtain ⟨op, op', _, _, rfl, rfl, ⟨kind, alike⟩, _, _, _, _, rfl, rfl, twin, rfl, rfl⟩ := paired
    refine parallel_found expression ?_
    rw [alike.text_eq (by rw [kind]; decide)]
    exact parallel_sign deepens twinned twin fun _ => rfl
  | conjunction =>
    obtain ⟨_, _, _, _, rfl, rfl, left, _, _, _, _, rfl, rfl, -, _, _, _, _, rfl, rfl, right, rfl, rfl⟩ := paired
    exact parallel_found expression (parallel_conjunction deepens twinned left right)
  | disjunction =>
    obtain ⟨_, _, _, _, rfl, rfl, left, _, _, _, _, rfl, rfl, -, _, _, _, _, rfl, rfl, right, rfl, rfl⟩ := paired
    exact parallel_found expression (parallel_disjunction deepens twinned left right)
  | negation =>
    obtain ⟨_, _, _, _, rfl, rfl, -, _, _, _, _, rfl, rfl, twin, rfl, rfl⟩ := paired
    exact parallel_found expression (parallel_negation deepens twinned twin)

/-- The rule of a statement does alike what it does to meanings that are alike. -/
theorem parallel_statement (all : ∀ id, p.names id) (deepens : s.Deepens slack s') {rule : Rule}
    (statement : rule.lhs = .statement) {row row' : List Meaning} (twinned : Twinned p known w w')
    (paired : PairedRow p known rule.rhs row row') :
    ParallelPhrase p slack known w w' rule.lhs (ofRule s rule row) (ofRule s' rule row') := by
  cases rule with
  | print =>
    obtain ⟨_, _, _, _, rfl, rfl, -, _, _, _, _, rfl, rfl, twin, rfl, rfl⟩ := paired
    exact (parallel_print deepens twinned twin).bind fun _ _ _ _ _ _ twinned _ => .pure twinned (.done ..)
  | dump =>
    obtain ⟨_, _, _, _, rfl, rfl, -, rfl, rfl⟩ := paired
    exact (parallel_dump deepens all twinned).bind fun _ _ _ _ _ _ twinned _ => .pure twinned (.done ..)
  | assign =>
    obtain ⟨t, t', _, _, rfl, rfl, ⟨kind, alike⟩, others⟩ := paired
    obtain ⟨_, _, _, _, rfl, rfl, -, _, _, _, _, rfl, rfl, twin, rfl, rfl⟩ := others
    obtain ⟨called, ordinary⟩ := alike.name_eq kind
    have assigned := parallel_assign deepens ordinary.other twinned twin
    rw [← called] at assigned
    exact assigned.bind fun _ _ _ _ _ _ twinned _ => .pure twinned (.done ..)
  | append =>
    obtain ⟨_, _, _, _, rfl, rfl, -, _, _, _, _, rfl, rfl, -, t, t', _, _, rfl, rfl, named, others⟩ := paired
    obtain ⟨_, _, _, _, rfl, rfl, -, _, _, _, _, rfl, rfl, twin, rfl, rfl⟩ := others
    have appended : ParallelTerm p slack _ _ _ false _ _ := parallel_append (all t.text) twinned twin
    rw [← (named.2.name_eq named.1).1] at appended
    exact appended.bind fun _ _ _ _ _ _ twinned _ => .pure twinned (.done ..)
  | _ => exact absurd statement (by decide)

/-- A rule takes meanings that are alike to meanings that are. -/
theorem parallel_ofRule (all : ∀ id, p.names id) (deepens : s.Deepens slack s') (rule : Rule)
    {row row' : List Meaning} (twinned : Twinned p known w w') (paired : PairedRow p known rule.rhs row row') :
    ParallelPhrase p slack known w w' rule.lhs (ofRule s rule row) (ofRule s' rule row') := by
  by_cases statement : rule.lhs = .statement
  · exact parallel_statement all deepens statement twinned paired
  · exact parallel_expression deepens statement twinned paired

end Meaning

end DotLambda
