import DotLambda.Proofs.Lockstep
import DotLambda.Proofs.Silence
import DotLambda.Proofs.Tracing

/-!
What phrases mean in two worlds side by side. The worlds may have different lists and different variables, as long as
what those that are looked up stand for is alike in both, and in the second there may be more depth. Main statements:
what the rules of expressions do to terms that are alike is alike, or there is the same failure, unless the first runs
out of depth; without tracing, so is the value of a tree.
-/

namespace DotLambda

open Eval

open Simplify (Lookup)

namespace Eval

/-- An evaluation that binds no variable and writes nothing but a trace, if it succeeds. -/
def Hushed {α : Type} (x : Eval α) : Prop :=
  ∀ w a after, x w = .ok a after → after.bindings = w.bindings ∧ after.untraced.output = w.untraced.output

variable {α : Type} {x y : Eval α}

theorem Silent.hushed (silent : Silent x) : Hushed x := by
  intro w a after ended
  obtain ⟨kept, quiet⟩ := silent w a after ended
  exact ⟨kept, by rw [World.untraced, World.untraced, quiet]⟩

theorem Traces.hushed (traces : Traces x y) (silent : Silent y) : Hushed x :=
  fun w a after ended => silent w.untraced a after.untraced (traces w a after ended)

end Eval

/-- Two runs that may go on together, each with its own variables, among which the names that are wanted may be
looked up. -/
structure Abreast (wanted : String → Prop) (lookup lookup' : Lookup) (l : Likeness) (w w' : World) : Prop where
  meets : Meets lookup lookup' l w w'
  here : w.bindings = lookup
  there : w'.bindings = lookup'
  named : ∀ id, wanted id → l.names id

variable {wanted : String → Prop} {lookup lookup' : Lookup} {l more : Likeness} {w w' after after' : World}

theorem Abreast.advance (abreast : Abreast wanted lookup lookup' l w w')
    (advances : Advances lookup lookup' l w w' more after after') (kept : after.bindings = w.bindings)
    (kept' : after'.bindings = w'.bindings) : Abreast wanted lookup lookup' more after after' where
  meets := advances.meets
  here := kept.trans abreast.here
  there := kept'.trans abreast.there
  named id is := advances.wider.names id (abreast.named id is)

/-- What uses the variables may follow what leaves them alone. -/
theorem Eval.Tandem.follow {α β γ δ : Type} {x : Eval α} {x' : Eval β} {f : α → Eval γ} {f' : β → Eval δ}
    {good : Likeness → Store → Store → α → β → Prop} {best : Likeness → Store → Store → γ → δ → Prop}
    (first : Tandem lookup lookup' l w w' x x' good) (abreast : Abreast wanted lookup lookup' l w w')
    (hushed : Hushed x) (hushed' : Hushed x')
    (next : ∀ more after after' a b, Abreast wanted lookup lookup' more after after' → l.Le more →
      good more after.store after'.store a b → Tandem lookup lookup' more after after' (f a) (f' b) best) :
    Tandem lookup lookup' l w w' (x >>= f) (x' >>= f') best :=
  first.sequence fun more after after' a b ended ended' advances fine =>
    next more after after' a b
      (abreast.advance advances (hushed w a after ended).1 (hushed' w' b after' ended').1) advances.wider fine

variable {s s' : Settings} (le : s.Le s') {t t' lhs lhs' rhs rhs' : Term}

theorem Settings.Le.untraced (le : s.Le s') (untraced : s.tracing = false) : s'.tracing = false :=
  le.tracing.trans untraced

/-! ## Sorting -/

namespace Sorting

include le

theorem tandem_precedes {a a' b b' : Term} (meets : Meets lookup lookup' l w w') (first : Term.Alike l a a')
    (second : Term.Alike l b b') :
    Tandem lookup lookup' l w w' (precedes s lookup a b) (precedes s' lookup' a' b') fun _ _ _ c c' => c' = c := by
  have simplifies : Simplify.Accords lookup lookup' (simplify s lookup s.depth) (simplify s' lookup' s'.depth) :=
    (Simplify.accords_simplify_replace le le.depth).1
  refine (simplifies meets first).bind fun _ _ _ m m' advances here => ?_
  refine (simplifies advances.meets (advances.alike second)).bind fun _ _ _ n n' later there => ?_
  have here := later.alike here
  cases here with
  | int =>
    cases there with
    | int => exact .ofExcept later.meets (.refl fun _ _ => rfl)
    | bool | string | name | nameless | function | operation | conditional | nil | cons | list | wrapped | itemless
    | unknown | datum => exact .throw
  | bool | string | name | nameless | function | operation | conditional | nil | cons | list | wrapped | itemless
  | unknown | datum => exact .throw

theorem tandem_joinUpTo (count : Nat) {left left' right right' : List Term} (meets : Meets lookup lookup' l w w')
    (first : List.Forall₂ (Term.Alike l) left left') (second : List.Forall₂ (Term.Alike l) right right') :
    Tandem lookup lookup' l w w' (joinUpTo s lookup id count left right) (joinUpTo s' lookup' id count left' right')
      fun more _ _ out out' => List.Forall₂ (Term.Alike more) out out' := by
  induction count generalizing l w w' left left' right right' with
  | zero => exact .pure meets (List.rel_append first second)
  | succ count ih =>
    cases first with
    | nil => exact .pure meets second
    | cons a left =>
      cases second with
      | nil => exact .pure meets (List.rel_append (.cons a left) .nil)
      | cons b right =>
        refine (tandem_precedes le meets a b).bind fun more _ _ c c' advances same => ?_
        rw [same]
        cases c with
        | true =>
          refine (ih advances.meets (advances.each left) (advances.each (.cons b right))).bind
            fun _ _ _ _ _ later others => ?_
          exact .pure later.meets (.cons (later.alike (advances.alike a)) others)
        | false =>
          refine (ih advances.meets (advances.each (.cons a left)) (advances.each right)).bind
            fun _ _ _ _ _ later others => ?_
          exact .pure later.meets (.cons (later.alike (advances.alike b)) others)

theorem tandem_sortUpTo (depth : Nat) {items items' : List Term} (meets : Meets lookup lookup' l w w')
    (each : List.Forall₂ (Term.Alike l) items items') :
    Tandem lookup lookup' l w w' (sortUpTo s lookup id depth items) (sortUpTo s' lookup' id depth items')
      fun more _ _ out out' => List.Forall₂ (Term.Alike more) out out' := by
  induction depth generalizing l w w' items items' with
  | zero => exact .pure meets each
  | succ depth ih =>
    unfold sortUpTo
    rw [← each.length_eq]
    by_cases short : items.length ≤ 1
    · rw [if_pos short, if_pos short]
      exact .pure meets each
    · rw [if_neg short, if_neg short]
      refine (ih meets (List.forall₂_take _ each)).bind fun _ _ _ left left' advances first => ?_
      refine (ih advances.meets (advances.each (List.forall₂_drop _ each))).bind
        fun _ _ _ right right' later second => ?_
      have first := later.each first
      simp only [merge, outcome_mergeUpTo, ← first.length_eq, ← second.length_eq]
      exact tandem_joinUpTo le _ later.meets first second

end Sorting

/-! ## Expressions -/

namespace Meaning

section

include le

theorem tandem_traceRule {rule : String} {shown shown' : Store → Except Error String}
    (meets : Meets lookup lookup' l w w') (near : s.tracing = true → Nears (shown w.store) (shown' w'.store)) :
    Tandem lookup lookup' l w w' (traceRule s rule shown) (traceRule s' rule shown') fun _ _ _ _ _ => True :=
  .trace le meets fun tracing => (near tracing).together.map

theorem tandem_traceDumped {rule : String} (meets : Meets lookup lookup' l w w') (alike : Term.Alike l t t') :
    Tandem lookup lookup' l w w' (traceDumped s rule t) (traceDumped s' rule t') fun _ _ _ _ _ => True :=
  tandem_traceRule le meets fun _ => alike.dumped_near meets.relates le.depth

theorem tandem_operation {op : Operator} (signed : op.sign.references = []) (meets : Meets lookup lookup' l w w')
    (left : Term.Alike l lhs lhs') (right : Term.Alike l rhs rhs') :
    TandemTerm lookup lookup' l w w' (Eval.make s (.operation lhs op rhs)) (Eval.make s' (.operation lhs' op rhs')) :=
  .make le meets (.operation left (meets.plain _ signed) right)

theorem tandem_arithmetic {op : Operator} (signed : op.sign.references = []) (meets : Meets lookup lookup' l w w')
    (left : Term.Alike l lhs lhs') (right : Term.Alike l rhs rhs') :
    TandemTerm lookup lookup' l w w' (arithmetic s lhs op rhs) (arithmetic s' lhs' op rhs') := by
  have operation := tandem_operation le signed meets left right
  cases left with
  | int fits =>
    cases right with
    | int fits' => exact Simplify.tandem_literal le meets fits fits' .int
    | bool | string | name | nameless | function | operation | conditional | nil | cons | list | wrapped | itemless
    | unknown | datum => exact operation
  | bool | string | name | nameless | function | operation | conditional | nil | cons | list | wrapped | itemless
  | unknown | datum => exact operation

theorem tandem_comparison {op : Operator} (signed : op.sign.references = []) (meets : Meets lookup lookup' l w w')
    (left : Term.Alike l lhs lhs') (right : Term.Alike l rhs rhs') :
    TandemTerm lookup lookup' l w w' (comparison s lhs op rhs) (comparison s' lhs' op rhs') := by
  have operation := tandem_operation le signed meets left right
  cases left with
  | int fits =>
    cases right with
    | int fits' => exact Simplify.tandem_literal le meets fits fits' .bool
    | bool | string | name | nameless | function | operation | conditional | nil | cons | list | wrapped | itemless
    | unknown | datum => exact operation
  | bool | string | name | nameless | function | operation | conditional | nil | cons | list | wrapped | itemless
  | unknown | datum => exact operation

theorem tandem_equality {op : Operator} (signed : op.sign.references = []) (meets : Meets lookup lookup' l w w')
    (left : Term.Alike l lhs lhs') (right : Term.Alike l rhs rhs') :
    TandemTerm lookup lookup' l w w' (equality s lhs op rhs) (equality s' lhs' op rhs') := by
  have operation := tandem_operation le signed meets left right
  cases left with
  | int fits =>
    cases right with
    | int fits' => exact Simplify.tandem_literal le meets fits fits' .bool
    | bool | string | name | nameless | function | operation | conditional | nil | cons | list | wrapped | itemless
    | unknown | datum => exact operation
  | bool fits =>
    cases right with
    | bool fits' => exact Simplify.tandem_literal le meets fits fits' .bool
    | int | string | name | nameless | function | operation | conditional | nil | cons | list | wrapped | itemless
    | unknown | datum => exact operation
  | string | name | nameless | function | operation | conditional | nil | cons | list | wrapped | itemless
  | unknown | datum => exact operation

theorem tandem_conditional {condition condition' yes yes' no no' : Term} (meets : Meets lookup lookup' l w w')
    (decides : Term.Alike l condition condition') (first : Term.Alike l yes yes') (second : Term.Alike l no no') :
    TandemTerm lookup lookup' l w w' (conditional s condition yes no) (conditional s' condition' yes' no') := by
  have kept := Tandem.make le meets (.conditional decides first second)
  cases decides with
  | @bool d =>
    refine .pure meets ?_
    split
    · exact first
    · exact second
  | int | string | name | nameless | function | operation | conditional | nil | cons | list | wrapped | itemless
  | unknown | datum => exact kept

theorem tandem_sign {symbol : String} (meets : Meets lookup lookup' l w w') (alike : Term.Alike l t t') :
    TandemTerm lookup lookup' l w w' (sign s symbol t) (sign s' symbol t') := by
  unfold sign
  split
  · refine Tandem.bind (.make le meets (.int (meets.plain _ rfl))) fun _ _ _ _ _ advances nought => ?_
    exact tandem_operation le rfl advances.meets nought (advances.alike alike)
  · exact .pure meets alike

/-- A term that is no list is shown alike in both complaints. -/
theorem tandem_notAList {α β : Type} {function : String} {good : Likeness → Store → Store → α → β → Prop}
    (meets : Meets lookup lookup' l w w') (alike : Term.Alike l t t') :
    Tandem lookup lookup' l w w' (notAList s function t) (notAList s' function t') good := by
  have shown : Tandem lookup lookup' l w w' (Eval.examine fun store => t.printed store s.depth)
      (Eval.examine fun store => t'.printed store s'.depth) fun _ _ _ text text' => text' = text :=
    .examine meets (alike.printed_near meets.relates le.depth).agree
  refine shown.bind fun _ _ _ text text' _ same => ?_
  rw [same]
  exact .throw

omit le in
theorem tandem_items {cell cell' : Nat} (meets : Meets lookup lookup' l w w') (paired : l.cells cell cell') :
    Tandem lookup lookup' l w w' (Eval.examine fun store => pure (store.items cell))
      (Eval.examine fun store => pure (store.items cell')) fun more _ _ out out' =>
        List.Forall₂ (Term.Alike more) out out' :=
  .examine meets (meets.relates.items cell cell' paired)

/-- A value as a boolean. -/
private theorem tandem_truth {x x' : Eval Datum}
    (tandem : Tandem lookup lookup' l w w' x x' fun more _ _ d d' => d' = d ∧ more.data d) :
    TandemTerm lookup lookup' l w w' (do let value ← x; Eval.make s (.bool value))
      (do let value ← x'; Eval.make s' (.bool value)) := by
  refine tandem.bind fun _ _ _ d d' advances same => ?_
  obtain ⟨rfl, fits⟩ := same
  exact .make le advances.meets (.bool fits)

variable (abreast : Abreast wanted lookup lookup' l w w')
include abreast

theorem tandem_simplifyNow (alike : Term.Alike l t t') :
    TandemTerm lookup lookup' l w w' (simplifyNow s t) (simplifyNow s' t') := by
  refine .get ?_
  rw [abreast.here, abreast.there]
  exact (Simplify.accords_simplify_replace le le.depth).1 abreast.meets alike

theorem tandem_valueOf (alike : Term.Alike l t t') :
    Tandem lookup lookup' l w w' (valueOf s t) (valueOf s' t') fun more _ _ d d' => d' = d ∧ more.data d := by
  refine (tandem_simplifyNow le abreast alike).bind fun _ _ _ _ _ advances alike => .ofExcept advances.meets ?_
  cases alike with
  | int fits | bool fits | string fits => exact ⟨rfl, fits⟩
  | name | nameless | function | operation | conditional | nil | cons | list | wrapped | itemless | unknown
  | datum => exact .inr rfl

theorem tandem_negation (alike : Term.Alike l t t') :
    TandemTerm lookup lookup' l w w' (negation s t) (negation s' t') := by
  refine (tandem_valueOf le abreast alike).bind fun _ _ _ d d' advances same => ?_
  rw [same.1]
  exact .make le advances.meets (.bool (advances.meets.plain _ rfl))

theorem tandem_itemsOf {function : String} (alike : Term.Alike l t t') :
    Tandem lookup lookup' l w w' (itemsOf s function t) (itemsOf s' function t') fun more _ _ out out' =>
      List.Forall₂ (Term.Alike more) out out' := by
  refine (tandem_simplifyNow le abreast alike).bind fun _ _ _ _ _ advances alike => ?_
  have whole := alike
  cases alike with
  | list paired => exact tandem_items advances.meets paired
  | int | bool | string | name | nameless | function | operation | conditional | nil | cons | wrapped | itemless
  | unknown | datum => exact tandem_notAList le advances.meets whole

theorem tandem_head (alike : Term.Alike l t t') : TandemTerm lookup lookup' l w w' (head s t) (head s' t') := by
  refine (tandem_itemsOf le abreast alike).bind fun _ _ _ _ _ advances each => ?_
  cases each with
  | nil => exact .throw
  | cons first => exact .pure advances.meets first

theorem tandem_tail (alike : Term.Alike l t t') : TandemTerm lookup lookup' l w w' (tail s t) (tail s' t') :=
  (tandem_itemsOf le abreast alike).bind fun _ _ _ _ _ advances each =>
    .makeList le advances.meets (List.forall₂_drop 1 each)

theorem tandem_length (alike : Term.Alike l t t') :
    TandemTerm lookup lookup' l w w' (length s t) (length s' t') := by
  refine (tandem_simplifyNow le abreast alike).bind fun _ _ _ _ _ advances alike => ?_
  have whole := alike
  cases alike with
  | list paired =>
    refine (tandem_items advances.meets paired).bind fun _ _ _ _ _ later each => ?_
    rw [each.length_eq]
    exact .make le later.meets (.int (later.meets.plain _ rfl))
  | @string d =>
    have counted : Tandem lookup lookup' _ _ _ (Eval.ofExcept d.length) (Eval.ofExcept d.length)
        fun _ _ _ n n' => n' = n := .ofExcept advances.meets (.refl fun _ _ => rfl)
    refine counted.bind fun _ _ _ n n' later same => ?_
    rw [same]
    exact .make le later.meets (.int (later.meets.plain _ rfl))
  | int | bool | name | nameless | function | operation | conditional | nil | cons | wrapped | itemless
  | unknown | datum => exact tandem_notAList le advances.meets whole

omit le abreast in
theorem hushed_valueOf : Hushed (valueOf s t) :=
  traces_valueOf.hushed (silent_valueOf rfl t)

omit le abreast in
theorem hushed_itemsOf {function : String} : Hushed (itemsOf s function t) :=
  traces_itemsOf.hushed (silent_itemsOf rfl function t)

theorem tandem_conjunction (left : Term.Alike l lhs lhs') (right : Term.Alike l rhs rhs') :
    TandemTerm lookup lookup' l w w' (conjunction s lhs rhs) (conjunction s' lhs' rhs') := by
  refine (tandem_valueOf le abreast left).follow abreast hushed_valueOf hushed_valueOf
    fun more _ _ d d' abreast wider same => ?_
  obtain ⟨rfl, fits⟩ := same
  dsimp only
  split
  · exact tandem_truth le (tandem_valueOf le abreast (right.mono wider))
  · exact tandem_truth le (.pure abreast.meets ⟨rfl, fits⟩)

theorem tandem_disjunction (left : Term.Alike l lhs lhs') (right : Term.Alike l rhs rhs') :
    TandemTerm lookup lookup' l w w' (disjunction s lhs rhs) (disjunction s' lhs' rhs') := by
  refine (tandem_valueOf le abreast left).follow abreast hushed_valueOf hushed_valueOf
    fun more _ _ d d' abreast wider same => ?_
  obtain ⟨rfl, fits⟩ := same
  dsimp only
  split
  · exact tandem_truth le (.pure abreast.meets ⟨rfl, fits⟩)
  · exact tandem_truth le (tandem_valueOf le abreast (right.mono wider))

theorem tandem_chain {first first' rest rest' : Term} (head : Term.Alike l first first')
    (others : Term.Alike l rest rest') :
    TandemTerm lookup lookup' l w w' (chain s first rest) (chain s' first' rest') := by
  have made {items : List Term} {s : Settings} : Hushed (Eval.make s (.chain items)) :=
    Traces.make.hushed (.make rfl _)
  refine (Tandem.make le abreast.meets ?_).follow abreast made made fun _ _ _ _ _ abreast _ made =>
    tandem_simplifyNow le abreast made
  have whole := others
  cases others with
  | nil | cons => exact .cons head whole
  | int | bool | string | name | nameless | function | operation | conditional | list | wrapped | itemless
  | unknown | datum => exact .cons head (.cons whole .nil)

theorem tandem_name {id : String} (is : wanted id) : TandemTerm lookup lookup' l w w' (name s id) (name s' id) := by
  have named := abreast.named id is
  have found := abreast.meets.lookups id named
  refine .get ?_
  rw [abreast.here, abreast.there]
  generalize lookup.find? id = here at found ⊢
  generalize lookup'.find? id = there at found ⊢
  cases found with
  | none =>
    refine (tandem_traceRule le abreast.meets fun _ => .refl _).bind fun _ _ _ _ _ advances _ => ?_
    exact .make le advances.meets (.name (advances.wider.names id named))
  | some alike =>
    have shown (_ : s.tracing = true) := (alike.printed_near abreast.meets.relates le.depth).bind fun text =>
      Nears.refl (pure (id ++ ", " ++ text))
    exact (tandem_traceRule le abreast.meets shown).bind fun _ _ _ _ _ advances _ =>
      .pure advances.meets (advances.alike alike)

theorem tandem_sort (alike : Term.Alike l t t') : TandemTerm lookup lookup' l w w' (sort s t) (sort s' t') := by
  refine (tandem_itemsOf le abreast alike).follow abreast hushed_itemsOf hushed_itemsOf
    fun _ _ _ items items' abreast _ each => .get ?_
  rw [abreast.here, abreast.there, Sorting.sort, Sorting.sort, ← each.length_eq]
  refine (Sorting.tandem_sortUpTo le _ abreast.meets each).bind fun _ _ _ _ _ advances sorted => ?_
  exact .makeList le advances.meets sorted

omit abreast in
theorem tandem_item {first first' rest rest' : Term} (meets : Meets lookup lookup' l w w')
    (head : Term.Alike l first first') (others : Term.Alike l rest rest') :
    TandemTerm lookup lookup' l w w' (item s first rest) (item s' first' rest') := by
  have listed {x x' : Eval (List Term)} (items : Tandem lookup lookup' l w w' x x' fun more _ _ out out' =>
      List.Forall₂ (Term.Alike more) out out') :
      TandemTerm lookup lookup' l w w' (do
        let items ← x
        let t ← Eval.makeList s (first :: items)
        traceDumped s "Rule: expr COMMA comma_sep_list -> comma_sep_list" t
        pure t) (do
        let items ← x'
        let t ← Eval.makeList s' (first' :: items)
        traceDumped s' "Rule: expr COMMA comma_sep_list -> comma_sep_list" t
        pure t) := by
    refine items.bind fun _ _ _ _ _ advances each => ?_
    refine (Tandem.makeList le advances.meets (.cons (advances.alike head) each)).bind
      fun _ _ _ _ _ advances made => ?_
    exact (tandem_traceDumped le advances.meets made).bind fun _ _ _ _ _ advances _ =>
      .pure advances.meets (advances.alike made)
  unfold item
  cases others with
  | list paired => exact listed (tandem_items meets paired)
  | int | bool | string | name | nameless | function | operation | conditional | nil | cons | wrapped | itemless
  | unknown | datum => exact listed (.pure meets .nil)

end

end Meaning

/-! ## Rules -/

namespace Meaning

/-- Meanings of symbols in a row, for two worlds: the same tokens, which are of some sort, and terms that are alike. -/
def Rows (l : Likeness) (tokens : Token → Prop) : List Symbol → List Meaning → List Meaning → Prop
  | [], row, row' => row = [] ∧ row' = []
  | .terminal _ :: symbols, row, row' => ∃ t rest rest', row = .token t :: rest ∧ row' = .token t :: rest' ∧
    tokens t ∧ Rows l tokens symbols rest rest'
  | .nonterminal _ :: symbols, row, row' => ∃ t t' rest rest', row = .term t :: rest ∧ row' = .term t' :: rest' ∧
    Term.Alike l t t' ∧ Rows l tokens symbols rest rest'

theorem Rows.mono {tokens others : Token → Prop} {symbols : List Symbol} {row row' : List Meaning} (wider : l.Le more)
    (all : ∀ t, tokens t → others t) (rows : Rows l tokens symbols row row') : Rows more others symbols row row' := by
  induction symbols generalizing row row' with
  | nil => exact rows
  | cons symbol symbols ih =>
    cases symbol with
    | terminal kind =>
      obtain ⟨t, rest, rest', here, there, is, rows⟩ := rows
      exact ⟨t, rest, rest', here, there, all t is, ih rows⟩
    | nonterminal phrase =>
      obtain ⟨t, t', rest, rest', here, there, alike, rows⟩ := rows
      exact ⟨t, t', rest, rest', here, there, alike.mono wider, ih rows⟩

/-- Meanings of a phrase that are terms which are alike. -/
abbrev TandemPhrase (lookup lookup' : Lookup) (l : Likeness) (w w' : World) (x x' : Eval Meaning) : Prop :=
  Tandem lookup lookup' l w w' x x' fun more _ _ m m' => ∃ t t', m = .term t ∧ m' = .term t' ∧ Term.Alike more t t'

section

private theorem tandem_found {x x' : Eval Term} (tandem : TandemTerm lookup lookup' l w w' x x') :
    TandemPhrase lookup lookup' l w w' (do let t ← x; pure (.term t)) (do let t ← x'; pure (.term t)) :=
  tandem.bind fun _ _ _ t t' advances alike => .pure advances.meets ⟨t, t', rfl, rfl, alike⟩

include le

private theorem tandem_shown {rule : String} {x x' : Eval Term} (tandem : TandemTerm lookup lookup' l w w' x x') :
    TandemPhrase lookup lookup' l w w' (do let t ← x; traceDumped s rule t; pure (.term t))
      (do let t ← x'; traceDumped s' rule t; pure (.term t)) := by
  refine tandem.bind fun _ _ _ t t' advances alike => ?_
  refine (tandem_traceDumped le advances.meets alike).bind fun _ _ _ _ _ advances _ => ?_
  exact .pure advances.meets ⟨t, t', rfl, rfl, advances.alike alike⟩

private theorem tandem_told {rule : String} {shown shown' : Store → Except Error String} {x x' : Eval Term}
    (meets : Meets lookup lookup' l w w') (near : Nears (shown w.store) (shown' w'.store))
    (next : ∀ more after after', Advances lookup lookup' l w w' more after after' →
      TandemTerm lookup lookup' more after after' x x') :
    TandemPhrase lookup lookup' l w w' (do traceRule s rule shown; let t ← x; pure (.term t))
      (do traceRule s' rule shown'; let t ← x'; pure (.term t)) :=
  (tandem_traceRule le meets fun _ => near).bind fun more after after' _ _ advances _ =>
    tandem_found (next more after after' advances)

private theorem tandem_passed {rule : String} {shown shown' : Store → Except Error String}
    (meets : Meets lookup lookup' l w w') (near : Nears (shown w.store) (shown' w'.store))
    (alike : Term.Alike l t t') :
    TandemPhrase lookup lookup' l w w' (do traceRule s rule shown; pure (.term t))
      (do traceRule s' rule shown'; pure (.term t')) :=
  (tandem_traceRule le meets fun _ => near).bind fun _ _ _ _ _ advances _ =>
    .pure advances.meets ⟨t, t', rfl, rfl, advances.alike alike⟩

/-- The rule of an expression makes terms that are alike of such terms, if the names that it looks up are wanted. -/
theorem tandem_ofRule {rule : Rule} (expression : rule.lhs ≠ .statement) {tokens : Token → Prop}
    {row row' : List Meaning} (abreast : Abreast wanted lookup lookup' l w w')
    (rows : Rows l tokens rule.rhs row row') (named : rule = .name → ∀ t, tokens t → wanted t.text) :
    TandemPhrase lookup lookup' l w w' (ofRule s rule row) (ofRule s' rule row') := by
  have meets := abreast.meets
  have dumped {t t' : Term} (alike : Term.Alike l t t') := alike.dumped_near meets.relates le.depth
  have printed {t t' : Term} (alike : Term.Alike l t t') := alike.printed_near meets.relates le.depth
  cases rule with
  | append | dump | print | assign => exact absurd rfl expression
  | lastInChain | termExpr =>
    obtain ⟨_, _, _, _, rfl, rfl, alike, rfl, rfl⟩ := rows
    exact tandem_passed le meets (printed alike) alike
  | factorTerm | listExpr =>
    obtain ⟨_, _, _, _, rfl, rfl, alike, rfl, rfl⟩ := rows
    exact tandem_passed le meets (dumped alike) alike
  | parenthesized =>
    obtain ⟨_, _, _, rfl, rfl, -, _, _, _, _, rfl, rfl, alike, _, _, _, rfl, rfl, -, rfl, rfl⟩ := rows
    exact tandem_passed le meets (printed alike) alike
  | listOf =>
    obtain ⟨_, _, _, rfl, rfl, -, _, _, _, _, rfl, rfl, alike, _, _, _, rfl, rfl, -, rfl, rfl⟩ := rows
    exact tandem_passed le meets (dumped alike) alike
  | chain =>
    obtain ⟨_, _, _, _, rfl, rfl, head, _, _, _, rfl, rfl, -, _, _, _, _, rfl, rfl, others, rfl, rfl⟩ := rows
    exact tandem_shown le (tandem_chain le abreast head others)
  | function =>
    obtain ⟨_, _, _, rfl, rfl, -, _, _, _, rfl, rfl, -, others⟩ := rows
    obtain ⟨_, _, _, rfl, rfl, -, _, _, _, _, rfl, rfl, alike, rfl, rfl⟩ := others
    exact tandem_shown le (.make le meets (.function (meets.plain _ rfl) alike))
  | sum | product =>
    obtain ⟨_, _, _, _, rfl, rfl, left, op, _, _, rfl, rfl, -, _, _, _, _, rfl, rfl, right, rfl, rfl⟩ := rows
    exact tandem_shown le (tandem_arithmetic le (references_ofSymbol op.text) meets left right)
  | equality =>
    obtain ⟨_, _, _, _, rfl, rfl, left, op, _, _, rfl, rfl, -, _, _, _, _, rfl, rfl, right, rfl, rfl⟩ := rows
    exact tandem_shown le (tandem_equality le (references_ofSymbol op.text) meets left right)
  | comparison =>
    obtain ⟨_, _, _, _, rfl, rfl, left, op, _, _, rfl, rfl, -, _, _, _, _, rfl, rfl, right, rfl, rfl⟩ := rows
    exact tandem_shown le (tandem_comparison le (references_ofSymbol op.text) meets left right)
  | conditional =>
    obtain ⟨_, _, _, rfl, rfl, -, _, _, _, _, rfl, rfl, decides, _, _, _, rfl, rfl, -, others⟩ := rows
    obtain ⟨_, _, _, _, rfl, rfl, first, _, _, _, rfl, rfl, -, _, _, _, _, rfl, rfl, second, others⟩ := others
    obtain ⟨_, _, _, rfl, rfl, -, rfl, rfl⟩ := others
    exact tandem_shown le (tandem_conditional le meets decides first second)
  | number =>
    obtain ⟨t, _, _, rfl, rfl, -, rfl, rfl⟩ := rows
    exact tandem_told le meets (.refl _) fun _ _ _ advances =>
      .make le advances.meets (.int (advances.meets.plain _ (references_datum t)))
  | string =>
    obtain ⟨t, _, _, rfl, rfl, -, rfl, rfl⟩ := rows
    exact tandem_found (.make le meets (.string (meets.plain _ (references_datum t))))
  | name =>
    obtain ⟨t, _, _, rfl, rfl, is, rfl, rfl⟩ := rows
    exact tandem_found (tandem_name le abreast (named rfl t is))
  | emptyList =>
    obtain ⟨_, _, _, rfl, rfl, -, _, _, _, rfl, rfl, -, rfl, rfl⟩ := rows
    exact tandem_told le meets (.refl _) fun _ _ _ advances => .makeList le advances.meets .nil
  | lastItem =>
    obtain ⟨_, _, _, _, rfl, rfl, alike, rfl, rfl⟩ := rows
    exact tandem_told le meets ((dumped alike).bind fun _ => .refl _) fun _ _ _ advances =>
      .makeList le advances.meets (.cons (advances.alike alike) .nil)
  | item =>
    obtain ⟨_, _, _, _, rfl, rfl, head, _, _, _, rfl, rfl, -, _, _, _, _, rfl, rfl, others, rfl, rfl⟩ := rows
    exact tandem_found (tandem_item le meets head others)
  | head =>
    obtain ⟨_, _, _, rfl, rfl, -, _, _, _, rfl, rfl, -, _, _, _, _, rfl, rfl, alike, rfl, rfl⟩ := rows
    exact tandem_found (tandem_head le abreast alike)
  | tail =>
    obtain ⟨_, _, _, rfl, rfl, -, _, _, _, rfl, rfl, -, _, _, _, _, rfl, rfl, alike, rfl, rfl⟩ := rows
    exact tandem_found (tandem_tail le abreast alike)
  | sort =>
    obtain ⟨_, _, _, rfl, rfl, -, _, _, _, rfl, rfl, -, _, _, _, _, rfl, rfl, alike, rfl, rfl⟩ := rows
    exact tandem_found (tandem_sort le abreast alike)
  | length =>
    obtain ⟨_, _, _, rfl, rfl, -, _, _, _, rfl, rfl, -, _, _, _, _, rfl, rfl, alike, rfl, rfl⟩ := rows
    exact tandem_found (tandem_length le abreast alike)
  | sign =>
    obtain ⟨_, _, _, rfl, rfl, -, _, _, _, _, rfl, rfl, alike, rfl, rfl⟩ := rows
    exact tandem_found (tandem_sign le meets alike)
  | conjunction =>
    obtain ⟨_, _, _, _, rfl, rfl, left, _, _, _, rfl, rfl, -, _, _, _, _, rfl, rfl, right, rfl, rfl⟩ := rows
    exact tandem_found (tandem_conjunction le abreast left right)
  | disjunction =>
    obtain ⟨_, _, _, _, rfl, rfl, left, _, _, _, rfl, rfl, -, _, _, _, _, rfl, rfl, right, rfl, rfl⟩ := rows
    exact tandem_found (tandem_disjunction le abreast left right)
  | negation =>
    obtain ⟨_, _, _, rfl, rfl, -, _, _, _, _, rfl, rfl, alike, rfl, rfl⟩ := rows
    exact tandem_found (tandem_negation le abreast alike)

end

end Meaning

/-! ## Trees -/

namespace Phrase

variable (abreast : Abreast (fun _ => True) lookup lookup' l w w') (untraced : s.tracing = false)
include le abreast

theorem tandem_dyad (op : Dyad) (left : Term.Alike l lhs lhs') (right : Term.Alike l rhs rhs') :
    TandemTerm lookup lookup' l w w' (op.evaluate s lhs rhs) (op.evaluate s' lhs' rhs') := by
  cases op with
  | add | sub | mul | div => exact Meaning.tandem_arithmetic le rfl abreast.meets left right
  | eq | ne => exact Meaning.tandem_equality le rfl abreast.meets left right
  | lt | le | gt | ge => exact Meaning.tandem_comparison le rfl abreast.meets left right
  | both => exact Meaning.tandem_conjunction le abreast left right
  | either => exact Meaning.tandem_disjunction le abreast left right

theorem tandem_builtin (f : Builtin) (alike : Term.Alike l t t') :
    TandemTerm lookup lookup' l w w' (f.evaluate s t) (f.evaluate s' t') := by
  cases f with
  | head => exact Meaning.tandem_head le abreast alike
  | tail => exact Meaning.tandem_tail le abreast alike
  | sort => exact Meaning.tandem_sort le abreast alike
  | length => exact Meaning.tandem_length le abreast alike

include untraced in
/-- The value of a tree is found alike in both worlds. -/
theorem tandem_evaluate {form : Form} (e : Phrase form) :
    TandemTerm lookup lookup' l w w' (e.evaluate s) (e.evaluate s') := by
  have silent {form : Form} (e : Phrase form) := (e.silent_evaluate untraced).hushed
  have silent' {form : Form} (e : Phrase form) := (e.silent_evaluate (le.untraced untraced)).hushed
  induction e generalizing l w w' with
  | number n => exact .make le abreast.meets (.int (abreast.meets.plain _ rfl))
  | string text => exact .make le abreast.meets (.string (abreast.meets.plain _ rfl))
  | name id => exact Meaning.tandem_name le abreast trivial
  | group _ ih | list _ ih | alone _ ih | argument _ ih => exact ih abreast
  | sign minus _ ih =>
    exact (ih abreast).bind fun _ _ _ _ _ advances alike => Meaning.tandem_sign le advances.meets alike
  | dyad op lhs rhs left right =>
    refine (left abreast).follow abreast (silent lhs) (silent' lhs) fun _ _ _ _ _ abreast _ here => ?_
    refine (right abreast).follow abreast (silent rhs) (silent' rhs) fun _ _ _ _ _ abreast wider there => ?_
    exact tandem_dyad le abreast op (here.mono wider) there
  | negation operand ih =>
    refine (ih abreast).follow abreast (silent operand) (silent' operand) fun _ _ _ _ _ abreast _ alike => ?_
    exact Meaning.tandem_negation le abreast alike
  | conditional condition yes no decides first second =>
    refine (decides abreast).follow abreast (silent condition) (silent' condition) fun _ _ _ _ _ abreast _ here => ?_
    refine (first abreast).follow abreast (silent yes) (silent' yes) fun _ _ _ _ _ abreast early there => ?_
    refine (second abreast).bind fun _ _ _ _ _ advances otherwise => ?_
    exact Meaning.tandem_conditional le advances.meets (advances.alike (here.mono early)) (advances.alike there)
      otherwise
  | function y body ih =>
    refine (ih abreast).bind fun _ _ _ _ _ advances alike => ?_
    exact .make le advances.meets (.function (advances.meets.plain _ rfl) alike)
  | builtin f argument ih =>
    refine (ih abreast).follow abreast (silent argument) (silent' argument) fun _ _ _ _ _ abreast _ alike => ?_
    exact tandem_builtin le abreast f alike
  | emptyList => exact .makeList le abreast.meets .nil
  | application first rest head others | arguments first rest head others =>
    refine (head abreast).follow abreast (silent first) (silent' first) fun _ _ _ _ _ abreast _ here => ?_
    refine (others abreast).follow abreast (silent rest) (silent' rest) fun _ _ _ _ _ abreast wider there => ?_
    exact Meaning.tandem_chain le abreast (here.mono wider) there
  | item last ih =>
    exact (ih abreast).bind fun _ _ _ _ _ advances alike => .makeList le advances.meets (.cons alike .nil)
  | items first rest head others =>
    refine (head abreast).follow abreast (silent first) (silent' first) fun _ _ _ _ _ abreast _ here => ?_
    refine (others abreast).follow abreast (silent rest) (silent' rest) fun _ _ _ _ _ abreast wider there => ?_
    exact Meaning.tandem_item le abreast.meets (here.mono wider) there

end Phrase

end DotLambda
