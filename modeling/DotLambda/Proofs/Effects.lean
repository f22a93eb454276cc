import DotLambda.Session
import DotLambda.Proofs.Frame

/-!
What the rules of the grammar change. Main statements: the rule of an expression changes no variable and
no list that there was, whether it succeeds or fails; the rule of a statement that fails changes nothing
either, and one that succeeds changes what the statement names.
-/

namespace DotLambda

open Eval

variable {w : World} {s : Settings}

/-! ## Sorting -/

namespace Sorting

open Simplify (Lookup)

variable {α : Type} {lookup : Lookup} {term : α → Term}

theorem frames_precedes {a b : Term} (closed : w.Closed) (known : lookup.Within w.store.size)
    (first : a.Within w.store.size) (second : b.Within w.store.size) :
    Frames w (precedes s lookup a b) fun _ _ => True := by
  refine (Simplify.frames_simplify closed known first).bind fun l _ grows closed _ => ?_
  refine (Simplify.frames_simplify closed (grows.lookup known) (grows.within second)).bind
    fun r _ _ closed _ => ?_
  split
  · exact .ofExcept closed fun _ _ => trivial
  · exact .throw closed

private theorem mem_of_cons {a : α} {m : Merge α} {left right out : List α}
    (known : ∀ rest, m.outcome = .ok rest → ∀ b ∈ rest, b ∈ left ∨ b ∈ right)
    (merged : (m.cons a).outcome = .ok out) {b : α} (member : b ∈ out) :
    b = a ∨ b ∈ left ∨ b ∈ right := by
  cases ended : m.outcome with
  | error e => simp [Merge.cons, ended, Except.map] at merged
  | ok rest =>
    simp only [Merge.cons, ended, Except.map, Except.ok.injEq] at merged
    subst merged
    rcases List.mem_cons.1 member with here | later
    · exact .inl here
    · exact .inr (known rest ended b later)

/-- Merging leaves all as it was and makes up no items. -/
theorem frames_mergeUpTo (count : Nat) {left right : List α} (closed : w.Closed)
    (known : lookup.Within w.store.size) (withinLeft : ∀ a ∈ left, (term a).Within w.store.size)
    (withinRight : ∀ a ∈ right, (term a).Within w.store.size) :
    Frames w (mergeUpTo s lookup term count left right) fun _ m =>
      ∀ out, m.outcome = .ok out → ∀ a ∈ out, a ∈ left ∨ a ∈ right := by
  induction count generalizing w left right with
  | zero =>
    refine .pure closed ?_
    rintro _ ⟨⟩ a member
    exact List.mem_append.1 member
  | succ count ih =>
    cases left with
    | nil =>
      refine .pure closed ?_
      rintro _ ⟨⟩ a member
      exact .inr member
    | cons a left =>
      cases right with
      | nil =>
        refine .pure closed ?_
        rintro _ ⟨⟩ b member
        exact List.mem_append.1 member
      | cons b right =>
        have first := withinLeft a List.mem_cons_self
        have second := withinRight b List.mem_cons_self
        refine (frames_precedes closed known first second).attempt.bind
          fun order after grows closed _ => ?_
        have known := grows.lookup known
        have withinLeft c member := grows.within (withinLeft c member)
        have withinRight c member := grows.within (withinRight c member)
        split
        · exact .pure closed fun _ failed => nomatch failed
        · refine (ih closed known (fun c member => withinLeft c (List.mem_cons_of_mem a member))
            withinRight).bind fun m _ _ closed fine => .pure closed fun out merged c member => ?_
          rcases mem_of_cons fine merged member with rfl | inLeft | inRight
          · exact .inl List.mem_cons_self
          · exact .inl (List.mem_cons_of_mem a inLeft)
          · exact .inr inRight
        · refine (ih closed known withinLeft
            fun c member => withinRight c (List.mem_cons_of_mem b member)).bind
              fun m _ _ closed fine => .pure closed fun out merged c member => ?_
          rcases mem_of_cons fine merged member with rfl | inLeft | inRight
          · exact .inr List.mem_cons_self
          · exact .inl inLeft
          · exact .inr (List.mem_cons_of_mem b inRight)

/-- Sorting leaves all as it was and makes up no items. -/
theorem frames_sortUpTo (depth : Nat) {items : List α} (closed : w.Closed)
    (known : lookup.Within w.store.size) (within : ∀ a ∈ items, (term a).Within w.store.size) :
    Frames w (sortUpTo s lookup term depth items) fun _ out => ∀ a ∈ out, a ∈ items := by
  induction depth generalizing w items with
  | zero => exact .pure closed fun _ member => member
  | succ depth ih =>
    unfold sortUpTo
    split
    · exact .pure closed fun _ member => member
    · refine (ih closed known fun a member => within a (List.mem_of_mem_take member)).bind
        fun left _ first closed fromLeft => ?_
      refine (ih closed (first.lookup known) fun a member =>
        first.within (within a (List.mem_of_mem_drop member))).bind
          fun right _ second closed fromRight => ?_
      have grows := first.trans second
      have merges := @frames_mergeUpTo _ s α lookup term (left.length + right.length) left right closed
        (grows.lookup known)
        (fun a member => grows.within (within a (List.mem_of_mem_take (fromLeft a member))))
        (fun a member => grows.within (within a (List.mem_of_mem_drop (fromRight a member))))
      refine merges.bind fun m _ _ closed fine => .ofExcept closed fun out merged a member => ?_
      rcases fine out merged a member with inLeft | inRight
      · exact List.mem_of_mem_take (fromLeft a inLeft)
      · exact List.mem_of_mem_drop (fromRight a inRight)

end Sorting

/-! ## Expressions -/

namespace Meaning

theorem references_ofSymbol (symbol : String) : (Operator.ofSymbol symbol).sign.references = [] := by
  rw [Operator.sign_ofSymbol]
  rfl

variable {r : Region} {lhs rhs t : Term}

theorem adds_simplifyNow (inside : w.In r) (here : t.In r w.store) : AddsTerm r w (simplifyNow s t) :=
  .get ((Simplify.makes_simplify_replace s r _ _).1 inside.closed inside.bindings here)

theorem frames_simplifyNow (closed : w.Closed) (within : t.Within w.store.size) :
    FramesTerm w (simplifyNow s t) :=
  adds_simplifyNow closed.whole within

private theorem adds_operation (symbol : String) (closed : w.Closed) (left : lhs.In r w.store)
    (right : rhs.In r w.store) : AddsTerm r w (Eval.make s (.operation lhs (.ofSymbol symbol) rhs)) :=
  .make closed (Term.among_operation.2 ⟨left, references_ofSymbol symbol, right⟩)

theorem adds_arithmetic {symbol : String} (closed : w.Closed) (left : lhs.In r w.store)
    (right : rhs.In r w.store) : AddsTerm r w (arithmetic s lhs (.ofSymbol symbol) rhs) := by
  unfold arithmetic
  split
  · exact Simplify.adds_literal closed fun d plain _ => Term.among_int.2 plain
  · exact adds_operation symbol closed left right

theorem adds_comparison {symbol : String} (closed : w.Closed) (left : lhs.In r w.store)
    (right : rhs.In r w.store) : AddsTerm r w (comparison s lhs (.ofSymbol symbol) rhs) := by
  unfold comparison
  split
  · exact Simplify.adds_literal closed fun d plain _ => Term.among_bool.2 plain
  · exact adds_operation symbol closed left right

theorem adds_equality {symbol : String} (closed : w.Closed) (left : lhs.In r w.store)
    (right : rhs.In r w.store) : AddsTerm r w (equality s lhs (.ofSymbol symbol) rhs) := by
  unfold equality
  split
  · exact Simplify.adds_literal closed fun d plain _ => Term.among_bool.2 plain
  · exact Simplify.adds_literal closed fun d plain _ => Term.among_bool.2 plain
  · exact adds_operation symbol closed left right

theorem adds_conditional {condition yes no : Term} (closed : w.Closed) (first : condition.In r w.store)
    (second : yes.In r w.store) (third : no.In r w.store) :
    AddsTerm r w (conditional s condition yes no) := by
  unfold conditional
  split
  · refine .pure closed ?_
    split
    · exact second
    · exact third
  · exact .make closed (Term.among_conditional.2 ⟨first, second, third⟩)

theorem adds_chain {first rest : Term} (inside : w.In r) (here : first.In r w.store)
    (later : rest.In r w.store) : AddsTerm r w (chain s first rest) := by
  refine Adds.bind (.make inside.closed (Term.among_chain.2 ?_)) fun t _ grows closed made =>
    adds_simplifyNow (inside.grow grows closed) made
  split
  · exact List.forall_mem_cons.2 ⟨here, Term.among_chain.1 later⟩
  · exact List.forall_mem_cons.2 ⟨here, List.forall_mem_singleton.2 later⟩

theorem adds_name {id : String} (inside : w.In r) : AddsTerm r w (name s id) := by
  refine .get ?_
  split
  · rename_i t bound
    have here := inside.bindings id t bound
    exact (Adds.trace inside.closed).bind fun _ _ grows closed _ => .pure closed (grows.carry here)
  · exact (Adds.trace inside.closed).bind fun _ _ _ closed _ => .make closed Term.among_name

theorem references_of_value {size : Nat} {t : Term} {d : Datum} (within : t.Within size)
    (holds : t.value = .ok d) : d.references = [] := by
  cases t with
  | int value | bool value | string value =>
    cases holds
    simpa using within
  | name | nameless | function | operation | conditional | chain | list | wrapped | itemless | unknown
  | datum => exact nomatch holds

theorem frames_valueOf (closed : w.Closed) (within : t.Within w.store.size) :
    Frames w (valueOf s t) fun _ d => d.references = [] :=
  (frames_simplifyNow closed within).bind fun _ _ _ closed fine =>
    .ofExcept closed fun _ holds => references_of_value fine holds

private theorem adds_truth {x : Eval Datum} (frames : Frames w x fun _ d => d.references = []) :
    AddsTerm r w (do let value ← x; Eval.make s (.bool value)) :=
  frames.adds.bind fun _ _ _ closed plain => .make closed (Term.among_bool.2 plain)

theorem adds_conjunction (closed : w.Closed) (left : lhs.Within w.store.size)
    (right : rhs.Within w.store.size) : AddsTerm r w (conjunction s lhs rhs) := by
  refine (frames_valueOf closed left).adds.bind fun l _ grows closed plain => ?_
  dsimp only
  split
  · exact adds_truth (frames_valueOf closed (grows.within right))
  · exact adds_truth (.pure closed plain)

theorem adds_disjunction (closed : w.Closed) (left : lhs.Within w.store.size)
    (right : rhs.Within w.store.size) : AddsTerm r w (disjunction s lhs rhs) := by
  refine (frames_valueOf closed left).adds.bind fun l _ grows closed plain => ?_
  dsimp only
  split
  · exact adds_truth (.pure closed plain)
  · exact adds_truth (frames_valueOf closed (grows.within right))

theorem adds_negation (closed : w.Closed) (within : t.Within w.store.size) : AddsTerm r w (negation s t) :=
  (frames_valueOf closed within).adds.bind fun _ _ _ closed _ => .make closed (Term.among_bool.2 rfl)

theorem adds_sign {symbol : String} (closed : w.Closed) (here : t.In r w.store) :
    AddsTerm r w (sign s symbol t) := by
  unfold sign
  split
  · have nought : AddsTerm r w (Eval.make s (.int (.int 0))) := .make closed (Term.among_int.2 rfl)
    refine nought.bind fun _ _ grows closed fine => ?_
    exact .make closed (Term.among_operation.2 ⟨fine, rfl, grows.carry here⟩)
  · exact .pure closed here

/-! ## Lists -/

theorem adds_notAList {α : Type} {function : String} {good : Store → α → Prop} (closed : w.Closed) :
    Adds w (notAList s function t) good :=
  (Adds.look closed).bind fun _ _ _ closed _ => .throw closed

theorem adds_items {cell : Nat} (closed : w.Closed) (listed : (Term.list cell).In r w.store) :
    AddsTerms r w (Eval.examine fun store => pure (store.items cell)) := by
  refine .examine closed ?_
  rintro _ ⟨⟩
  exact r.items closed.store (Term.among_list.1 listed)

theorem adds_itemsOf {function : String} (inside : w.In r) (here : t.In r w.store) :
    AddsTerms r w (itemsOf s function t) := by
  refine (adds_simplifyNow inside here).bind fun t _ _ closed fine => ?_
  split
  · exact adds_items closed fine
  · exact adds_notAList closed

theorem adds_head (inside : w.In r) (here : t.In r w.store) : AddsTerm r w (head s t) := by
  refine (adds_itemsOf inside here).bind fun items _ _ closed fine => ?_
  split
  · exact .throw closed
  · exact .pure closed (fine _ List.mem_cons_self)

theorem adds_tail (inside : w.In r) (here : t.In r w.store) : AddsTerm r w (tail s t) :=
  (adds_itemsOf inside here).bind fun _ _ _ closed fine =>
    .makeList closed fun t member => fine t (List.mem_of_mem_drop member)

theorem adds_sort (inside : w.In r) (here : t.In r w.store) : AddsTerm r w (sort s t) := by
  refine (adds_itemsOf inside here).bind fun items _ _ closed fine => .get ?_
  refine (Sorting.frames_sortUpTo items.length closed closed.bindings fun t member =>
    (fine t member).within).adds.bind fun sorted _ grows closed fromItems => ?_
  exact .makeList closed fun t member => grows.carry (fine t (fromItems t member))

theorem adds_length (closed : w.Closed) (within : t.Within w.store.size) : AddsTerm r w (length s t) := by
  refine (frames_simplifyNow closed within).adds.bind fun t _ _ closed _ => ?_
  split
  · exact (Adds.look closed).bind fun _ _ _ closed _ => .make closed (Term.among_int.2 rfl)
  · have counted {value : Datum} : Adds _ (Eval.ofExcept value.length) fun _ _ => True :=
      .ofExcept closed fun _ _ => trivial
    exact counted.bind fun _ _ _ closed _ => .make closed (Term.among_int.2 rfl)
  · exact adds_notAList closed

theorem adds_item {first rest : Term} (closed : w.Closed) (here : first.In r w.store)
    (later : rest.In r w.store) : AddsTerm r w (item s first rest) := by
  have listed {x : Eval (List Term)} (others : AddsTerms r w x) : AddsTerm r w (do
      let items ← x
      let t ← Eval.makeList s (first :: items)
      traceDumped s "Rule: expr COMMA comma_sep_list -> comma_sep_list" t
      pure t) := by
    refine others.bind fun items _ grows closed fine => ?_
    refine Adds.bind (.makeList closed (List.forall_mem_cons.2 ⟨grows.carry here, fine⟩))
      fun t _ _ closed made => ?_
    exact (Adds.trace closed).bind fun _ _ grows closed _ => .pure closed (grows.carry made)
  unfold item
  dsimp only
  split
  · exact listed (adds_items closed later)
  · exact listed (.pure closed fun _ member => nomatch member)

/-! ## Rules -/

/-- A meaning that a symbol may have: a token is itself, and a phrase is a term of the store or, if it is a
statement, done. -/
inductive Suits (size : Nat) : Symbol → Meaning → Prop
  | token {kind : Kind} (t : Token) : Suits size (.terminal kind) (.token t)
  | term {phrase : Nonterminal} {t : Term} (other : phrase ≠ .statement) (within : t.Within size) :
    Suits size (.nonterminal phrase) (.term t)
  | done (result : Option Term) : Suits size (.nonterminal .statement) (.done result)

theorem Suits.mono {size more : Nat} {symbol : Symbol} {m : Meaning} (suits : Suits size symbol m)
    (le : size ≤ more) : Suits more symbol m := by
  cases suits with
  | token t => exact .token t
  | term other within => exact .term other (within.mono fun _ old => Nat.lt_of_lt_of_le old le)
  | done result => exact .done result

/-- Meanings that symbols in a row may have. -/
def Fills (size : Nat) : List Symbol → List Meaning → Prop
  | [], meanings => meanings = []
  | .terminal _ :: symbols, meanings => ∃ t rest, meanings = .token t :: rest ∧ Fills size symbols rest
  | .nonterminal .statement :: symbols, meanings =>
    ∃ result rest, meanings = .done result :: rest ∧ Fills size symbols rest
  | .nonterminal _ :: symbols, meanings =>
    ∃ t rest, meanings = .term t :: rest ∧ t.Within size ∧ Fills size symbols rest

theorem Fills.cons {size : Nat} {symbol : Symbol} {symbols : List Symbol} {m : Meaning}
    {meanings : List Meaning} (suits : Suits size symbol m) (fills : Fills size symbols meanings) :
    Fills size (symbol :: symbols) (m :: meanings) := by
  cases suits with
  | token t => exact ⟨t, meanings, rfl, fills⟩
  | done result => exact ⟨result, meanings, rfl, fills⟩
  | @term phrase t other within =>
    cases phrase with
    | statement => exact absurd rfl other
    | exprList | expr | term | factor | list | items => exact ⟨t, meanings, rfl, within, fills⟩

/-- A meaning that holds only lists of a kind, if it is a term. -/
def In (r : Region) (store : Store) : Meaning → Prop
  | .term t => t.In r store
  | .token _ | .done _ => True

theorem Fills.inside {store : Store} {symbols : List Symbol} {meanings : List Meaning}
    (fills : Fills store.size symbols meanings) : ∀ m ∈ meanings, m.In .whole store := by
  induction symbols generalizing meanings with
  | nil =>
    subst fills
    simp
  | cons symbol symbols ih =>
    cases symbol with
    | terminal kind =>
      obtain ⟨_, _, rfl, fills⟩ := fills
      exact List.forall_mem_cons.2 ⟨trivial, ih fills⟩
    | nonterminal phrase =>
      cases phrase with
      | statement =>
        obtain ⟨_, _, rfl, fills⟩ := fills
        exact List.forall_mem_cons.2 ⟨trivial, ih fills⟩
      | exprList | expr | term | factor | list | items =>
        obtain ⟨_, _, rfl, within, fills⟩ := fills
        exact List.forall_mem_cons.2 ⟨within, ih fills⟩

/-- An evaluation of a phrase to a term that holds only lists of a kind. -/
abbrev AddsMeaning (r : Region) (w : World) (x : Eval Meaning) : Prop :=
  Adds w x fun store m => ∃ t, m = .term t ∧ t.In r store

private theorem adds_found {x : Eval Term} (adds : AddsTerm r w x) :
    AddsMeaning r w (do let t ← x; pure (.term t)) :=
  adds.bind fun t _ _ closed inside => .pure closed ⟨t, rfl, inside⟩

private theorem adds_shown {x : Eval Term} {rule : String} (adds : AddsTerm r w x) :
    AddsMeaning r w (do let t ← x; traceDumped s rule t; pure (.term t)) :=
  adds.bind fun t _ _ closed inside => (Adds.trace closed).bind fun _ _ grows closed _ =>
    .pure closed ⟨t, rfl, grows.carry inside⟩

private theorem adds_told {rule : String} {shown : Store → Except Error String} {x : Eval Term}
    (adds : ∀ after, w.Grows after → after.Closed → AddsTerm r after x) (closed : w.Closed) :
    AddsMeaning r w (do traceRule s rule shown; let t ← x; pure (.term t)) :=
  (Adds.trace closed).bind fun _ after grows closed _ => adds_found (adds after grows closed)

private theorem adds_passed {rule : String} {shown : Store → Except Error String} (closed : w.Closed)
    (here : t.In r w.store) : AddsMeaning r w (do traceRule s rule shown; pure (.term t)) :=
  (Adds.trace closed).bind fun _ _ grows closed _ => .pure closed ⟨t, rfl, grows.carry here⟩

theorem references_datum (t : Token) : t.datum.references = [] := by
  unfold Token.datum
  split <;> rfl

/-- The rule of an expression only adds lists, and makes a term with lists of a kind of such terms. -/
theorem adds_ofRule {rule : Rule} (expression : rule.lhs ≠ .statement) {meanings : List Meaning}
    (inside : w.In r) (fills : Fills w.store.size rule.rhs meanings)
    (each : ∀ m ∈ meanings, m.In r w.store) : AddsMeaning r w (ofRule s rule meanings) := by
  have closed := inside.closed
  cases rule with
  | append | dump | print | assign => exact absurd rfl expression
  | lastInChain | termExpr | factorTerm | listExpr =>
    obtain ⟨_, _, rfl, _, rfl⟩ := fills
    simp only [List.forall_mem_cons, In] at each
    exact adds_passed closed each.1
  | parenthesized | listOf =>
    obtain ⟨_, _, rfl, _, _, rfl, _, _, _, rfl, rfl⟩ := fills
    simp only [List.forall_mem_cons, In] at each
    exact adds_passed closed each.2.1
  | chain =>
    obtain ⟨_, _, rfl, _, _, _, rfl, _, _, rfl, _, rfl⟩ := fills
    simp only [List.forall_mem_cons, In] at each
    exact adds_shown (adds_chain inside each.1 each.2.2.1)
  | function =>
    obtain ⟨_, _, rfl, _, _, rfl, _, _, rfl, _, _, rfl, _, rfl⟩ := fills
    simp only [List.forall_mem_cons, In] at each
    exact adds_shown (.make closed (Term.among_function.2 ⟨rfl, each.2.2.2.1⟩))
  | sum | product =>
    obtain ⟨_, _, rfl, _, _, _, rfl, _, _, rfl, _, rfl⟩ := fills
    simp only [List.forall_mem_cons, In] at each
    exact adds_shown (adds_arithmetic closed each.1 each.2.2.1)
  | equality =>
    obtain ⟨_, _, rfl, _, _, _, rfl, _, _, rfl, _, rfl⟩ := fills
    simp only [List.forall_mem_cons, In] at each
    exact adds_shown (adds_equality closed each.1 each.2.2.1)
  | comparison =>
    obtain ⟨_, _, rfl, _, _, _, rfl, _, _, rfl, _, rfl⟩ := fills
    simp only [List.forall_mem_cons, In] at each
    exact adds_shown (adds_comparison closed each.1 each.2.2.1)
  | conditional =>
    obtain ⟨_, _, rfl, _, _, rfl, _, _, _, rfl, others⟩ := fills
    obtain ⟨_, _, rfl, _, _, _, rfl, _, _, rfl, _, _, _, rfl, rfl⟩ := others
    simp only [List.forall_mem_cons, In] at each
    exact adds_shown (adds_conditional closed each.2.1 each.2.2.2.1 each.2.2.2.2.2.1)
  | number =>
    obtain ⟨t, _, rfl, rfl⟩ := fills
    exact adds_told (fun _ _ closed => .make closed (Term.among_int.2 (references_datum t))) closed
  | string =>
    obtain ⟨t, _, rfl, rfl⟩ := fills
    exact adds_found (.make closed (Term.among_string.2 (references_datum t)))
  | name =>
    obtain ⟨_, _, rfl, rfl⟩ := fills
    exact adds_found (adds_name inside)
  | emptyList =>
    obtain ⟨_, _, rfl, _, _, rfl, rfl⟩ := fills
    exact adds_told (fun _ _ closed => .makeList closed fun _ member => nomatch member) closed
  | lastItem =>
    obtain ⟨_, _, rfl, _, rfl⟩ := fills
    simp only [List.forall_mem_cons, In] at each
    exact adds_told (fun _ grows closed =>
      .makeList closed (List.forall_mem_singleton.2 (grows.carry each.1))) closed
  | item =>
    obtain ⟨_, _, rfl, _, _, _, rfl, _, _, rfl, _, rfl⟩ := fills
    simp only [List.forall_mem_cons, In] at each
    exact adds_found (adds_item closed each.1 each.2.2.1)
  | head =>
    obtain ⟨_, _, rfl, _, _, rfl, _, _, rfl, _, rfl⟩ := fills
    simp only [List.forall_mem_cons, In] at each
    exact adds_found (adds_head inside each.2.2.1)
  | tail =>
    obtain ⟨_, _, rfl, _, _, rfl, _, _, rfl, _, rfl⟩ := fills
    simp only [List.forall_mem_cons, In] at each
    exact adds_found (adds_tail inside each.2.2.1)
  | sort =>
    obtain ⟨_, _, rfl, _, _, rfl, _, _, rfl, _, rfl⟩ := fills
    simp only [List.forall_mem_cons, In] at each
    exact adds_found (adds_sort inside each.2.2.1)
  | length =>
    obtain ⟨_, _, rfl, _, _, rfl, _, _, rfl, _, rfl⟩ := fills
    simp only [List.forall_mem_cons, In] at each
    exact adds_found (adds_length closed each.2.2.1.within)
  | sign =>
    obtain ⟨_, _, rfl, _, _, rfl, _, rfl⟩ := fills
    simp only [List.forall_mem_cons, In] at each
    exact adds_found (adds_sign closed each.2.1)
  | conjunction =>
    obtain ⟨_, _, rfl, _, _, _, rfl, _, _, rfl, _, rfl⟩ := fills
    simp only [List.forall_mem_cons, In] at each
    exact adds_found (adds_conjunction closed each.1.within each.2.2.1.within)
  | disjunction =>
    obtain ⟨_, _, rfl, _, _, _, rfl, _, _, rfl, _, rfl⟩ := fills
    simp only [List.forall_mem_cons, In] at each
    exact adds_found (adds_disjunction closed each.1.within each.2.2.1.within)
  | negation =>
    obtain ⟨_, _, rfl, _, _, rfl, _, rfl⟩ := fills
    simp only [List.forall_mem_cons, In] at each
    exact adds_found (adds_negation closed each.2.1.within)

/-- The rule of an expression leaves all as it was, whether it succeeds or fails. -/
theorem frames_ofRule {rule : Rule} (expression : rule.lhs ≠ .statement) {meanings : List Meaning}
    (closed : w.Closed) (fills : Fills w.store.size rule.rhs meanings) :
    Frames w (ofRule s rule meanings) fun size m => Suits size (.nonterminal rule.lhs) m := by
  refine (adds_ofRule expression closed.whole fills fills.inside).mono ?_
  rintro after _ ⟨grows, t, rfl, within⟩
  exact ⟨grows, .term expression within⟩

/-! ## Statements -/

theorem frames_print (closed : w.Closed) (within : t.Within w.store.size) :
    Frames w (print s t) fun _ _ => True :=
  (frames_simplifyNow closed within).bind fun _ _ _ closed _ =>
    (Frames.look closed).bind fun _ _ _ closed _ => .emit closed

theorem frames_dump (closed : w.Closed) : Frames w (dump s) fun _ _ => True :=
  .get (.forM closed fun _ closed _ _ =>
    (Frames.look closed).bind fun _ _ _ closed _ => .emit closed)

theorem commits_assign {id : String} {t : Term} (closed : w.Closed) (within : t.Within w.store.size) :
    Commits w (assign s id t) fun after _ =>
      after.bindings = w.bindings.insert id t ∧ w.store.Extends after.store := by
  refine (Frames.look closed).commits fun _ _ first closed _ => ?_
  refine (Frames.emit closed).commits fun _ middle second closed _ => ?_
  have grows := first.trans second
  have inserted : (middle.bindings.insert id t).Within middle.store.size := by
    intro other u found
    by_cases same : other = id
    · subst same
      rw [Bindings.find?_insert_self] at found
      cases found
      exact grows.within within
    · rw [Bindings.find?_insert_of_ne t _ same] at found
      exact closed.bindings other u found
  exact ⟨⟨closed.store, inserted⟩, congrArg _ grows.bindings_eq, grows.store⟩

theorem commits_append {id : String} {t : Term} (closed : w.Closed) (within : t.Within w.store.size) :
    Commits w (append id t) fun after _ =>
      after.bindings = w.bindings ∧ ∃ cell, w.bindings.find? id = some (.list cell) ∧
        after.store = w.store.append cell t := by
  refine .get ?_
  split
  · rename_i cell bound
    have bindings : w.bindings.Within (w.store.append cell t).size := by
      rw [Store.size_append]
      exact closed.bindings
    exact ⟨⟨closed.store.append within, bindings⟩, rfl, cell, bound, rfl⟩
  · exact ⟨closed, .refl _⟩
  · exact ⟨closed, .refl _⟩

end Meaning

/-- The variables from which a list is not reached are shown as before. -/
def Session.Spares (before after : Session) (cell : Nat) : Prop :=
  ∀ id t, before.bindings.find? id = some t → ¬ before.store.Reaches t cell →
    ∀ depth, before.store.Words after.store depth t

/-- What a statement is to do, and to which variable. -/
inductive Command where
  | print
  | dump
  | assign (id : String)
  | append (id : String)

namespace Command

/-- The command of a statement, by its rule and what its symbols mean. -/
def ofRule : Rule → List Meaning → Command
  | .assign, .token id :: _ => assign id.text
  | .append, _ :: _ :: .token id :: _ => append id.text
  | .dump, _ => dump
  | _, _ => print

/-- What a command changes when it succeeds: an assignment changes what its variable stands for, and an
append the one list for which its variable stands. -/
def Effect (before after : Session) : Command → Prop
  | print | dump => before.Kept after
  | assign id =>
    (∃ t, after.bindings = before.bindings.insert id t) ∧
      (∀ other, other ≠ id → after.bindings.find? other = before.bindings.find? other) ∧
      before.store.Extends after.store
  | append id =>
    after.bindings = before.bindings ∧
      ∃ cell item, before.bindings.find? id = some (.list cell) ∧
        before.store.Appends after.store cell item ∧ before.Spares after cell

theorem Effect.size_le {command : Command} {before after : Session}
    (effect : command.Effect before after) : before.store.size ≤ after.store.size := by
  cases command with
  | print | dump => exact effect.store.size_le
  | assign id => exact effect.2.2.size_le
  | append id =>
    obtain ⟨-, _, _, -, appends, -⟩ := effect
    exact appends.size_le

variable {before : Session}

private theorem effect_assign {after : Session} {id : String} {t : Term}
    (bound : after.bindings = before.bindings.insert id t) (grown : before.store.Extends after.store) :
    (assign id).Effect before after := by
  refine ⟨⟨t, bound⟩, fun other different => ?_, grown⟩
  rw [bound]
  exact Bindings.find?_insert_of_ne t _ different

private theorem effect_append {after : Session} {id : String} {cell : Nat} {item : Term}
    (sound : before.Closed) (same : after.bindings = before.bindings)
    (bound : before.bindings.find? id = some (.list cell))
    (appends : before.store.Appends after.store cell item) : (append id).Effect before after := by
  refine ⟨same, cell, item, bound, appends, fun other t found unreached depth => ?_⟩
  exact Store.words_of_unreached sound.store appends.items_eq (sound.bindings other t found) unreached
    depth

/-- The rule of a statement that fails changes nothing, and one that succeeds has the effect of its
command, also after the evaluation of its expressions. -/
theorem commits_ofRule {rule : Rule} (statement : rule.lhs = .statement) {meanings : List Meaning}
    (sound : before.Closed) (kept : before.Kept w.session) (closed : w.Closed)
    (fills : Meaning.Fills w.store.size rule.rhs meanings) :
    Commits w (Meaning.ofRule s rule meanings) fun after m =>
      (∃ result, m = .done result) ∧ (ofRule rule meanings).Effect before after.session := by
  cases rule with
  | print =>
    obtain ⟨_, _, rfl, _, _, rfl, within, rfl⟩ := fills
    refine ((Meaning.frames_print closed within).map fun _ => Meaning.done none).mono ?_
    rintro after _ ⟨_, rfl, grows, -⟩
    exact ⟨⟨none, rfl⟩, kept.trans grows⟩
  | dump =>
    obtain ⟨_, _, rfl, rfl⟩ := fills
    refine ((Meaning.frames_dump closed).map fun _ => Meaning.done none).mono ?_
    rintro after _ ⟨_, rfl, grows, -⟩
    exact ⟨⟨none, rfl⟩, kept.trans grows⟩
  | assign =>
    obtain ⟨_, _, rfl, _, _, rfl, t, _, rfl, within, rfl⟩ := fills
    refine ((Meaning.commits_assign closed within).map fun _ => Meaning.done none).mono ?_
    rintro after _ ⟨_, rfl, bound, grown⟩
    have rebound : after.bindings = before.bindings.insert _ t :=
      bound.trans (congrArg _ kept.bindings_eq)
    exact ⟨⟨none, rfl⟩, effect_assign rebound (kept.store.trans grown)⟩
  | append =>
    obtain ⟨_, _, rfl, _, _, rfl, id, _, rfl, _, _, rfl, _, _, rfl, within, rfl⟩ := fills
    refine ((Meaning.commits_append closed within).map fun target => Meaning.done (some target)).mono ?_
    rintro after _ ⟨target, rfl, same, cell, bound, grown⟩
    have known : before.bindings.find? id.text = some (.list cell) := by
      rw [← kept.bindings_eq]
      exact bound
    have old : cell < before.store.size :=
      (sound.bindings id.text _ known).cells cell (List.mem_singleton_self cell)
    have appends : before.store.Appends after.store cell _ := grown ▸ kept.store.append _ old
    exact ⟨⟨some target, rfl⟩, effect_append sound (same.trans kept.bindings_eq) known appends⟩
  | _ => exact absurd statement (by decide)

end Command

end DotLambda
