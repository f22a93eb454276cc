import DotLambda.Proofs.ParallelRules

/-!
Evaluation with tracing beside evaluation without it. Main statement: where a line succeeds with tracing, it
succeeds without, with the same result and the same session after it, and writes the same but for the trace.
A line may fail with tracing alone, as a text of the trace cannot always be made.
-/

namespace DotLambda

/-- The same settings without tracing. -/
abbrev Settings.untraced (s : Settings) : Settings := { s with tracing := false }

/-- The same world without what tracing has written. -/
def World.untraced (w : World) : World := { w with output := w.output.filter fun e => !e.isTrace }

namespace Eval

/-- One evaluation traces another: where it succeeds, the other does too, with the same result and in the
same way, but for what tracing has written. -/
def Traces {α : Type} (x y : Eval α) : Prop :=
  ∀ w a after, x w = .ok a after → y w.untraced = .ok a after.untraced

namespace Traces

variable {α β : Type} {x y : Eval α}

theorem pure {a : α} : Traces (pure a) (pure a) := by
  rintro w _ _ ⟨⟩
  rfl

theorem throw {e : Error} : Traces (throw e) y := nofun

theorem bind {f g : α → Eval β} (first : Traces x y) (next : ∀ a, Traces (f a) (g a)) :
    Traces (x >>= f) (y >>= g) := by
  intro w b after ended
  obtain ⟨a, between, started, finished⟩ := ok_of_bind ended
  rw [bind_of_ok (first w a between started)]
  exact next a between b after finished

/-- What is looked up in the world is there without the trace. -/
theorem get {f g : World → Eval β} (next : ∀ w, Traces (f w) (g w.untraced)) :
    Traces (MonadState.get >>= f) (MonadState.get >>= g) :=
  fun w b after ended => next w w b after ended

theorem set {w : World} : Traces (MonadState.set w : Eval PUnit) (MonadState.set w.untraced) := by
  rintro _ _ _ ⟨⟩
  rfl

theorem ofExcept {e : Except Error α} : Traces (Eval.ofExcept e) (Eval.ofExcept e) := by
  cases e with
  | ok a => exact pure
  | error e => exact throw

theorem examine {f : Store → Except Error α} : Traces (Eval.examine f) (Eval.examine f) :=
  get fun _ => ofExcept

/-- What is only looked at can be left out. -/
theorem skip {f : Store → Except Error β} {g : β → Eval α} (next : ∀ b, Traces (g b) y) :
    Traces (Eval.examine f >>= g) y := by
  intro w a after ended
  obtain ⟨b, between, looked, finished⟩ := ok_of_bind ended
  have same : between = w := by
    cases found : f w.store with
    | ok b =>
      have looked : (Eval.ofExcept (f w.store)) w = .ok _ between := looked
      rw [found] at looked
      cases looked
      rfl
    | error e =>
      have looked : (Eval.ofExcept (f w.store)) w = .ok _ between := looked
      rw [found] at looked
      cases looked
  rw [same] at finished
  exact next b w a after finished

theorem emit {e : Event} (shown : e.isTrace = false) : Traces (Eval.emit e) (Eval.emit e) := by
  rintro w _ _ ⟨⟩
  have kept : (w.output.push e).filter (fun e => !e.isTrace) =
      (w.output.filter fun e => !e.isTrace).push e := by
    simp [shown]
  change EStateM.Result.ok () { w.untraced with output := w.untraced.output.push e } = _
  simp only [World.untraced, kept]

theorem emit_trace {color : Color} {text : String} :
    Traces (Eval.emit (.trace color text)) (Pure.pure ()) := by
  rintro w _ _ ⟨⟩
  have dropped : (w.output.push (.trace color text)).filter (fun e => !e.isTrace) =
      w.output.filter fun e => !e.isTrace := by
    simp [Event.isTrace]
  change EStateM.Result.ok () w.untraced = _
  simp only [World.untraced, dropped]

theorem trace {s : Settings} {color : Color} {text : Store → Except Error String} :
    Traces (Eval.trace s color text) (Eval.trace s.untraced color text) := by
  unfold Eval.trace
  split
  · exact skip fun _ => emit_trace
  · exact pure

theorem make {s : Settings} {t : Term} : Traces (Eval.make s t) (Eval.make s.untraced t) :=
  bind trace fun _ => bind trace fun _ => pure

theorem newList {items : List Term} : Traces (Eval.newList items) (Eval.newList items) :=
  get fun _ => bind set fun _ => pure

theorem copy {t : Term} : Traces (Eval.copy t) (Eval.copy t) :=
  get fun _ => bind set fun _ => pure

theorem makeList {s : Settings} {items : List Term} :
    Traces (Eval.makeList s items) (Eval.makeList s.untraced items) :=
  bind trace fun _ => bind newList fun _ => bind trace fun _ => pure

theorem mapM {f g : Term → Eval Term} (each : ∀ t, Traces (f t) (g t)) (items : List Term) :
    Traces (items.mapM f) (items.mapM g) := by
  induction items with
  | nil => exact pure
  | cons t rest ih =>
    rw [List.mapM_cons, List.mapM_cons]
    exact bind (each t) fun _ => bind ih fun _ => pure

theorem forM {f g : α → Eval Unit} (each : ∀ a, Traces (f a) (g a)) (items : List α) :
    Traces (items.forM f) (items.forM g) := by
  induction items with
  | nil => exact pure
  | cons a rest ih => exact bind (each a) fun _ => ih

end Traces

end Eval

open Eval

variable {s : Settings}

/-! ## Simplification -/

namespace Simplify

variable {lookup : Lookup}

theorem traces_contract {f g : Datum → Term → Term → Eval Term}
    (apply : ∀ x value body, Traces (f x value body) (g x value body)) (first : Term) (rest : List Term) :
    Traces (contract lookup f first rest) (contract lookup g first rest) := by
  induction rest generalizing first with
  | nil => exact .pure
  | cons next rest ih =>
    unfold contract
    split
    · exact (apply _ _ _).bind fun result => ih result
    · exact (ih next).bind fun _ => .pure

theorem traces_contractAll {f g : Datum → Term → Term → Eval Term}
    (apply : ∀ x value body, Traces (f x value body) (g x value body)) (items : List Term) :
    Traces (contractAll lookup f items) (contractAll lookup g items) := by
  cases items with
  | nil => exact .pure
  | cons first rest => exact traces_contract apply first rest

theorem traces_resolve {f g : Term → Eval Term} (simplify : ∀ t, Traces (f t) (g t)) (t : Term) :
    Traces (resolve lookup f t) (resolve lookup g t) := by
  unfold resolve
  repeat' split
  · exact simplify _
  · exact .pure
  · exact .pure

theorem traces_compute {op : Operator} {lhs rhs : Term} :
    Traces (compute s op lhs rhs) (compute s.untraced op lhs rhs) := by
  unfold compute
  split
  · exact Traces.examine.bind fun _ => .make
  · exact Traces.examine.bind fun _ => .make
  · exact Traces.examine.bind fun _ => .make
  · exact Traces.examine.bind fun _ => .throw

theorem traces_simplified {f g : Term → Eval Term} {f' g' : Datum → Term → Term → Eval Term}
    (simplify : ∀ t, Traces (f t) (g t)) (replace : ∀ x value t, Traces (f' x value t) (g' x value t))
    (t : Term) : Traces (simplified s lookup f f' t) (simplified s.untraced lookup g g' t) := by
  cases t with
  | int value | bool value | string value => exact .make
  | name id =>
    simp only [simplified]
    repeat' split
    · exact .make
    · exact .make
    · exact simplify _
    · exact .make
  | nameless id =>
    simp only [simplified]
    split
    · exact .throw
    · exact .make
  | function parameter body =>
    exact Traces.examine.bind fun _ => (simplify body).bind fun _ => .make
  | operation lhs op rhs =>
    refine (simplify lhs).bind fun l => (simplify rhs).bind fun r => ?_
    refine (traces_resolve simplify l).bind fun l => (traces_resolve simplify r).bind fun r => ?_
    exact traces_compute
  | conditional condition yes no =>
    refine (simplify condition).bind fun c => ?_
    split
    · split
      · exact simplify yes
      · exact simplify no
    · exact .make
  | chain items =>
    refine (Traces.mapM simplify items).bind fun items => ?_
    refine (traces_contractAll replace items).bind fun items => ?_
    split
    · exact simplify _
    · exact .make
  | list cell => exact .get fun w => (Traces.mapM simplify _).bind fun items => .makeList
  | wrapped inner => exact (simplify inner).bind fun _ => Traces.trace.bind fun _ => .throw
  | itemless kind owner => exact .throw
  | unknown kind => exact (Traces.emit rfl).bind fun _ => .throw
  | datum d => exact .throw

theorem traces_replaced {f g f' g' : Term → Eval Term} (x : Datum) (value : Term)
    (simplify : ∀ t, Traces (f t) (g t)) (replace : ∀ t, Traces (f' t) (g' t)) (t : Term) :
    Traces (replaced s f x value f' t) (replaced s.untraced g x value g' t) := by
  cases t with
  | int d | bool d => exact .make
  | name id =>
    simp only [replaced]
    repeat' split
    · exact .copy
    · exact .make
    · exact .make
  | nameless id =>
    simp only [replaced]
    split
    · exact .copy
    · exact .make
  | function parameter body =>
    exact Traces.examine.bind fun _ => (replace body).bind fun _ => .make
  | operation lhs op rhs =>
    exact (replace lhs).bind fun _ => (replace rhs).bind fun _ => .make
  | conditional condition yes no =>
    refine (replace condition).bind fun c => (simplify c).bind fun c => ?_
    split
    · exact (replace _).bind fun chosen => simplify chosen
    · exact (replace yes).bind fun _ => (replace no).bind fun _ => .make
  | chain items => exact (Traces.mapM replace items).bind fun _ => .make
  | list cell => exact .get fun w => (Traces.mapM replace _).bind fun items => .makeList
  | wrapped inner | itemless kind owner => exact .throw
  | string d | unknown kind | datum d =>
    simp only [replaced]
    refine (Traces.emit rfl).bind fun _ => ?_
    split
    · exact .skip fun _ => .throw
    · exact .throw

theorem traces_traceReplacement {x : Datum} {value before after : Term} :
    Traces (traceReplacement s x value before after)
      (traceReplacement s.untraced x value before after) := by
  unfold traceReplacement
  split
  · refine .skip fun changed => ?_
    split
    · exact .trace
    · exact .pure
  · exact .pure

/-- Simplification and replacement with tracing trace those without. -/
theorem traces_simplify_replace (s : Settings) (lookup : Lookup) (depth : Nat) :
    (∀ t, Traces (simplify s lookup depth t) (simplify s.untraced lookup depth t)) ∧
      ∀ x value t, Traces (replace s lookup depth x value t) (replace s.untraced lookup depth x value t) := by
  induction depth with
  | zero => exact ⟨fun _ => .throw, fun _ _ _ => .throw⟩
  | succ depth ih =>
    obtain ⟨below, belowReplace⟩ := ih
    constructor
    · intro t
      by_cases isDatum : ∃ d, t = .datum d
      · obtain ⟨d, rfl⟩ := isDatum
        exact .throw
      · have other : ∀ d, t = .datum d → False := fun d same => isDatum ⟨d, same⟩
        rw [simplify.eq_3 s lookup t depth other, simplify.eq_3 s.untraced lookup t depth other]
        refine Traces.trace.bind fun _ => ?_
        refine (traces_simplified below belowReplace t).bind fun _ => ?_
        exact Traces.trace.bind fun _ => .pure
    · intro x value t
      by_cases isDatum : ∃ d, t = .datum d
      · obtain ⟨d, rfl⟩ := isDatum
        exact .throw
      · have other : ∀ d, t = .datum d → False := fun d same => isDatum ⟨d, same⟩
        rw [replace.eq_3 s lookup x value t depth other, replace.eq_3 s.untraced lookup x value t depth other]
        refine (traces_replaced x value below (belowReplace x value) t).bind fun _ => ?_
        exact traces_traceReplacement.bind fun _ => .pure

theorem traces_simplify {depth : Nat} {t : Term} :
    Traces (simplify s lookup depth t) (simplify s.untraced lookup depth t) :=
  (traces_simplify_replace s lookup depth).1 t

end Simplify

/-! ## Sorting -/

namespace Sorting

open Simplify (Lookup)

variable {lookup : Lookup}

theorem traces_precedes {a b : Term} :
    Traces (precedes s lookup a b) (precedes s.untraced lookup a b) := by
  refine Simplify.traces_simplify.bind fun l => ?_
  refine Simplify.traces_simplify.bind fun r => ?_
  split
  · exact .ofExcept
  · exact .throw

theorem traces_joinUpTo {count : Nat} {left right : List Term} :
    Traces (joinUpTo s lookup id count left right) (joinUpTo s.untraced lookup id count left right) := by
  induction count generalizing left right with
  | zero => exact .pure
  | succ count ih =>
    cases left with
    | nil => exact .pure
    | cons a left =>
      cases right with
      | nil => exact .pure
      | cons b right =>
        refine traces_precedes.bind fun first => ?_
        split
        · exact ih.bind fun _ => .pure
        · exact ih.bind fun _ => .pure

/-- A comparison that fails with tracing makes the whole sorting fail, so no attempt is compared with one
that ends otherwise. -/
theorem traces_sortUpTo {depth : Nat} {items : List Term} :
    Traces (sortUpTo s lookup id depth items) (sortUpTo s.untraced lookup id depth items) := by
  induction depth generalizing items with
  | zero => exact .pure
  | succ depth ih =>
    unfold sortUpTo
    split
    · exact .pure
    · refine ih.bind fun left => ih.bind fun right => ?_
      simp only [merge, outcome_mergeUpTo]
      exact traces_joinUpTo

end Sorting

/-! ## Rules -/

namespace Meaning

theorem traces_traceRule {rule : String} {shown : Store → Except Error String} :
    Traces (traceRule s rule shown) (traceRule s.untraced rule shown) :=
  .trace

theorem traces_simplifyNow {t : Term} :
    Traces (simplifyNow s t) (simplifyNow s.untraced t) :=
  .get fun _ => Simplify.traces_simplify

theorem traces_arithmetic {lhs : Term} {op : Operator} {rhs : Term} :
    Traces (arithmetic s lhs op rhs) (arithmetic s.untraced lhs op rhs) := by
  unfold arithmetic
  split
  · exact Traces.examine.bind fun _ => .make
  · exact .make

theorem traces_comparison {lhs : Term} {op : Operator} {rhs : Term} :
    Traces (comparison s lhs op rhs) (comparison s.untraced lhs op rhs) := by
  unfold comparison
  split
  · exact Traces.examine.bind fun _ => .make
  · exact .make

theorem traces_equality {lhs : Term} {op : Operator} {rhs : Term} :
    Traces (equality s lhs op rhs) (equality s.untraced lhs op rhs) := by
  unfold equality
  split
  · exact Traces.examine.bind fun _ => .make
  · exact Traces.examine.bind fun _ => .make
  · exact .make

theorem traces_conditional {condition yes no : Term} :
    Traces (conditional s condition yes no) (conditional s.untraced condition yes no) := by
  unfold conditional
  split
  · exact .pure
  · exact .make

theorem traces_chain {first rest : Term} :
    Traces (chain s first rest) (chain s.untraced first rest) :=
  Traces.make.bind fun _ => traces_simplifyNow

theorem traces_name {id : String} : Traces (name s id) (name s.untraced id) := by
  refine .get fun w => ?_
  simp only [World.untraced]
  split
  · exact traces_traceRule.bind fun _ => .pure
  · exact traces_traceRule.bind fun _ => .make

theorem traces_valueOf {t : Term} : Traces (valueOf s t) (valueOf s.untraced t) :=
  traces_simplifyNow.bind fun _ => .ofExcept

theorem traces_conjunction {lhs rhs : Term} :
    Traces (conjunction s lhs rhs) (conjunction s.untraced lhs rhs) := by
  refine traces_valueOf.bind fun l => ?_
  dsimp only
  split
  · exact traces_valueOf.bind fun _ => .make
  · exact Traces.pure.bind fun _ => .make

theorem traces_disjunction {lhs rhs : Term} :
    Traces (disjunction s lhs rhs) (disjunction s.untraced lhs rhs) := by
  refine traces_valueOf.bind fun l => ?_
  dsimp only
  split
  · exact Traces.pure.bind fun _ => .make
  · exact traces_valueOf.bind fun _ => .make

theorem traces_sign {symbol : String} {t : Term} :
    Traces (sign s symbol t) (sign s.untraced symbol t) := by
  unfold sign
  split
  · exact Traces.make.bind fun _ => .make
  · exact .pure

theorem traces_notAList {α : Type} {function : String} {t : Term} :
    Traces (notAList s function t : Eval α) (notAList s.untraced function t) :=
  Traces.examine.bind fun _ => .throw

theorem traces_itemsOf {function : String} {t : Term} :
    Traces (itemsOf s function t) (itemsOf s.untraced function t) := by
  refine traces_simplifyNow.bind fun t => ?_
  split
  · exact .examine
  · exact traces_notAList

theorem traces_head {t : Term} : Traces (head s t) (head s.untraced t) := by
  refine traces_itemsOf.bind fun items => ?_
  split
  · exact .throw
  · exact .pure

theorem traces_sort {t : Term} : Traces (sort s t) (sort s.untraced t) := by
  refine traces_itemsOf.bind fun items => .get fun w => ?_
  exact Sorting.traces_sortUpTo.bind fun items => .makeList

theorem traces_length {t : Term} : Traces (length s t) (length s.untraced t) := by
  refine traces_simplifyNow.bind fun t => ?_
  split
  · exact Traces.examine.bind fun _ => .make
  · exact Traces.ofExcept.bind fun _ => .make
  · exact traces_notAList

theorem traces_item {first rest : Term} :
    Traces (item s first rest) (item s.untraced first rest) := by
  unfold item
  split
  · exact Traces.examine.bind fun _ => Traces.makeList.bind fun _ =>
      traces_traceRule.bind fun _ => .pure
  · exact Traces.pure.bind fun _ => Traces.makeList.bind fun _ =>
      traces_traceRule.bind fun _ => .pure

theorem traces_assign {id : String} {t : Term} :
    Traces (assign s id t) (assign s.untraced id t) := by
  refine Traces.examine.bind fun shown => (Traces.emit rfl).bind fun _ => ?_
  rintro w _ _ ⟨⟩
  rfl

theorem traces_print {t : Term} : Traces (print s t) (print s.untraced t) :=
  traces_simplifyNow.bind fun _ => Traces.examine.bind fun _ => .emit rfl

theorem traces_dump : Traces (dump s) (dump s.untraced) :=
  .get fun w => .forM (fun _ => Traces.examine.bind fun _ => .emit rfl) w.bindings

theorem traces_append {id : String} {t : Term} : Traces (append id t) (append id t) := by
  refine .get fun w => ?_
  simp only [World.untraced]
  split
  · exact Traces.set.bind fun _ => .pure
  · exact .throw
  · exact .throw

/-- The term of an evaluation as the meaning of a phrase. -/
private theorem traces_found {x y : Eval Term} (traces : Traces x y) :
    Traces (do let t ← x; pure (Meaning.term t)) (do let t ← y; pure (.term t)) :=
  traces.bind fun _ => .pure

private theorem traces_shown {x y : Eval Term} {rule : String} (traces : Traces x y) :
    Traces (do let t ← x; traceDumped s rule t; pure (Meaning.term t))
      (do let t ← y; traceDumped s.untraced rule t; pure (.term t)) :=
  traces.bind fun _ => traces_traceRule.bind fun _ => .pure

/-- A rule with tracing traces the rule without. -/
theorem traces_ofRule (rule : Rule) (meanings : List Meaning) :
    Traces (ofRule s rule meanings) (ofRule s.untraced rule meanings) := by
  unfold ofRule
  -- One case for each rule in the order of `ofRule`, and one for symbols that fit no rule.
  split
  · exact traces_assign.bind fun _ => .pure
  · exact traces_print.bind fun _ => .pure
  · exact traces_dump.bind fun _ => .pure
  · exact traces_append.bind fun _ => .pure
  · exact traces_traceRule.bind fun _ => .pure
  · exact traces_shown traces_chain
  · exact traces_shown .make
  · exact traces_shown traces_arithmetic
  · exact traces_traceRule.bind fun _ => .pure
  · exact traces_shown traces_conditional
  · exact traces_shown traces_equality
  · exact traces_shown traces_comparison
  · exact traces_shown traces_arithmetic
  · exact traces_traceRule.bind fun _ => .pure
  · exact traces_traceRule.bind fun _ => traces_found .make
  · exact traces_found .make
  · exact traces_found traces_name
  · exact traces_traceRule.bind fun _ => .pure
  · exact traces_traceRule.bind fun _ => .pure
  · exact traces_traceRule.bind fun _ => traces_found .makeList
  · exact traces_traceRule.bind fun _ => .pure
  · exact traces_traceRule.bind fun _ => traces_found .makeList
  · exact traces_found traces_item
  · exact traces_found traces_head
  · exact traces_found (traces_itemsOf.bind fun _ => .makeList)
  · exact traces_found traces_sort
  · exact traces_found traces_length
  · exact traces_found traces_sign
  · exact traces_found traces_conjunction
  · exact traces_found traces_disjunction
  · exact traces_found (traces_valueOf.bind fun _ => .make)
  · exact .pure

end Meaning

/-! ## Lines -/

open Parse in
/-- A parse with tracing traces the parse without, move by move. -/
theorem traces_run (s : Settings) (moves : Nat) (c : Configuration Meaning) :
    Traces (run (Meaning.reading s) moves c) (run (Meaning.reading s.untraced) moves c) := by
  induction moves generalizing c with
  | zero => exact .pure
  | succ moves ih =>
    have leaf : (Meaning.reading s.untraced).leaf = (Meaning.reading s).leaf := rfl
    unfold run
    rw [leaf]
    generalize c.move (Meaning.reading s).leaf = move
    cases move with
    | advance c => exact ih c
    | stray character line c =>
      have heard : (Event.line (Item.strayReport character line)).isTrace = false := rfl
      exact (Traces.emit heard).bind fun _ => ih c
    | overlong digits c => exact .bind .throw fun _ => ih c
    | reduce rule meanings state c => exact (Meaning.traces_ofRule rule meanings).bind fun _ => ih _
    | recover t reported c =>
      have told : (Event.complaint (Meaning.syntaxReport t)).isTrace = false := rfl
      cases reported with
      | true => exact (Traces.emit told).bind fun _ => ih c
      | false => exact ih c
    | accept meaning => exact .pure
    | reject reported =>
      have told : (Event.complaint (Meaning.syntaxReport none)).isTrace = false := rfl
      cases reported with
      | true => exact (Traces.emit told).bind fun _ => .pure
      | false => exact .pure
    | stuck => exact .pure

theorem traces_evaluation (s : Settings) (line : String) :
    Traces (Session.evaluation s line) (Session.evaluation s.untraced line) :=
  (traces_run s _ _).bind fun _ => .pure

/-- The trace writes nothing to the error stream. -/
theorem Event.errorStream_filter (events : List Event) :
    errorStream (events.filter fun e => !e.isTrace) = errorStream events := by
  induction events with
  | nil => rfl
  | cons e rest ih =>
    have told : errorStream (e :: rest) = e.err ++ errorStream rest := String.join_cons
    rw [told, List.filter_cons]
    split
    · exact String.join_cons.trans (congrArg (e.err ++ ·) ih)
    · rename_i dropped
      cases e with
      | trace color text => exact ih.trans String.empty_append.symm
      | colored color text | line text | prompt | complaint text => exact absurd rfl dropped

/-- Where a line succeeds with tracing it succeeds without: with the same result, the same variables and
lists, the same error stream, and an output from which only the trace is missing. -/
theorem tracing_only_observes {session : Session} {depth : Nat} {line : String} {result : Option Term}
    (succeeded : (session.step ⟨true, depth⟩ line).1.result = .ok result) :
    (session.step ⟨false, depth⟩ line).1.result = .ok result ∧
    (session.step ⟨false, depth⟩ line).2 = (session.step ⟨true, depth⟩ line).2 ∧
    (session.step ⟨false, depth⟩ line).1.events =
      (session.step ⟨true, depth⟩ line).1.events.filter (fun e => !e.isTrace) ∧
    Event.errorStream (session.step ⟨false, depth⟩ line).1.events =
      Event.errorStream (session.step ⟨true, depth⟩ line).1.events := by
  have traces := traces_evaluation ⟨true, depth⟩ line ⟨session.bindings, session.store, #[]⟩
  simp only [Session.step, Session.run] at succeeded ⊢
  cases ended : Session.evaluation ⟨true, depth⟩ line ⟨session.bindings, session.store, #[]⟩ with
  | error e after =>
    rw [ended] at succeeded
    cases succeeded
  | ok found after =>
    rw [ended] at succeeded
    cases succeeded
    have quiet : Session.evaluation ⟨false, depth⟩ line ⟨session.bindings, session.store, #[]⟩ =
        .ok result after.untraced := traces result after ended
    simp only [quiet, World.untraced, Array.toList_filter, Event.errorStream_filter, and_self]

/-- A function is applied. -/
theorem tracing_only_observes_application : ∃ session : Session, ∃ result : Option Term,
    session = (Session.fresh.step ⟨true, Session.usualDepth⟩ "f := \\ y => [y]").2 ∧
    (session.step ⟨true, Session.usualDepth⟩ "x := f . 3").1.result = .ok result ∧
    (session.step ⟨false, Session.usualDepth⟩ "x := f . 3").1.result = .ok result ∧
    (session.step ⟨false, Session.usualDepth⟩ "x := f . 3").2 =
      (session.step ⟨true, Session.usualDepth⟩ "x := f . 3").2 := by
  have succeeds : ((Session.fresh.step ⟨true, Session.usualDepth⟩ "f := \\ y => [y]").2.step
      ⟨true, Session.usualDepth⟩ "x := f . 3").1.result.toOption.isSome = true := by
    decide +kernel
  generalize same : (Session.fresh.step ⟨true, Session.usualDepth⟩ "f := \\ y => [y]").2 = session at succeeds
  cases ended : (session.step ⟨true, Session.usualDepth⟩ "x := f . 3").1.result with
  | error e =>
    rw [ended] at succeeds
    cases succeeds
  | ok result =>
    obtain ⟨quiet, after, -⟩ := tracing_only_observes ended
    exact ⟨session, result, rfl, ended, quiet, after⟩

end DotLambda
