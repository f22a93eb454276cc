import DotLambda.Proofs.Likeness
import DotLambda.Proofs.ParallelRules

/-!
What simplification does to a world, whatever the world is: also where terms refer to lists that are not there, to
themselves or to one another. It writes to the trace, puts lists and terms into new cells, and complains before it
fails. Main statements: changes that include these, and any of them in a row, include all that simplification does; so
variables, lists and the terms to which data refer are as they were, whether it succeeds or fails, and nothing that has
been written is taken back.
-/

namespace DotLambda

open Eval

open Simplify (Lookup)

namespace Eval

variable {α β : Type} {succeeds fails : World → World → Prop} {s : Settings}

/-- Where two evaluations in a row fail, the first or the second does. -/
theorem error_of_bind {x : Eval α} {f : α → Eval β} {w after : World} {e : Error}
    (failed : (x >>= f) w = .error e after) :
    x w = .error e after ∨ ∃ a between, x w = .ok a between ∧ f a between = .error e after := by
  cases started : x w with
  | ok a between =>
    rw [bind_of_ok started] at failed
    exact .inr ⟨a, between, rfl, failed⟩
  | error e' between =>
    rw [bind_of_error started] at failed
    cases failed
    exact .inl rfl

theorem ok_of_ofExcept {x : Except Error α} {w after : World} {a : α} (ended : Eval.ofExcept x w = .ok a after) :
    x = .ok a ∧ after = w := by
  cases x with
  | ok b =>
    cases ended
    exact ⟨rfl, rfl⟩
  | error e => cases ended

theorem error_of_ofExcept {x : Except Error α} {w after : World} {e : Error}
    (failed : Eval.ofExcept x w = .error e after) : x = .error e ∧ after = w := by
  cases x with
  | ok b => cases failed
  | error e =>
    cases failed
    exact ⟨rfl, rfl⟩

/-- To look and then to throw fails either way and changes nothing. -/
theorem examine_throw (f : Store → Except Error α) (e : Error) (w : World) :
    ∃ e', (do let _ ← Eval.examine f; throw e : Eval β) w = .error e' w := by
  cases found : f w.store with
  | ok a => exact ⟨e, bind_of_ok (examine_of_ok found)⟩
  | error e' => exact ⟨e', bind_of_error (examine_of_error found)⟩

/-- An evaluation that makes only such changes to the world as are allowed to one that succeeds, or to one that
fails. -/
structure Confined (succeeds fails : World → World → Prop) (x : Eval α) : Prop where
  of_ok : ∀ {w a after}, x w = .ok a after → succeeds w after
  of_error : ∀ {w e after}, x w = .error e after → fails w after

/-- The changes that are allowed include those that simplification makes, and any of these in a row. -/
structure Admits (s : Settings) (succeeds fails : World → World → Prop) : Prop where
  refl : ∀ w, succeeds w w
  trans : ∀ {first second third}, succeeds first second → succeeds second third → succeeds first third
  fail : ∀ w, fails w w
  failAfter : ∀ {first second third}, succeeds first second → fails second third → fails first third
  traced : s.tracing = true → ∀ w color line,
    succeeds w { w with output := w.output.push (.trace color line) }
  complained : ∀ w line, fails w { w with output := w.output.push (.line line) }
  allocated : ∀ w items, succeeds w { w with store := w.store.allocate items }
  kept : ∀ w terms, succeeds w { w with store := w.store.keep terms }

namespace Admits

variable (admits : Admits s succeeds fails)
include admits

theorem pure (a : α) : Confined succeeds fails (pure a) := by
  constructor
  · rintro w _ _ ⟨⟩
    exact admits.refl w
  · rintro w _ _ ⟨⟩

theorem throw (e : Error) : Confined succeeds fails (throw e : Eval α) := by
  constructor
  · rintro w _ _ ⟨⟩
  · rintro w _ _ ⟨⟩
    exact admits.fail w

theorem bind {x : Eval α} {f : α → Eval β} (first : Confined succeeds fails x)
    (next : ∀ a, Confined succeeds fails (f a)) : Confined succeeds fails (x >>= f) := by
  constructor
  · intro w b last ended
    obtain ⟨a, between, started, finished⟩ := ok_of_bind ended
    exact admits.trans (first.of_ok started) ((next a).of_ok finished)
  · intro w e last failed
    rcases error_of_bind failed with failed | ⟨a, between, started, failed⟩
    · exact first.of_error failed
    · exact admits.failAfter (first.of_ok started) ((next a).of_error failed)

omit admits in
theorem get {f : World → Eval β} (next : ∀ w, Confined succeeds fails (f w)) :
    Confined succeeds fails (MonadState.get >>= f) :=
  ⟨fun {w _ _} => (next w).of_ok, fun {w _ _} => (next w).of_error⟩

theorem ofExcept (e : Except Error α) : Confined succeeds fails (Eval.ofExcept e) := by
  cases e with
  | ok a => exact admits.pure a
  | error e => exact admits.throw e

theorem examine (f : Store → Except Error α) : Confined succeeds fails (Eval.examine f) :=
  get fun _ => admits.ofExcept _

theorem trace (color : Color) (text : Store → Except Error String) :
    Confined succeeds fails (Eval.trace s color text) := by
  unfold Eval.trace
  split
  · rename_i tracing
    refine admits.bind (admits.examine text) fun line => ?_
    constructor
    · rintro w _ _ ⟨⟩
      exact admits.traced tracing w color line
    · rintro w _ _ ⟨⟩
  · exact admits.pure ()

/-- A complaint may be followed by a failure only. -/
theorem complain (line : String) {x : Eval α} (failing : ∀ w, ∃ e, x w = .error e w) :
    Confined succeeds fails (do Eval.emit (.line line); x) := by
  constructor
  · intro w a after ended
    obtain ⟨_, between, ⟨⟩, ended⟩ := ok_of_bind ended
    obtain ⟨e, failed⟩ := failing { w with output := w.output.push (.line line) }
    cases failed.symm.trans ended
  · intro w e after failed
    rcases error_of_bind failed with ⟨⟨⟩⟩ | ⟨_, between, ⟨⟩, failed⟩
    obtain ⟨e', failed'⟩ := failing { w with output := w.output.push (.line line) }
    cases failed'.symm.trans failed
    exact admits.complained w line

theorem make (t : Term) : Confined succeeds fails (Eval.make s t) :=
  admits.bind (admits.trace _ _) fun _ => admits.bind (admits.trace _ _) fun _ => admits.pure t

theorem newList (items : List Term) : Confined succeeds fails (Eval.newList items) := by
  constructor
  · rintro w _ _ ⟨⟩
    exact admits.allocated w items
  · rintro w _ _ ⟨⟩

theorem makeList (items : List Term) : Confined succeeds fails (Eval.makeList s items) :=
  admits.bind (admits.trace _ _) fun _ => admits.bind (admits.newList items) fun _ =>
    admits.bind (admits.trace _ _) fun _ => admits.pure _

theorem copy (t : Term) : Confined succeeds fails (Eval.copy t) := by
  constructor
  · rintro w _ _ ⟨⟩
    exact admits.kept w _
  · rintro w _ _ ⟨⟩

theorem mapM {f : Term → Eval Term} (each : ∀ t, Confined succeeds fails (f t)) (items : List Term) :
    Confined succeeds fails (items.mapM f) := by
  induction items with
  | nil => exact admits.pure []
  | cons t rest ih =>
    rw [List.mapM_cons]
    exact admits.bind (each t) fun _ => admits.bind ih fun _ => admits.pure _

end Admits

end Eval

/-! ## Simplification and replacement -/

namespace Simplify

variable {s : Settings} {succeeds fails : World → World → Prop} (admits : Admits s succeeds fails) {lookup : Lookup}
  {f : Term → Eval Term} {g : Datum → Term → Term → Eval Term}
include admits

theorem confined_contract (apply : ∀ x value t, Confined succeeds fails (g x value t)) (first : Term)
    (rest : List Term) : Confined succeeds fails (contract lookup g first rest) := by
  induction rest generalizing first with
  | nil => exact admits.pure _
  | cons next rest ih =>
    rw [contract]
    split
    · exact admits.bind (apply _ _ _) fun _ => ih _
    · exact admits.bind (ih next) fun _ => admits.pure _

theorem confined_contractAll (apply : ∀ x value t, Confined succeeds fails (g x value t)) (items : List Term) :
    Confined succeeds fails (contractAll lookup g items) := by
  cases items with
  | nil => exact admits.pure _
  | cons first rest => exact confined_contract admits apply first rest

theorem confined_resolve (simplify : ∀ t, Confined succeeds fails (f t)) (t : Term) :
    Confined succeeds fails (resolve lookup f t) := by
  unfold resolve
  split
  · split
    · exact simplify _
    · exact admits.pure _
  · exact admits.pure _

theorem confined_compute (op : Operator) (lhs rhs : Term) : Confined succeeds fails (compute s op lhs rhs) := by
  unfold compute
  split
  · exact admits.bind (admits.examine _) fun _ => admits.make _
  · exact admits.bind (admits.examine _) fun _ => admits.make _
  · exact admits.bind (admits.examine _) fun _ => admits.make _
  · exact admits.bind (admits.examine _) fun _ => admits.throw _

theorem confined_simplified (simplify : ∀ t, Confined succeeds fails (f t))
    (replace : ∀ x value t, Confined succeeds fails (g x value t)) (t : Term) :
    Confined succeeds fails (simplified s lookup f g t) := by
  cases t with
  | int | bool | string => exact admits.make _
  | name id =>
    simp only [simplified]
    split
    · exact admits.make _
    split
    · exact admits.make _
    split
    · exact simplify _
    · exact admits.make _
  | nameless id =>
    simp only [simplified]
    split
    · exact admits.throw _
    · exact admits.make _
  | function parameter body =>
    exact admits.bind (admits.examine _) fun _ => admits.bind (simplify body) fun _ => admits.make _
  | operation lhs op rhs =>
    refine admits.bind (simplify lhs) fun l => admits.bind (simplify rhs) fun r => ?_
    refine admits.bind (confined_resolve admits simplify l) fun l => ?_
    refine admits.bind (confined_resolve admits simplify r) fun r => ?_
    exact confined_compute admits op l r
  | conditional condition yes no =>
    refine admits.bind (simplify condition) fun c => ?_
    split
    · split
      · exact simplify yes
      · exact simplify no
    · exact admits.make _
  | chain items =>
    refine admits.bind (admits.mapM simplify items) fun items => ?_
    refine admits.bind (confined_contractAll admits replace items) fun items => ?_
    split
    · exact simplify _
    · exact admits.make _
  | list cell => exact Admits.get fun w => admits.bind (admits.mapM simplify _) fun _ => admits.makeList _
  | wrapped inner =>
    exact admits.bind (simplify inner) fun _ => admits.bind (admits.trace _ _) fun _ => admits.throw _
  | itemless | datum => exact admits.throw _
  | unknown kind => exact admits.complain _ fun w => ⟨_, rfl⟩

theorem confined_replaced (simplify : ∀ t, Confined succeeds fails (f t)) {x : Datum} {value : Term}
    {h : Term → Eval Term} (replace : ∀ t, Confined succeeds fails (h t)) (t : Term) :
    Confined succeeds fails (replaced s f x value h t) := by
  cases t with
  | int | bool => exact admits.make _
  | name id =>
    simp only [replaced]
    split
    · split
      · exact admits.copy value
      · exact admits.make _
    · exact admits.make _
  | nameless id =>
    simp only [replaced]
    split
    · exact admits.copy value
    · exact admits.make _
  | function parameter body =>
    exact admits.bind (admits.examine _) fun _ => admits.bind (replace body) fun _ => admits.make _
  | operation lhs op rhs =>
    exact admits.bind (replace lhs) fun _ => admits.bind (replace rhs) fun _ => admits.make _
  | conditional condition yes no =>
    refine admits.bind (replace condition) fun c => admits.bind (simplify c) fun c => ?_
    split
    · exact admits.bind (replace _) fun chosen => simplify chosen
    · exact admits.bind (replace yes) fun _ => admits.bind (replace no) fun _ => admits.make _
  | chain items => exact admits.bind (admits.mapM replace items) fun _ => admits.make _
  | list cell => exact Admits.get fun w => admits.bind (admits.mapM replace _) fun _ => admits.makeList _
  | wrapped | itemless => exact admits.throw _
  | string | unknown | datum =>
    simp only [replaced]
    refine admits.complain _ fun w => ?_
    split
    · exact examine_throw _ _ w
    · exact ⟨_, rfl⟩

theorem confined_traceReplacement (x : Datum) (value before after : Term) :
    Confined succeeds fails (traceReplacement s x value before after) := by
  unfold traceReplacement
  split
  · refine admits.bind (admits.examine _) fun changed => ?_
    split
    · exact admits.trace _ _
    · exact admits.pure ()
  · exact admits.pure ()

/-- Simplification and replacement make only changes that are allowed. -/
theorem confined_simplify_replace (lookup : Lookup) (depth : Nat) :
    (∀ t, Confined succeeds fails (simplify s lookup depth t)) ∧
      ∀ x value t, Confined succeeds fails (replace s lookup depth x value t) := by
  induction depth with
  | zero => exact ⟨fun _ => admits.throw _, fun _ _ _ => admits.throw _⟩
  | succ depth ih =>
    obtain ⟨below, belowReplace⟩ := ih
    constructor
    · intro t
      by_cases isDatum : ∃ d, t = .datum d
      · obtain ⟨d, rfl⟩ := isDatum
        exact admits.throw _
      · rw [simplify.eq_3 s lookup t depth fun d same => isDatum ⟨d, same⟩]
        refine admits.bind (admits.trace _ _) fun _ => ?_
        refine admits.bind (confined_simplified admits below belowReplace t) fun result => ?_
        exact admits.bind (admits.trace _ _) fun _ => admits.pure _
    · intro x value t
      by_cases isDatum : ∃ d, t = .datum d
      · obtain ⟨d, rfl⟩ := isDatum
        exact admits.throw _
      · rw [replace.eq_3 s lookup x value t depth fun d same => isDatum ⟨d, same⟩]
        refine admits.bind (confined_replaced admits below (belowReplace x value) t) fun result => ?_
        exact admits.bind (confined_traceReplacement admits x value t result) fun _ => admits.pure _

end Simplify

/-! ## Worlds that go on -/

/-- A world in which there may be more than before: more lists, more terms to which data refer, and more that has been
written. All that was there is as it was. -/
structure World.Continues (before after : World) : Prop where
  bindings_eq : after.bindings = before.bindings
  store : before.store.Continues after.store
  written : before.output.toList <+: after.output.toList

namespace World.Continues

theorem refl (w : World) : w.Continues w := ⟨rfl, .refl _, List.prefix_rfl⟩

theorem trans {first second third : World} (early : first.Continues second) (late : second.Continues third) :
    first.Continues third where
  bindings_eq := late.bindings_eq.trans early.bindings_eq
  store := early.store.trans late.store
  written := early.written.trans late.written

theorem push (w : World) (e : Event) : w.Continues { w with output := w.output.push e } := by
  refine ⟨rfl, .refl _, ?_⟩
  rw [Array.toList_push]
  exact List.prefix_append _ _

theorem admits (s : Settings) : Admits s World.Continues World.Continues where
  refl := refl
  trans := trans
  fail := refl
  failAfter := trans
  traced _ w _ _ := push w _
  complained w _ := push w _
  allocated _ _ := ⟨rfl, .allocate _ _, List.prefix_rfl⟩
  kept _ _ := ⟨rfl, .keep _ _, List.prefix_rfl⟩

end World.Continues

/-- Whatever world a term is simplified in, nothing is taken away from it. -/
theorem Simplify.continues_simplify (s : Settings) (lookup : Lookup) (depth : Nat) (t : Term) :
    Confined World.Continues World.Continues (simplify s lookup depth t) :=
  (confined_simplify_replace (World.Continues.admits s) lookup depth).1 t

end DotLambda
