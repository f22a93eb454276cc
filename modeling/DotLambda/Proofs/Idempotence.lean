import DotLambda.Proofs.Honesty
import DotLambda.Proofs.NormalForm
import DotLambda.Proofs.Replacement
import DotLambda.Proofs.Wording

/-!
Simplifying what has been simplified. A function is applied once the items of a chain have been simplified, from
left to right, and what comes out of it is not simplified again among other items. So a function may come to
stand right before an argument, and then simplification has more to do. Main statement: where this is not so,
what has been simplified is left as it is, up to the cells of its lists.
-/

namespace DotLambda

open Eval

/-! ## Where simplification comes to -/

/-- Whether a term is a function. -/
def Term.isFunction : Term → Bool
  | function _ _ => true
  | _ => false

/-- Terms in a row of which none is a function right before an argument. -/
def Term.Apart (items : List Term) : Prop :=
  items.IsChain fun first next => first.isFunction = true → next.isArgument = false

namespace Store

/-- The parts of a term, but for the clauses of a conditional. -/
def activeParts (store : Store) : Term → List Term
  | .conditional condition _ _ => [condition]
  | t => store.parts t

/-- A term stands in another one outside the clauses of conditionals. -/
inductive Active (store : Store) : Term → Term → Prop where
  | self (t : Term) : Active store t t
  | part {t between u : Term} (member : between ∈ store.activeParts t) (onward : Active store between u) :
      Active store t u

/-- A term with functions right before arguments nowhere but in the clauses of conditionals. -/
def Idle (store : Store) (t : Term) : Prop := ∀ items, store.Active t (.chain items) → Term.Apart items

theorem Idle.part {store : Store} {t u : Term} (idle : store.Idle t) (member : u ∈ store.activeParts t) :
    store.Idle u :=
  fun items active => idle items (.part member active)

end Store

/-- With a term its parts can be dumped. -/
theorem Term.parts_of_dumped {store : Store} {depth : Nat} {t : Term} (shown : Succeeds (t.dumped store depth)) :
    ∀ u ∈ store.activeParts t, Succeeds (u.dumped store depth) := by
  have components := components_of_dumped shown
  cases t with
  | function parameter body =>
    rintro u (_ | ⟨_, ⟨⟩⟩)
    exact components ("result", .term body) (by simp [Term.components])
  | operation lhs op rhs =>
    rintro u (_ | ⟨_, _ | ⟨_, ⟨⟩⟩⟩)
    · exact components ("lhs", .term lhs) (by simp [Term.components])
    · exact components ("rhs", .term rhs) (by simp [Term.components])
  | conditional condition yes no =>
    rintro u (_ | ⟨_, ⟨⟩⟩)
    exact components ("condition", .term condition) (by simp [Term.components])
  | chain items =>
    have all := components ("expressions", .terms items) (by simp [Term.components])
    exact Succeeds.mapM_iff.1 (Succeeds.map_iff.1 all)
  | wrapped inner =>
    rintro u (_ | ⟨_, ⟨⟩⟩)
    exact components ("expression", .term inner) (by simp [Term.components])
  | list cell => exact items_of_dumped shown
  | int | bool | string | name | nameless | itemless | unknown | datum => exact List.forall_mem_nil _

/-- Terms that are alike can be dumped if one of each pair can be. -/
theorem Term.dumped_of_alike {l : Likeness} {store store' : Store} {depth : Nat} {items items' : List Term}
    (relates : l.Relates store store') (each : List.Forall₂ (Alike l) items items')
    (shown : ∀ u ∈ items, Succeeds (u.dumped store depth)) : ∀ u ∈ items', Succeeds (u.dumped store' depth) := by
  induction each with
  | nil => exact List.forall_mem_nil _
  | cons alike _ ih =>
    rw [List.forall_mem_cons] at shown ⊢
    refine ⟨?_, ih shown.2⟩
    rw [(alike.texts_eq relates depth).2]
    exact shown.1

/-! ## Evaluations that come to what is alike -/

namespace Eval

/-- An evaluation that succeeds and leaves all that there was as it was. Its result is good for a likeness of a
store with the store after it that goes on with a given one. -/
def Repeats {α : Type} (base : Store) (l : Likeness) (w : World) (x : Eval α) (good : Likeness → α → Prop) :
    Prop :=
  ∃ a after more, x w = .ok a after ∧ w.store.Continues after.store ∧ l.Le more ∧
    more.Relates base after.store ∧ good more a

/-- An evaluation of a term that comes to one that is alike. -/
abbrev RepeatsTerm (base : Store) (l : Likeness) (w : World) (t : Term) (x : Eval Term) : Prop :=
  Repeats base l w x fun more r => Term.Alike more t r

namespace Repeats

variable {α β : Type} {base : Store} {l : Likeness} {w : World} {x : Eval α} {good : Likeness → α → Prop}
  {s : Settings}

theorem pure {a : α} (relates : l.Relates base w.store) (fine : good l a) : Repeats base l w (pure a) good :=
  ⟨a, w, l, rfl, .refl _, .refl _, relates, fine⟩

theorem bind {f : α → Eval β} {best : Likeness → β → Prop} (first : Repeats base l w x good)
    (next : ∀ a after more, w.store.Continues after.store → l.Le more → more.Relates base after.store →
      good more a → Repeats base more after (f a) best) : Repeats base l w (x >>= f) best := by
  obtain ⟨a, between, more, ended, grown, wider, relates, fine⟩ := first
  obtain ⟨b, after, most, ended', grown', wider', relates', best⟩ := next a between more grown wider relates fine
  refine ⟨b, after, most, ?_, grown.trans grown', wider.trans wider', relates', best⟩
  rw [bind_of_ok ended, ended']

theorem get {f : World → Eval β} {best : Likeness → β → Prop} (next : Repeats base l w (f w) best) :
    Repeats base l w (MonadState.get >>= f) best := next

theorem examine {f : Store → Except Error α} (relates : l.Relates base w.store) {a : α}
    (found : f w.store = .ok a) (fine : good l a) : Repeats base l w (Eval.examine f) good := by
  refine .get ?_
  rw [found]
  exact .pure relates fine

theorem trace {color : Color} {text : Store → Except Error String} (relates : l.Relates base w.store)
    (shown : s.tracing = true → Succeeds (text w.store)) :
    Repeats base l w (Eval.trace s color text) fun _ _ => True := by
  unfold Eval.trace
  split
  · rename_i tracing
    obtain ⟨line, found⟩ := shown tracing
    have looked : Repeats base l w (Eval.examine text) fun _ _ => True := examine relates found trivial
    refine looked.bind fun _ after more _ _ relates _ => ?_
    exact ⟨(), _, more, rfl, .refl _, .refl _, relates, trivial⟩
  · exact .pure relates trivial

section
variable {t u : Term}

theorem make (relates : l.Relates base w.store) (alike : Term.Alike l t u)
    (shown : s.tracing = true → Succeeds (t.dumped base s.depth)) : RepeatsTerm base l w t (Eval.make s u) := by
  have told {more : Likeness} {after : World} (relates : more.Relates base after.store) (wider : l.Le more)
      (tracing : s.tracing = true) : Succeeds (u.dumped after.store s.depth) := by
    rw [((alike.mono wider).texts_eq relates s.depth).2]
    exact shown tracing
  refine (trace relates fun tracing => ?_).bind fun _ between more _ wider relates _ => ?_
  · have components := Term.components_of_dumped (told relates (.refl l) tracing)
    exact Succeeds.map_iff.2 (Component.dumpedBindings_succeeds components)
  · refine (trace relates fun tracing => Succeeds.map_iff.2 (told relates wider tracing)).bind
      fun _ after most _ wider' relates _ => ?_
    exact .pure relates (alike.mono (wider.trans wider'))

/-- A list with items that are alike is put into a new cell. -/
theorem makeList {cell : Nat} {items : List Term} (relates : l.Relates base w.store) (old : cell < base.size)
    (each : List.Forall₂ (Term.Alike l) (base.items cell) items)
    (shown : s.tracing = true → Succeeds ((Term.list cell).dumped base s.depth)) :
    RepeatsTerm base l w (.list cell) (Eval.makeList s items) := by
  have announced : Repeats base l w (Eval.announce s "list" [("elements", .terms items)]) fun _ _ => True := by
    refine trace relates fun tracing => Succeeds.map_iff.2 (Component.dumpedBindings_succeeds ?_)
    have told := Term.dumped_of_alike relates each (Term.items_of_dumped (shown tracing))
    exact List.forall_mem_singleton.2 (Succeeds.map_iff.2 (Succeeds.mapM_iff.2 told))
  refine announced.bind fun _ between more _ wider relates _ => ?_
  have made : RepeatsTerm base more between (.list cell) (Eval.newList items) := by
    have grown := Store.Continues.allocate between.store items
    have fresh : between.store.size < (between.store.allocate items).size := by
      rw [Store.size_allocate]
      exact Nat.lt_succ_self _
    refine ⟨_, _, more.join cell between.store.size, rfl, grown, more.le_join _ _, ?_, .list (.inr ⟨rfl, rfl⟩)⟩
    refine (relates.grow (.refl base) grown).join old fresh ?_
    rw [Store.items_allocate_self]
    exact each.imp fun _ _ alike => alike.mono wider
  refine made.bind fun r after most _ _ relates alike => ?_
  refine (trace relates fun tracing => Succeeds.map_iff.2 ?_).bind fun _ _ _ _ wider relates _ =>
    .pure relates (alike.mono wider)
  rw [(alike.texts_eq relates s.depth).2]
  exact shown tracing

end

theorem mapM {f : Term → Eval Term} {items : List Term} (relates : l.Relates base w.store)
    (each : ∀ after more, w.store.Continues after.store → l.Le more → more.Relates base after.store →
      ∀ t ∈ items, RepeatsTerm base more after t (f t)) :
    Repeats base l w (items.mapM f) fun more out => List.Forall₂ (Term.Alike more) items out := by
  induction items generalizing w l with
  | nil => exact .pure relates .nil
  | cons t rest ih =>
    rw [List.mapM_cons]
    refine (each w l (.refl _) (.refl _) relates t List.mem_cons_self).bind
      fun r between more grown wider relates here => ?_
    refine (ih relates fun after most grown' wider' relates u member =>
      each after most (grown.trans grown') (wider.trans wider') relates u (List.mem_cons_of_mem t member)).bind
        fun others after most _ wider' relates there => ?_
    exact .pure relates (.cons (here.mono wider') there)

end Repeats

end Eval

/-! ## Simplifying once more -/

namespace Simplify

variable {lookup : Lookup} {base : Store} {l : Likeness} {s : Settings} {depth : Nat} {w : World} {t : Term}

/-- Where no function meets an argument, none is applied. -/
theorem contractAll_eq_self {g : Datum → Term → Term → Eval Term} {items items' : List Term} {height : Nat}
    (normal : ∀ t ∈ items, Normal lookup base height t) (apart : Term.Apart items)
    (each : List.Forall₂ (Term.Alike l) items items') : contractAll lookup g items' = pure items' := by
  have names {t t' : Term} (normal : Normal lookup base height t) (alike : Term.Alike l t t')
      (other : t.isFunction = false) : functionOf? lookup t' = none := by
    cases height with
    | zero => exact normal.elim
    | succ height =>
      cases alike with
      | name =>
        simp only [functionOf?, normal.2.2]
      | function => cases other
      | int | bool | string | nameless | operation | conditional | nil | cons | list | wrapped | itemless | unknown
      | datum => rfl
  have meets : items'.IsChain fun t next => functionOf? lookup t = none ∨ next.isArgument = false := by
    induction each with
    | nil => exact .nil
    | @cons t t' _ _ alike others ih =>
      rw [List.forall_mem_cons] at normal
      cases others with
      | nil => exact .singleton _
      | cons alike' others =>
        obtain ⟨first, rest⟩ := List.isChain_cons_cons.1 apart
        refine List.isChain_cons_cons.2 ⟨?_, ih normal.2 rest⟩
        cases function : t.isFunction with
        | true => exact .inr (alike'.isArgument_eq.trans (first function))
        | false => exact .inl (names normal.1 alike function)
  cases items' with
  | nil => rfl
  | cons first rest => exact contract_eq_self meets

/-- A term that is left as it is when it is simplified, and can be dumped where that is traced. -/
structure Steady (s : Settings) (lookup : Lookup) (store : Store) (height : Nat) (t : Term) : Prop
    extends Settled lookup store height t where
  idle : store.Idle t
  shown : s.tracing = true → Succeeds (t.dumped store s.depth)

/-- The parts of a term that is left as it is are left as they are, but for the clauses of conditionals. -/
theorem Steady.parts (coherent : base.Coherent) (steady : Steady s lookup base (depth + 1) t) :
    ∀ u ∈ base.activeParts t, Steady s lookup base depth u := by
  intro u member
  have settled : Settled lookup base depth u := by
    obtain ⟨⟨owned, normal⟩, -, -⟩ := steady
    have whole := owned
    cases owned with
    | function _ inner =>
      cases List.mem_singleton.1 member
      exact ⟨inner, normal.2⟩
    | conditional decides =>
      cases List.mem_singleton.1 member
      exact ⟨decides, normal.1⟩
    | nil => cases member
    | cons => exact ⟨Store.Owns.items whole u member, normal.2 u member⟩
    | list paired => exact ⟨coherent.owns_items paired.2 u member, normal.2 u member⟩
    | operation | wrapped => exact normal.elim
    | int | bool | string | name | nameless | itemless | unknown | datum => cases member
  exact ⟨settled, steady.idle.part member, fun tracing => Term.parts_of_dumped (steady.shown tracing) u member⟩

/-- A way to evaluate terms that leaves as they are those which are simplified already. -/
def Repeating (s : Settings) (lookup : Lookup) (base : Store) (depth : Nat) (f : Term → Eval Term) : Prop :=
  ∀ {l : Likeness} {w : World} {t : Term}, base.own.Le l → l.Relates base w.store → base.Continues w.store →
    Steady s lookup base depth t → RepeatsTerm base l w t (f t)

theorem repeating_simplified (coherent : base.Coherent) {f : Term → Eval Term}
    {g : Datum → Term → Term → Eval Term} (simplify : Repeating s lookup base depth f) :
    Repeating s lookup base (depth + 1) (simplified s lookup f g) := by
  intro l w t own relates grown steady
  have parts := steady.parts coherent
  obtain ⟨⟨owned, normal⟩, idle, shown⟩ := steady
  cases t with
  | int | bool | string => exact .make relates (owned.mono own) shown
  | name id =>
    obtain ⟨yes, no, unbound⟩ := normal
    simp only [simplified, if_neg yes, if_neg no, unbound]
    exact .make relates (owned.mono own) shown
  | nameless id =>
    have made := Repeats.make relates (owned.mono own) shown
    cases id with
    | list items => exact absurd rfl (normal items)
    | none | bool | int | text | term => exact made
  | function parameter body =>
    obtain ⟨⟨x, rfl⟩, -⟩ := normal
    have named : Repeats base l w (Eval.plain s (.text x)) fun _ y => y = x := .examine relates rfl rfl
    refine named.bind ?_
    rintro _ between more later wider relates rfl
    have inner := parts body (List.mem_singleton_self body)
    refine (simplify (own.trans wider) relates (grown.trans later) inner).bind
      fun b after most _ wider' relates alike => .make relates (.function ?_ alike) shown
    exact ((own.trans wider).trans wider').data _ (List.forall_mem_nil _)
  | conditional condition yes no =>
    have decides := parts condition (List.mem_singleton_self condition)
    refine (simplify own relates grown decides).bind fun c after more _ wider relates alike => ?_
    have undecided : RepeatsTerm base more after (.conditional condition yes no)
        (Eval.make s (.conditional c yes no)) := by
      refine .make relates ?_ shown
      cases owned.mono (own.trans wider) with
      | conditional _ first second => exact .conditional alike first second
    have different := normal.2
    cases alike with
    | @bool d => exact absurd rfl (different d)
    | int | string | name | nameless | function | operation | conditional | nil | cons | list | wrapped | itemless
    | unknown | datum => exact undecided
  | chain items =>
    refine (Repeats.mapM relates fun after more later wider relates u member =>
      simplify (own.trans wider) relates (grown.trans later) (parts u member)).bind
        fun out after more _ wider relates each => ?_
    rw [contractAll_eq_self normal.2 (idle items (.self _)) each, pure_bind]
    have made : RepeatsTerm base more after (.chain items) (Eval.make s (.chain out)) :=
      .make relates (.chain each) shown
    have length : out.length ≠ 1 := by
      rw [← each.length_eq]
      exact normal.1
    rcases out with _ | ⟨first, _ | ⟨next, rest⟩⟩
    · exact made
    · exact absurd rfl length
    · exact made
  | list cell =>
    refine .get ?_
    rw [grown.items_eq cell normal.1]
    refine (Repeats.mapM relates fun after more later wider relates u member =>
      simplify (own.trans wider) relates (grown.trans later) (parts u member)).bind
        fun out after more _ wider relates each => ?_
    exact .makeList relates normal.1 each shown
  | operation | wrapped | itemless | unknown | datum => exact normal.elim

/-- What is simplified already comes out of simplification as it went in. -/
theorem repeating_simplify (coherent : base.Coherent) (s : Settings) (lookup : Lookup) (depth : Nat) :
    Repeating s lookup base depth (simplify s lookup depth) := by
  induction depth with
  | zero => exact fun _ _ _ steady => steady.normal.elim
  | succ depth ih =>
    intro l w t own relates grown steady
    have proper (d : Datum) (is : t = .datum d) : False := by
      subst is
      exact steady.normal
    -- The lines of the trace before and after it can be written.
    have told {more : Likeness} {after : World} {r : Term} (relates : more.Relates base after.store)
        (alike : Term.Alike more t r) (tracing : s.tracing = true) : Succeeds (r.dumped after.store s.depth) := by
      rw [(alike.texts_eq relates s.depth).2]
      exact steady.shown tracing
    have here := steady.owned.mono own
    rw [simplify.eq_3 s lookup t depth proper]
    refine (Repeats.trace relates fun tracing => Succeeds.map_iff.2 (told relates here tracing)).bind
      fun _ between more later wider relates _ => ?_
    refine (repeating_simplified coherent ih (own.trans wider) relates (grown.trans later) steady).bind
      fun r after most _ wider' relates alike => ?_
    have here := here.mono (wider.trans wider')
    refine (Repeats.trace relates fun tracing => ?_).bind fun _ _ _ _ wider relates _ =>
      .pure relates (alike.mono wider)
    exact Succeeds.and_iff.2 ⟨told relates here tracing, told relates alike tracing⟩

/-- A term that comes out of a simplification that is traced can be dumped. -/
theorem dumped_of_simplify {after : World} {r : Term} (ended : simplify s lookup depth t w = .ok r after)
    (tracing : s.tracing = true) : Succeeds (r.dumped after.store s.depth) := by
  cases depth with
  | zero => cases ended
  | succ depth =>
    by_cases isDatum : ∃ d, t = .datum d
    · obtain ⟨d, rfl⟩ := isDatum
      cases ended
    · rw [simplify.eq_3 s lookup t depth fun d same => isDatum ⟨d, same⟩] at ended
      obtain ⟨_, first, -, ended⟩ := ok_of_bind ended
      obtain ⟨result, second, -, ended⟩ := ok_of_bind ended
      obtain ⟨_, third, traced, ended⟩ := ok_of_bind ended
      cases ended
      obtain ⟨shown, -, same⟩ := ok_of_trace traced
      rw [same]
      exact (Succeeds.and_iff.1 (shown tracing)).2

end Simplify

/-- What has been simplified is left as it is when it is simplified once more, up to the cells of its lists,
unless a function stands right before an argument in it outside the clauses of conditionals. -/
theorem simplify_idempotent_of_idle {s : Settings} {lookup : Simplify.Lookup} {depth : Nat} {v t : Term}
    {w after : World} (sound : w.store.Sound)
    (known : ∀ id u, lookup.find? id = some u → u.Of w.store) (given : v.Of w.store)
    (ended : simplify s lookup depth v w = .ok t after) (idle : after.store.Idle t) :
    ∃ u last, simplify s lookup depth t after = .ok u last ∧ after.store.Equal last.store t u := by
  have owned : Simplify.Owned lookup w.store := fun id u found => (known id u found).owns
  obtain ⟨-, coherent, settled⟩ :=
    (Simplify.normalizes_simplify_replace s lookup depth).1 sound.coherent owned given.owns t after ended
  have steady : Simplify.Steady s lookup after.store depth t :=
    ⟨settled, idle, fun tracing => Simplify.dumped_of_simplify ended tracing⟩
  obtain ⟨u, last, more, again, -, -, relates, alike⟩ :=
    Simplify.repeating_simplify coherent s lookup depth (.refl _) coherent (.refl _) steady
  exact ⟨u, last, again, more, relates, alike⟩

/-- A function applied to a number gives a list that is left as it is. -/
theorem simplify_idempotent_of_list :
    ∃ t after, simplify ⟨false, 9⟩ [] 9 (.chain [.function (.text "x") (.list 0), .int (.int 3)])
        ⟨[], ⟨#[[.name "x"]], #[]⟩, #[]⟩ = .ok t after ∧ after.store.Idle t ∧
      ∃ u last, simplify ⟨false, 9⟩ [] 9 t after = .ok u last ∧ after.store.Equal last.store t u := by
  have sound : Store.Sound ⟨#[[.name "x"]], #[]⟩ := by
    constructor
    · intro cell t member
      cases cell with
      | zero =>
        cases List.mem_singleton.1 member
        exact ⟨List.forall_mem_nil _, List.forall_mem_nil _⟩
      | succ cell => cases member
    · intro cell old
      cases old
  have given : Term.Of ⟨#[[.name "x"]], #[]⟩ (.chain [.function (.text "x") (.list 0), .int (.int 3)]) :=
    ⟨by decide, by decide⟩
  have idle : Store.Idle ⟨#[[.name "x"], [.name "x"], [.int (.int 3)], [.int (.int 3)]], #[]⟩ (.list 3) := by
    rintro items (_ | ⟨member, active⟩)
    cases List.mem_singleton.1 member
    rcases active with _ | ⟨member, -⟩
    cases member
  have known : ∀ id u, Bindings.find? ([] : Bindings Term) id = some u →
      u.Of ⟨#[[.name "x"]], #[]⟩ := nofun
  have ended : simplify ⟨false, 9⟩ [] 9 (.chain [.function (.text "x") (.list 0), .int (.int 3)])
      ⟨[], ⟨#[[.name "x"]], #[]⟩, #[]⟩ =
        .ok (.list 3) ⟨[], ⟨#[[.name "x"], [.name "x"], [.int (.int 3)], [.int (.int 3)]], #[]⟩, #[]⟩ := rfl
  exact ⟨_, _, ended, idle, simplify_idempotent_of_idle sound known given ended idle⟩

/-- What is applied last is not simplified again: the function that comes to stand before the argument is applied
only when the chain is simplified once more. -/
theorem simplify_twice_differs :
    ∃ t after u last, simplify ⟨false, 9⟩ [] 9
        (.chain [.function (.text "y") (.name "y"), .function (.text "y") (.name "y"), .int (.int 5)])
        ⟨[], .empty, #[]⟩ = .ok t after ∧ simplify ⟨false, 9⟩ [] 9 t after = .ok u last ∧
      ¬ after.store.Equal last.store t u := by
  refine ⟨_, _, _, _, rfl, rfl, ?_⟩
  rintro ⟨l, -, alike⟩
  cases alike

end DotLambda
