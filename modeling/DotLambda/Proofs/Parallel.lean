import DotLambda.Proofs.Twins

/-!
Evaluations of two runs that go side by side, without tracing. Main statement: simplifying twins, and
replacing a name in twins, gives twins again or fails alike, and what both runs know stays alike. The first
run may be given less depth than the second; then it may run out of it.
-/

namespace DotLambda

variable {p : Pairing} {known more : Known} {mixed slack : Bool}

/-! ## What both runs know -/

/-- The text of a number or a truth value, which is no name that is called differently. -/
def Pairing.Plain (p : Pairing) (text : String) : Prop :=
  ((∃ n : Int, text = Text.Decimal.digits n) ∨ text = "True" ∨ text = "False") ∧ p.rename text = text

/-- Events that are the same, or lines neither of which is a number or a truth value, or coloured lines. Where
no name is called differently they are the same. -/
inductive Event.Alike (p : Pairing) : Event → Event → Prop where
  | same (e : Event) : Alike p e e
  | line {text text' : String} (inexact : ¬ p.Exact) (here : ¬ p.Plain text) (there : ¬ p.Plain text') :
      Alike p (.line text) (.line text')
  | colored {color : Color} {text text' : String} (inexact : ¬ p.Exact) :
      Alike p (.colored color text) (.colored color text')

theorem Text.Decimal.space_not_mem_digits (n : Int) : ' ' ∉ (Text.Decimal.digits n).toList := by
  have digits (m : Nat) : ' ' ∉ m.repr.toList := by
    rw [Nat.toList_repr]
    exact fun member => absurd (Nat.isDigit_of_mem_toDigits (by decide) (by decide) member) (by decide)
  cases n with
  | ofNat m => exact digits m
  | negSucc m =>
    rw [Text.Decimal.digits, String.toList_append, List.mem_append]
    exact fun member => member.elim (by decide) (digits (m + 1))

theorem Pairing.not_plain_of_spaced {text : String} (spaced : Spaced text) : ¬ p.Plain text := by
  rintro ⟨⟨n, rfl⟩ | rfl | rfl, -⟩
  · exact Text.Decimal.space_not_mem_digits n spaced
  · exact absurd spaced (by decide)
  · exact absurd spaced (by decide)

namespace Event.Alike

/-- Lines with spaces in them are alike. -/
theorem ofSpaced {text text' : String} (same : p.Exact → text' = text) (here : Spaced text)
    (there : Spaced text') : Event.Alike p (.line text) (.line text') := by
  by_cases exact : p.Exact
  · rw [same exact]
    exact .same _
  · exact .line exact (Pairing.not_plain_of_spaced here) (Pairing.not_plain_of_spaced there)

/-- Printed texts that are alike make lines that are. -/
theorem ofLike {text text' : String} (like : p.Like text text') :
    Event.Alike p (.line (Text.Peeled.peel "(" ")" text)) (.line (Text.Peeled.peel "(" ")" text')) := by
  cases like with
  | same => exact .same _
  | spaced inexact here there =>
    exact .ofSpaced (fun exact => absurd exact inexact) (Text.Peeled.spaced_peel rfl rfl here)
      (Text.Peeled.spaced_peel rfl rfl there)
  | named moved =>
    have moved' : p.rename (p.rename text) ≠ p.rename text := fun again => moved (p.injective again)
    rw [Text.Peeled.peel_eq_self (by decide) (p.unenclosed text moved),
      Text.Peeled.peel_eq_self (by decide) (p.unenclosed _ moved')]
    exact .line (fun exact => moved (exact text)) (fun plain => moved plain.2) (fun plain => moved' plain.2)

theorem colors {color : Color} {text text' : String} (same : p.Exact → text' = text) :
    Event.Alike p (.colored color text) (.colored color text') := by
  by_cases exact : p.Exact
  · rw [same exact]
    exact .same _
  · exact .colored exact

theorem eq {e e' : Event} (alike : Event.Alike p e e') (exact : p.Exact) : e' = e := by
  cases alike with
  | same => rfl
  | line inexact | colored inexact => exact absurd exact inexact

end Event.Alike

/-- Worlds of two runs: names stand for twins, lists that both know hold twins, and what has been written is
alike. Lists that are not known are the same where no name is called differently. -/
structure Twinned (p : Pairing) (known : Known) (w w' : World) : Prop where
  lookups : Lookups p known w.bindings w'.bindings
  stores : TwinStores p known w.store w'.store
  size_eq : w'.store.size = w.store.size
  range : ∀ mixed cell, known mixed cell → cell < w.store.size
  graded : known.Graded
  others_eq : p.Exact → ∀ cell, ¬ known true cell → w'.store.items cell = w.store.items cell
  terms_eq : w'.store.terms = w.store.terms
  output : List.Forall₂ (Event.Alike p) w.output.toList w'.output.toList

namespace Known

/-- One more list is known, in a given cell. -/
def extend (known : Known) (cell : Nat) (mixed : Bool) : Known :=
  fun mixed' other => known mixed' other ∨ other = cell ∧ (mixed = true → mixed' = true)

theorem le_extend (cell : Nat) : known.Le (known.extend cell mixed) := fun _ _ is => .inl is

theorem Graded.extend (graded : known.Graded) (cell : Nat) : (known.extend cell mixed).Graded := by
  rintro other (is | ⟨rfl, -⟩)
  · exact .inl (graded other is)
  · exact .inr ⟨rfl, fun _ => rfl⟩

end Known

namespace Twinned

variable {w w' : World}

theorem emit (twinned : Twinned p known w w') {e e' : Event} (alike : Event.Alike p e e') :
    Twinned p known { w with output := w.output.push e } { w' with output := w'.output.push e' } where
  __ := twinned
  output := by
    rw [Array.toList_push, Array.toList_push]
    exact List.rel_append twinned.output (.cons alike .nil)

/-- A list in the next cell of both runs. -/
theorem allocate (twinned : Twinned p known w w') {items items' : List Term}
    (twins : Twins p known mixed items items') :
    Twinned p (known.extend w.store.size mixed) { w with store := w.store.allocate items }
      { w' with store := w'.store.allocate items' } := by
  have wider : known.Le (known.extend w.store.size mixed) := Known.le_extend _
  have old {cell : Nat} (is : cell < w.store.size) :
      (w.store.allocate items).items cell = w.store.items cell ∧
        (w'.store.allocate items').items cell = w'.store.items cell :=
    ⟨Store.items_allocate_of_lt _ _ is, Store.items_allocate_of_lt _ _ (twinned.size_eq ▸ is)⟩
  have graded : (known.extend w.store.size mixed).Graded := twinned.graded.extend _
  refine ⟨twinned.lookups.mono wider, ?_, ?_, ?_, graded, ?_, twinned.terms_eq, twinned.output⟩
  · rintro mixed' cell (is | ⟨rfl, le⟩)
    · obtain ⟨same, same'⟩ := old (twinned.range _ _ is)
      rw [same, same']
      exact (twinned.stores _ _ is).mono wider
    · rw [Store.items_allocate_self, ← twinned.size_eq, Store.items_allocate_self]
      rw [twinned.size_eq]
      exact (twins.mono wider).grade graded le
  · rw [Store.size_allocate, Store.size_allocate, twinned.size_eq]
  · rintro mixed' cell (is | ⟨rfl, -⟩) <;> rw [Store.size_allocate]
    · exact Nat.lt_succ_of_lt (twinned.range _ _ is)
    · exact Nat.lt_succ_self _
  · intro exact cell unknown
    have before : ¬ known true cell := fun is => unknown (.inl is)
    have different : cell ≠ w.store.size := fun same => unknown (.inr ⟨same, fun _ => rfl⟩)
    rcases Nat.lt_or_gt_of_ne different with is | beyond
    · obtain ⟨same, same'⟩ := old is
      rw [same, same']
      exact twinned.others_eq exact cell before
    · rw [Store.items_of_le (by rw [Store.size_allocate, twinned.size_eq]; exact beyond),
        Store.items_of_le (by rw [Store.size_allocate]; exact beyond)]

/-- One more item in a list that holds no blank. -/
theorem append (twinned : Twinned p known w w') {cell : Nat} (is : known false cell) {t t' : Term}
    (twin : Twin p known false t t') :
    Twinned p known { w with store := w.store.append cell t }
      { w' with store := w'.store.append cell t' } := by
  have old := twinned.range _ _ is
  refine ⟨twinned.lookups, ?_, ?_, ?_, twinned.graded, ?_, twinned.terms_eq, twinned.output⟩
  · intro mixed' other listed
    by_cases same : other = cell
    · subst same
      rw [Store.items_append_self _ _ old, Store.items_append_self _ _ (twinned.size_eq ▸ old)]
      exact List.rel_append (twinned.stores _ _ listed) (.cons (twin.weaken twinned.graded) .nil)
    · rw [Store.items_append_of_ne _ _ same, Store.items_append_of_ne _ _ same]
      exact twinned.stores _ _ listed
  · rw [Store.size_append, Store.size_append, twinned.size_eq]
  · intro mixed' other listed
    rw [Store.size_append]
    exact twinned.range _ _ listed
  · intro exact other unknown
    have different : other ≠ cell := fun same => unknown (same ▸ twinned.graded cell is)
    rw [Store.items_append_of_ne _ _ different, Store.items_append_of_ne _ _ different]
    exact twinned.others_eq exact other unknown

theorem insert (twinned : Twinned p known w w') {id : String} (other : ¬ p.IsBlank id) {t t' : Term}
    (twin : Twin p known false t t') :
    Twinned p known { w with bindings := w.bindings.insert id t }
      { w' with bindings := w'.bindings.insert (p.rename id) t' } :=
  { twinned with lookups := twinned.lookups.insert other twin }

end Twinned

/-! ## Evaluations -/

namespace Eval

/-- Evaluations that go side by side: both succeed and leave worlds that are twins, with good results, or both
fail and leave such worlds. The first may run out of depth where there is slack. -/
def Parallel {α β : Type} (p : Pairing) (slack : Bool) (known : Known) (w w' : World) (x : Eval α) (x' : Eval β)
    (good : Known → α → β → Prop) : Prop :=
  match x w, x' w' with
  | .ok a after, .ok b after' => ∃ more, known.Le more ∧ Twinned p more after after' ∧ good more a b
  | .error e after, .error e' after' =>
    slack = true ∧ e = .endless ∨
      (p.Exact → e' = e) ∧ ∃ more, known.Le more ∧ Twinned p more after after'
  | .error e _, .ok _ _ => slack = true ∧ e = .endless
  | .ok _ _, .error _ _ => False

/-- Evaluations of terms that go side by side. -/
abbrev ParallelTerm (p : Pairing) (slack : Bool) (known : Known) (w w' : World) (mixed : Bool)
    (x x' : Eval Term) : Prop :=
  Parallel p slack known w w' x x' fun more t t' => Twin p more mixed t t'

namespace Parallel

variable {α β γ δ : Type} {w w' : World} {x : Eval α} {x' : Eval β} {good : Known → α → β → Prop}

theorem pure {a : α} {b : β} (twinned : Twinned p known w w') (fine : good known a b) :
    Parallel p slack known w w' (pure a) (pure b) good :=
  ⟨known, .refl known, twinned, fine⟩

theorem throw {e e' : Error} (twinned : Twinned p known w w') (same : p.Exact → e' = e) :
    Parallel p slack known w w' (throw e) (throw e') good :=
  .inr ⟨same, known, .refl known, twinned⟩

/-- Where the first has run out of depth, nothing is said of the second. -/
theorem endless (runs : slack = true) {after : World} (ended : x w = .error .endless after) :
    Parallel p slack known w w' x x' good := by
  unfold Parallel
  rw [ended]
  cases x' w' with
  | ok b _ => exact ⟨runs, rfl⟩
  | error e _ => exact .inl ⟨runs, rfl⟩

theorem ofOk {a : α} {b : β} {after after' : World} (ended : x w = .ok a after) (ended' : x' w' = .ok b after')
    (wider : known.Le more) (twinned : Twinned p more after after') (fine : good more a b) :
    Parallel p slack known w w' x x' good := by
  unfold Parallel
  rw [ended, ended']
  exact ⟨more, wider, twinned, fine⟩

theorem ofError {e e' : Error} {after after' : World} (ended : x w = .error e after)
    (ended' : x' w' = .error e' after') (same : p.Exact → e' = e) (wider : known.Le more)
    (twinned : Twinned p more after after') : Parallel p slack known w w' x x' good := by
  unfold Parallel
  rw [ended, ended']
  exact .inr ⟨same, more, wider, twinned⟩

/-- Both succeed, or both fail, or the first has run out of depth. -/
theorem cases (parallel : Parallel p slack known w w' x x' good) :
    (∃ a after b after' more, x w = .ok a after ∧ x' w' = .ok b after' ∧ known.Le more ∧
      Twinned p more after after' ∧ good more a b) ∨
    (∃ e after e' after' more, x w = .error e after ∧ x' w' = .error e' after' ∧ (p.Exact → e' = e) ∧
      known.Le more ∧ Twinned p more after after') ∨
    slack = true ∧ ∃ after, x w = .error .endless after := by
  unfold Parallel at parallel
  cases ended : x w with
  | ok a after =>
    cases ended' : x' w' with
    | ok b after' =>
      rw [ended, ended'] at parallel
      obtain ⟨more, wider, twinned, fine⟩ := parallel
      exact .inl ⟨a, after, b, after', more, rfl, rfl, wider, twinned, fine⟩
    | error e after' =>
      rw [ended, ended'] at parallel
      exact parallel.elim
  | error e after =>
    cases ended' : x' w' with
    | ok b after' =>
      rw [ended, ended'] at parallel
      obtain ⟨runs, rfl⟩ := parallel
      exact .inr (.inr ⟨runs, after, rfl⟩)
    | error e' after' =>
      rw [ended, ended'] at parallel
      rcases parallel with ⟨runs, rfl⟩ | ⟨same, more, wider, twinned⟩
      · exact .inr (.inr ⟨runs, after, rfl⟩)
      · exact .inr (.inl ⟨e, after, e', after', more, rfl, rfl, same, wider, twinned⟩)

theorem widen (wider : known.Le more) (parallel : Parallel p slack more w w' x x' good) :
    Parallel p slack known w w' x x' good := by
  rcases parallel.cases with ⟨_, _, _, _, _, ended, ended', later, twinned, fine⟩ |
    ⟨_, _, _, _, _, ended, ended', same, later, twinned⟩ | ⟨runs, _, ended⟩
  · exact .ofOk ended ended' (wider.trans later) twinned fine
  · exact .ofError ended ended' same (wider.trans later) twinned
  · exact .endless runs ended

theorem bind {f : α → Eval γ} {f' : β → Eval δ} {best : Known → γ → δ → Prop}
    (first : Parallel p slack known w w' x x' good)
    (next : ∀ more after after' a b, known.Le more → Twinned p more after after' → good more a b →
      Parallel p slack more after after' (f a) (f' b) best) :
    Parallel p slack known w w' (x >>= f) (x' >>= f') best := by
  rcases first.cases with ⟨a, after, b, after', more, ended, ended', wider, twinned, fine⟩ |
    ⟨_, _, _, _, _, ended, ended', same, wider, twinned⟩ | ⟨runs, _, ended⟩
  · have rest := (next more after after' a b wider twinned fine).widen wider
    unfold Parallel at rest ⊢
    rw [bind_of_ok ended, bind_of_ok ended']
    exact rest
  · exact .ofError (bind_of_error ended) (bind_of_error ended') same wider twinned
  · exact .endless runs (bind_of_error ended)

/-- What the result of the first evaluation always satisfies holds in both. -/
theorem conj {holds : α → Prop} (parallel : Parallel p slack known w w' x x' good)
    (always : ∀ a after, x w = .ok a after → holds a) :
    Parallel p slack known w w' x x' fun more a b => good more a b ∧ holds a := by
  rcases parallel.cases with ⟨a, after, _, _, _, ended, ended', wider, twinned, fine⟩ |
    ⟨_, _, _, _, _, ended, ended', same, wider, twinned⟩ | ⟨runs, _, ended⟩
  · exact .ofOk ended ended' wider twinned ⟨fine, always a after ended⟩
  · exact .ofError ended ended' same wider twinned
  · exact .endless runs ended

theorem get {f : World → Eval γ} {f' : World → Eval δ} {best : Known → γ → δ → Prop}
    (next : Parallel p slack known w w' (f w) (f' w') best) :
    Parallel p slack known w w' (MonadState.get >>= f) (MonadState.get >>= f') best := next

theorem ofExcept {e : Except Error α} {e' : Except Error β} (twinned : Twinned p known w w')
    (agree : Agree slack (good known) e e') :
    Parallel p slack known w w' (Eval.ofExcept e) (Eval.ofExcept e') good := by
  cases e with
  | ok a =>
    cases e' with
    | ok b => exact .pure twinned agree
    | error _ => exact agree.elim
  | error e =>
    cases e' with
    | ok b => exact agree
    | error e' =>
      rcases agree with runs | same
      · exact .inl runs
      · exact .throw twinned fun _ => same

theorem examine {f : Store → Except Error α} {f' : Store → Except Error β} (twinned : Twinned p known w w')
    (agree : Agree slack (good known) (f w.store) (f' w'.store)) :
    Parallel p slack known w w' (Eval.examine f) (Eval.examine f') good :=
  .get (.ofExcept twinned agree)

theorem emit {e e' : Event} (twinned : Twinned p known w w') (alike : Event.Alike p e e') :
    Parallel p slack known w w' (Eval.emit e) (Eval.emit e') fun _ _ _ => True :=
  ⟨known, .refl known, twinned.emit alike, trivial⟩

theorem newList {items items' : List Term} (twinned : Twinned p known w w')
    (twins : Twins p known mixed items items') :
    ParallelTerm p slack known w w' mixed (Eval.newList items) (Eval.newList items') := by
  refine ⟨known.extend w.store.size mixed, Known.le_extend _, twinned.allocate twins, ?_⟩
  rw [twinned.size_eq]
  exact .list (.inr ⟨rfl, id⟩)

theorem copy {t t' : Term} (twinned : Twinned p known w w') (twin : Twin p known mixed t t')
    (plain : t.references = []) (plain' : t'.references = []) :
    ParallelTerm p slack known w w' mixed (Eval.copy t) (Eval.copy t') :=
  .ofOk (copy_eq_self plain) (copy_eq_self plain') (.refl known) twinned twin

theorem mapM {f f' : Term → Eval Term} {items items' : List Term} (twinned : Twinned p known w w')
    (twins : Twins p known mixed items items')
    (each : ∀ more after after', known.Le more → Twinned p more after after' → ∀ t t',
      Twin p more mixed t t' → ParallelTerm p slack more after after' mixed (f t) (f' t')) :
    Parallel p slack known w w' (items.mapM f) (items'.mapM f') fun more out out' =>
      Twins p more mixed out out' ∧ out.length = items.length := by
  induction items generalizing known w w' items' with
  | nil =>
    cases twins
    exact .pure twinned ⟨.nil, rfl⟩
  | cons t rest ih =>
    cases twins with
    | cons twin others =>
      rw [List.mapM_cons, List.mapM_cons]
      refine (each known w w' (.refl known) twinned _ _ twin).bind fun more _ _ a a' wider twinned fine => ?_
      have rest := ih twinned (Twins.mono others wider) fun most _ _ later twinned t t' twin =>
        each most _ _ (wider.trans later) twinned t t' twin
      exact rest.bind fun most _ _ as as' later twinned others =>
        .pure twinned ⟨.cons (fine.mono later) others.1, congrArg (· + 1) others.2⟩

theorem forM {f : α → Eval Unit} {f' : β → Eval Unit} {items : List α} {items' : List β}
    {like : Known → α → β → Prop} (grows : ∀ {known more a b}, known.Le more → like known a b → like more a b)
    (twinned : Twinned p known w w') (alike : List.Forall₂ (like known) items items')
    (each : ∀ more after after', Twinned p more after after' → ∀ a b, like more a b →
      Parallel p slack more after after' (f a) (f' b) fun _ _ _ => True) :
    Parallel p slack known w w' (items.forM f) (items'.forM f') fun _ _ _ => True := by
  induction items generalizing known w w' items' with
  | nil =>
    cases alike
    exact .pure twinned trivial
  | cons a rest ih =>
    cases alike with
    | @cons _ b _ rest' first others =>
      change Parallel p slack known w w' (do f a; rest.forM f) (do f' b; rest'.forM f') _
      refine (each known w w' twinned a b first).bind fun more _ _ _ _ wider twinned _ => ?_
      exact ih twinned (others.imp fun _ _ like => grows wider like)

end Parallel

end Eval

/-- What an operator computes on data that refer to no terms does not depend on the terms. -/
theorem Operator.apply_congr (w v : Wording) {op : Operator} {l r : Datum} (left : l.references = [])
    (right : r.references = []) : op.apply w l r = op.apply v l r := by
  unfold apply comparison
  rw [Datum.plain_congr w v left, Datum.plain_congr w v right]

/-- Settings without tracing, of which the first may have less depth where there is slack. -/
structure Settings.Deepens (slack : Bool) (s s' : Settings) : Prop where
  untraced : s.tracing = false
  untraced' : s'.tracing = false
  deeper : Deeper slack s.depth s'.depth

namespace Eval.Parallel

variable {s s' : Settings} (deepens : s.Deepens slack s') {w w' : World}
include deepens

theorem make {t t' : Term} (twinned : Twinned p known w w') (twin : Twin p known mixed t t') :
    ParallelTerm p slack known w w' mixed (Eval.make s t) (Eval.make s' t') := by
  rw [Eval.make_untraced deepens.untraced, Eval.make_untraced deepens.untraced']
  exact .pure twinned twin

theorem makeList {items items' : List Term} (twinned : Twinned p known w w')
    (twins : Twins p known mixed items items') :
    ParallelTerm p slack known w w' mixed (Eval.makeList s items) (Eval.makeList s' items') := by
  simp only [Eval.makeList, Eval.announce, Eval.announceResult, Eval.trace_untraced deepens.untraced,
    Eval.trace_untraced deepens.untraced', pure_bind, bind_pure]
  exact .newList twinned twins

omit deepens in
/-- What an operator computes does not depend on the run. -/
theorem apply {op : Operator} {l r : Datum} (twinned : Twinned p known w w') (left : l.references = [])
    (right : r.references = []) :
    Parallel p slack known w w' (Eval.apply s op l r) (Eval.apply s' op l r) fun _ d d' =>
      d' = d ∧ d.references = [] := by
  refine .examine twinned ?_
  rw [Operator.apply_congr (Term.wording w'.store s'.depth) (Term.wording w.store s.depth) left right]
  exact .refl fun d computed => ⟨rfl, Operator.references_of_apply computed⟩

omit deepens in
/-- The text of a datum that refers to no term does not depend on the run. -/
theorem plain {d : Datum} (twinned : Twinned p known w w') (none : d.references = []) :
    Parallel p slack known w w' (Eval.plain s d) (Eval.plain s' d) fun _ text text' => text' = text := by
  refine .examine twinned ?_
  rw [Datum.plain_congr (Term.wording w'.store s'.depth) (Term.wording w.store s.depth) none]
  exact .refl fun _ _ => rfl

omit deepens in
/-- The text of a name is the name. -/
theorem parameter (y : String) (twinned : Twinned p known w w') :
    Parallel p slack known w w' (Eval.plain s (.text y)) (Eval.plain s' (.text (p.rename y)))
      fun _ text text' => text = y ∧ text' = p.rename y :=
  .pure twinned ⟨rfl, rfl⟩

end Eval.Parallel

/-! ## Simplification -/

open Eval

namespace Simplify

variable {lookup lookup' : Lookup} {w w' : World}

/-- Ways to evaluate terms that take twins to twins, mixed ones only where they are allowed. -/
def Parallels (p : Pairing) (slack : Bool) (lookup lookup' : Lookup) (allowed : Prop)
    (f f' : Term → Eval Term) : Prop :=
  ∀ {known : Known} {w w' : World}, Twinned p known w w' → Lookups p known lookup lookup' →
    ∀ {mixed : Bool}, (mixed = true → allowed) → ∀ {t t' : Term}, Twin p known mixed t t' →
      ParallelTerm p slack known w w' mixed (f t) (f' t')

/-- Ways to replace a name by an argument, which is the same in both runs. The blank is not replaced where it
may stand. -/
def ParallelsGiven (p : Pairing) (slack : Bool) (lookup lookup' : Lookup)
    (f f' : Datum → Term → Term → Eval Term) : Prop :=
  ∀ {y : String} {value : Term}, value.isArgument = true → value.references = [] →
    Parallels p slack lookup lookup' (¬ p.IsBlank y) (f (.text y) value) (f' (.text (p.rename y)) value)

/-- Functions that twins are or name: neither is one, or both are with bodies that are twins. -/
inductive Functions (p : Pairing) (known : Known) (mixed : Bool) :
    Option (Datum × Term) → Option (Datum × Term) → Prop where
  | none : Functions p known mixed none none
  | some {inside : Bool} {y : String} {body body' : Term} (le : inside = true → mixed = true)
      (free : inside = true → ¬ p.IsBlank y) (inner : Twin p known inside body body') :
      Functions p known mixed (some (.text y, body)) (some (.text (p.rename y), body'))

theorem functions_of_twin {t t' : Term} (lookups : Lookups p known lookup lookup')
    (twin : Twin p known mixed t t') :
    Functions p known mixed (functionOf? lookup t) (functionOf? lookup' t') := by
  cases twin with
  | function le free inner => exact .some le free inner
  | @name _ id ordinary =>
    have found := lookups.find? ordinary.named
    simp only [functionOf?]
    generalize lookup.find? id = here at found ⊢
    generalize lookup'.find? (p.rename id) = there at found ⊢
    cases found with
    | none => exact .none
    | some twin =>
      cases twin with
      | function le free inner => exact .some (fun is => nomatch le is) free inner
      | int | bool | string | name | operation | conditional | pair | more | list => exact .none
  | @blank x n is =>
    simp only [functionOf?, lookups.unbound x ⟨n, is⟩]
    exact .none
  | int | bool | string | operation | conditional | pair | more | list => exact .none

theorem parallel_contract {f f' : Datum → Term → Term → Eval Term}
    (apply : ParallelsGiven p slack lookup lookup' f f') {first first' : Term} {rest rest' : List Term}
    (twinned : Twinned p known w w') (lookups : Lookups p known lookup lookup')
    (head : Twin p known mixed first first') (others : Twins p known false rest rest') :
    Parallel p slack known w w' (contract lookup f first rest) (contract lookup' f' first' rest')
      fun more out out' => Headed p more mixed out out' := by
  induction rest generalizing known w w' mixed first first' rest' with
  | nil =>
    cases others
    exact .pure twinned (.cons head .nil)
  | cons next rest ih =>
    cases others with
    | @cons _ next' _ rest' second others =>
      have functions := functions_of_twin lookups head
      have kept : Parallel p slack known w w'
          (do let others ← contract lookup f next rest; pure (first :: others))
          (do let others ← contract lookup' f' next' rest'; pure (first' :: others))
          fun more out out' => Headed p more mixed out out' :=
        (ih twinned lookups second others).bind fun _ _ _ _ _ wider twinned headed =>
          .pure twinned (.cons (head.mono wider) headed.twins)
      simp only [contract, second.isArgument_eq]
      generalize functionOf? lookup first = here at functions ⊢
      generalize functionOf? lookup' first' = there at functions ⊢
      cases functions with
      | none => exact kept
      | @some inside y body body' le free inner =>
        cases argument : next.isArgument with
        | false => exact kept
        | true =>
          obtain ⟨rfl, plain⟩ := second.eq_of_isArgument argument
          refine (apply argument plain twinned lookups free inner).bind
            fun more _ _ _ _ wider twinned result => ?_
          exact ih twinned (lookups.mono wider) (result.grade twinned.graded le) (Twins.mono others wider)

theorem parallel_contractAll {f f' : Datum → Term → Term → Eval Term}
    (apply : ParallelsGiven p slack lookup lookup' f f') {items items' : List Term}
    (twinned : Twinned p known w w') (lookups : Lookups p known lookup lookup')
    (headed : Headed p known mixed items items') :
    Parallel p slack known w w' (contractAll lookup f items) (contractAll lookup' f' items')
      fun more out out' => Headed p more mixed out out' := by
  obtain ⟨head, others⟩ := headed
  exact parallel_contract apply twinned lookups head others

/-- The items of chains are evaluated side by side. -/
theorem parallel_items {allowed : Prop} {f f' : Term → Eval Term}
    (evaluate : Parallels p slack lookup lookup' allowed f f') {items items' : List Term}
    (twinned : Twinned p known w w') (lookups : Lookups p known lookup lookup') (free : mixed = true → allowed)
    (headed : Headed p known mixed items items') :
    Parallel p slack known w w' (items.mapM f) (items'.mapM f') fun more out out' =>
      Headed p more mixed out out' ∧ out.length = items.length := by
  obtain ⟨head, others⟩ := headed
  rw [List.mapM_cons, List.mapM_cons]
  refine (evaluate twinned lookups free head).bind fun more _ _ _ _ wider twinned first => ?_
  have rest := Parallel.mapM twinned (Twins.mono others wider) fun most _ _ later twinned _ _ twin =>
    evaluate twinned (lookups.mono (wider.trans later)) (nofun : false = true → allowed) twin
  exact rest.bind fun most _ _ _ _ later twinned others =>
    .pure twinned ⟨.cons (first.mono later) others.1, congrArg (· + 1) others.2⟩

theorem parallel_resolve {f f' : Term → Eval Term} (simplify : Parallels p slack lookup lookup' True f f')
    (twinned : Twinned p known w w') (lookups : Lookups p known lookup lookup') {t t' : Term}
    (twin : Twin p known false t t') :
    ParallelTerm p slack known w w' false (resolve lookup f t) (resolve lookup' f' t') := by
  have whole := twin
  cases twin with
  | @name _ id ordinary =>
    have found := lookups.find? ordinary.named
    simp only [resolve]
    generalize lookup.find? id = here at found ⊢
    generalize lookup'.find? (p.rename id) = there at found ⊢
    cases found with
    | none => exact .pure twinned whole
    | some twin => exact simplify twinned lookups (fun _ => trivial) twin
  | int | bool | string | function | operation | conditional | pair | more | list => exact .pure twinned whole

variable {s s' : Settings} (deepens : s.Deepens slack s')
include deepens

/-- The literal of what an operator computes, however it is made. -/
theorem parallel_literal {op : Operator} {l r : Datum} {wrap : Datum → Term} (twinned : Twinned p known w w')
    (left : l.references = []) (right : r.references = [])
    (literal : ∀ known, ∀ d : Datum, d.references = [] → Twin p known mixed (wrap d) (wrap d)) :
    ParallelTerm p slack known w w' mixed (do let d ← Eval.apply s op l r; Eval.make s (wrap d))
      (do let d ← Eval.apply s' op l r; Eval.make s' (wrap d)) := by
  refine (Parallel.apply twinned left right).bind fun more _ _ d d' _ twinned computed => ?_
  obtain ⟨rfl, plain⟩ := computed
  exact .make deepens twinned (literal more _ plain)

omit deepens in
theorem twin_literal {op : Operator} {d : Datum} (plain : d.references = []) :
    Twin p known mixed (literal op d) (literal op d) := by
  unfold literal
  split
  · exact .int plain
  · exact .bool plain

omit deepens in
theorem twin_stringLiteral {op : Operator} {d : Datum} (plain : d.references = []) :
    Twin p known mixed (stringLiteral op d) (stringLiteral op d) := by
  unfold stringLiteral
  split
  · exact .string plain
  · exact twin_literal plain

theorem parallel_compute {op : Operator} (signed : op.sign.references = []) {l l' r r' : Term}
    (twinned : Twinned p known w w') (left : Twin p known false l l') (right : Twin p known false r r') :
    ParallelTerm p slack known w w' mixed (compute s op l r) (compute s' op l' r') := by
  unfold compute
  split
  · cases left with
    | int plain =>
      cases right with
      | int plain' => exact parallel_literal deepens twinned plain plain' fun _ _ => twin_literal
  · cases left with
    | bool plain =>
      cases right with
      | bool plain' => exact parallel_literal deepens twinned plain plain' fun _ _ => twin_literal
  · cases left with
    | string plain =>
      cases right with
      | string plain' => exact parallel_literal deepens twinned plain plain' fun _ _ => twin_stringLiteral
  · rename_i notInts notBools notStrings
    split
    · exact (notInts _ _ left.eq_int.1 right.eq_int.1).elim
    · exact (notBools _ _ left.eq_bool.1 right.eq_bool.1).elim
    · exact (notStrings _ _ left.eq_string.1 right.eq_string.1).elim
    · rw [left.kind_eq, right.kind_eq]
      refine (Parallel.plain twinned signed).bind fun _ _ _ _ _ _ twinned same => .throw twinned fun _ => ?_
      rw [same]

theorem parallels_simplified {f f' : Term → Eval Term} {g g' : Datum → Term → Term → Eval Term}
    (simplify : Parallels p slack lookup lookup' True f f')
    (replace : ParallelsGiven p slack lookup lookup' g g') :
    Parallels p slack lookup lookup' True (simplified s lookup f g) (simplified s' lookup' f' g') := by
  intro known w w' twinned lookups mixed _ t t' twin
  have anyway {mixed : Bool} : mixed = true → True := fun _ => trivial
  have chain {items items' : List Term} (headed : Headed p known mixed items items') :
      ParallelTerm p slack known w w' mixed (simplified s lookup f g (.chain items))
        (simplified s' lookup' f' g' (.chain items')) := by
    refine (parallel_items simplify twinned lookups anyway headed).bind
      fun more _ _ _ _ wider twinned simplified => ?_
    have lookups := lookups.mono wider
    refine (parallel_contractAll replace twinned lookups simplified.1).bind
      fun most _ _ _ _ later twinned headed => ?_
    obtain ⟨head, others⟩ := headed
    cases others with
    | nil => exact simplify twinned (lookups.mono later) anyway head
    | cons second others => exact .make deepens twinned (.chain head second others)
  cases twin with
  | int plain => exact .make deepens twinned (.int plain)
  | bool plain => exact .make deepens twinned (.bool plain)
  | string plain => exact .make deepens twinned (.string plain)
  | @name _ id ordinary =>
    simp only [simplified, Pairing.rename_eq_true, Pairing.rename_eq_false]
    by_cases isTrue : id = "true"
    · rw [if_pos isTrue, if_pos isTrue]
      exact .make deepens twinned (.bool rfl)
    by_cases isFalse : id = "false"
    · rw [if_neg isTrue, if_neg isTrue, if_pos isFalse, if_pos isFalse]
      exact .make deepens twinned (.bool rfl)
    rw [if_neg isTrue, if_neg isTrue, if_neg isFalse, if_neg isFalse]
    have found := lookups.find? ordinary.named
    generalize lookup.find? id = here at found ⊢
    generalize lookup'.find? (p.rename id) = there at found ⊢
    cases found with
    | none => exact .make deepens twinned (.name ordinary)
    | some twin => exact simplify twinned lookups anyway (twin.weaken twinned.graded)
  | @blank x n is =>
    have notTrue : x ≠ "true" := by
      rintro rfl
      exact p.blank_ne_true n is
    have notFalse : x ≠ "false" := by
      rintro rfl
      exact p.blank_ne_false n is
    simp only [simplified, if_neg notTrue, if_neg notFalse, lookups.unbound x ⟨n, is⟩]
    exact .make deepens twinned (.blank is)
  | @function _ inside y body body' le free inner =>
    refine (Parallel.parameter y twinned).bind fun more _ _ _ _ wider twinned texts => ?_
    obtain ⟨rfl, rfl⟩ := texts
    refine (simplify twinned (lookups.mono wider) anyway (inner.mono wider)).bind
      fun most _ _ _ _ _ twinned inner => ?_
    exact .make deepens twinned (.function le free inner)
  | operation left plain right =>
    refine (simplify twinned lookups anyway left).bind fun first _ _ _ _ wider twinned left => ?_
    have lookups := lookups.mono wider
    refine (simplify twinned lookups anyway (right.mono wider)).bind
      fun second _ _ _ _ wider twinned right => ?_
    have lookups := lookups.mono wider
    refine (parallel_resolve simplify twinned lookups (left.mono wider)).bind
      fun third _ _ _ _ wider twinned left => ?_
    have lookups := lookups.mono wider
    refine (parallel_resolve simplify twinned lookups (right.mono wider)).bind
      fun fourth _ _ _ _ wider twinned right => ?_
    exact parallel_compute deepens plain twinned (left.mono wider) right
  | conditional decides first second =>
    refine (simplify twinned lookups anyway decides).bind fun more _ _ c c' wider twinned decided => ?_
    have lookups := lookups.mono wider
    have kept := Twin.conditional decided (first.mono wider) (second.mono wider)
    cases decided with
    | @bool _ d plain =>
      dsimp only
      cases d.truth with
      | true => exact simplify twinned lookups anyway (first.mono wider)
      | false => exact simplify twinned lookups anyway (second.mono wider)
    | int | string | name | blank | function | operation | conditional | pair | more | list =>
      exact .make deepens twinned kept
  | pair head next => exact chain (.cons head (.cons next .nil))
  | more head others =>
    obtain ⟨_, same, -, headed⟩ := others.headed
    cases same
    exact chain (.cons head headed.twins)
  | @list _ cell is =>
    refine .get ?_
    refine (Parallel.mapM twinned (twinned.stores _ _ is) fun more _ _ wider twinned _ _ twin =>
      simplify twinned (lookups.mono wider) anyway twin).bind fun _ _ _ _ _ _ twinned twins => ?_
    exact .makeList deepens twinned twins.1

theorem parallels_replaced {f f' g g' : Term → Eval Term} {y : String} {value : Term}
    (simplify : Parallels p slack lookup lookup' True f f')
    (replace : Parallels p slack lookup lookup' (¬ p.IsBlank y) g g') (argument : value.isArgument = true)
    (plain : value.references = []) :
    Parallels p slack lookup lookup' (¬ p.IsBlank y) (replaced s f (.text y) value g)
      (replaced s' f' (.text (p.rename y)) value g') := by
  intro known w w' twinned lookups mixed free t t' twin
  have anyway {mixed : Bool} : mixed = true → True := fun _ => trivial
  have closed : false = true → ¬ p.IsBlank y := nofun
  have chain {items items' : List Term} (long : 2 ≤ items.length) (headed : Headed p known mixed items items') :
      ParallelTerm p slack known w w' mixed (replaced s f (.text y) value g (.chain items))
        (replaced s' f' (.text (p.rename y)) value g' (.chain items')) :=
    (parallel_items replace twinned lookups free headed).bind fun more _ _ _ _ wider twinned replaced =>
      .make deepens twinned (.ofHeaded (replaced.2 ▸ long) replaced.1)
  cases twin with
  | int plain => exact .make deepens twinned (.int plain)
  | bool plain => exact .make deepens twinned (.bool plain)
  | string plain =>
    simp only [replaced, deepens.untraced, deepens.untraced']
    exact (Parallel.emit twinned (.same _)).bind fun _ _ _ _ _ _ twinned _ => .throw twinned fun _ => rfl
  | @name _ id ordinary =>
    simp only [replaced, p.injective.eq_iff]
    by_cases same : id = y
    · rw [if_pos same, if_pos same]
      exact .copy twinned (.ofArgument argument plain) plain plain
    · rw [if_neg same, if_neg same]
      exact .make deepens twinned (.name ordinary)
  | @blank x n is =>
    have different : x ≠ y := by
      rintro rfl
      exact free rfl ⟨n, is⟩
    simp only [replaced, if_neg different]
    exact .make deepens twinned (.blank is)
  | @function _ inside z body body' le unbound inner =>
    refine (Parallel.parameter z twinned).bind fun more _ _ _ _ wider twinned texts => ?_
    obtain ⟨rfl, rfl⟩ := texts
    refine (replace twinned (lookups.mono wider) (fun is => free (le is)) (inner.mono wider)).bind
      fun most _ _ _ _ _ twinned inner => ?_
    exact .make deepens twinned (.function le unbound inner)
  | operation left plain right =>
    refine (replace twinned lookups closed left).bind fun first _ _ _ _ wider twinned left => ?_
    refine (replace twinned (lookups.mono wider) closed (right.mono wider)).bind
      fun second _ _ _ _ wider twinned right => ?_
    exact .make deepens twinned (.operation (left.mono wider) plain right)
  | conditional decides first second =>
    refine (replace twinned lookups free decides).bind fun more _ _ _ _ wider twinned decided => ?_
    have lookups := lookups.mono wider
    have first := first.mono wider
    have second := second.mono wider
    refine (simplify twinned lookups anyway decided).bind fun more _ _ c c' wider twinned decided => ?_
    have lookups := lookups.mono wider
    have first := first.mono wider
    have second := second.mono wider
    have kept : ParallelTerm p slack _ _ _ mixed
        (do let y ← g _; let n ← g _; Eval.make s (.conditional c y n))
        (do let y ← g' _; let n ← g' _; Eval.make s' (.conditional c' y n)) :=
      (replace twinned lookups free first).bind fun more _ _ _ _ wider twinned first =>
        (replace twinned (lookups.mono wider) free (second.mono wider)).bind
          fun most _ _ _ _ later twinned second => .make deepens twinned
            (.conditional (decided.mono (wider.trans later)) (first.mono later) second)
    cases decided with
    | @bool _ d plain =>
      refine Parallel.bind (replace twinned lookups free ?_) fun more _ _ _ _ wider twinned chosen =>
        simplify twinned (lookups.mono wider) anyway chosen
      split
      · exact first
      · exact second
    | int | string | name | blank | function | operation | conditional | pair | more | list => exact kept
  | pair head next => exact chain (Nat.le_refl 2) (.cons head (.cons next .nil))
  | more head others =>
    obtain ⟨_, same, long, headed⟩ := others.headed
    cases same
    exact chain (Nat.le_succ_of_le long) (.cons head headed.twins)
  | @list _ cell is =>
    refine .get ?_
    refine (Parallel.mapM twinned (twinned.stores _ _ is) fun more _ _ wider twinned _ _ twin =>
      replace twinned (lookups.mono wider) free twin).bind fun _ _ _ _ _ _ twinned twins => ?_
    exact .makeList deepens twinned twins.1

omit deepens in
theorem replace_untraced {s : Settings} (untraced : s.tracing = false) (lookup : Lookup) (depth : Nat)
    (x : Datum) (value : Term) {t : Term} (proper : ∀ d, t ≠ .datum d) :
    replace s lookup (depth + 1) x value t =
      replaced s (simplify s lookup depth) x value (replace s lookup depth x value) t := by
  cases t with
  | datum d => exact absurd rfl (proper d)
  | _ => simp [replace, traceReplacement, untraced]

/-- Simplifying twins gives twins, and so does replacing a name in them. -/
theorem parallels_simplify_replace {depth depth' : Nat} (deeper : Deeper slack depth depth') :
    Parallels p slack lookup lookup' True (simplify s lookup depth) (simplify s' lookup' depth') ∧
      ParallelsGiven p slack lookup lookup' (replace s lookup depth) (replace s' lookup' depth') := by
  -- At each depth, both go on with both at the depth below.
  induction depth generalizing depth' with
  | zero =>
    constructor
    · intro known w w' twinned _ mixed _ t t' _
      rcases deeper.zero with runs | rfl
      · exact .endless runs rfl
      · exact .throw twinned fun _ => rfl
    · intro y value _ _ known w w' twinned _ mixed _ t t' _
      rcases deeper.zero with runs | rfl
      · exact .endless runs rfl
      · exact .throw twinned fun _ => rfl
  | succ depth ih =>
    obtain ⟨depth', rfl, below⟩ := deeper.pred
    obtain ⟨simplifies, replaces⟩ := ih below
    constructor
    · intro known w w' twinned lookups mixed free t t' twin
      rw [simplify_untraced deepens.untraced, simplify_untraced deepens.untraced']
      exact parallels_simplified deepens simplifies replaces twinned lookups free twin
    · intro y value argument plain known w w' twinned lookups mixed free t t' twin
      rw [replace_untraced deepens.untraced lookup depth (.text y) value twin.proper.1,
        replace_untraced deepens.untraced' lookup' depth' (.text (p.rename y)) value twin.proper.2]
      exact parallels_replaced deepens simplifies (replaces argument plain) argument plain twinned lookups free
        twin

end Simplify

end DotLambda
