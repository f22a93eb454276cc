import DotLambda.Proofs.NormalForm
import DotLambda.Proofs.Twins
import DotLambda.Proofs.Wording

/-!
Two evaluations side by side, on worlds whose lists are alike. They may start from different stores and have different
lookups, and the second may go deeper. Main statement: what evaluations are made of has laws by which they end alike,
with results that are alike or with the same failure, unless the first runs out of depth.
-/

namespace DotLambda

open Simplify (Lookup)

/-! ## Stores without references -/

/-- The lists of a store, without terms to which data refer. -/
def Store.bare (store : Store) : Store := ⟨store.cells, #[]⟩

theorem Store.bare_continues (store : Store) : store.bare.Continues store :=
  ⟨Nat.le_refl _, fun _ _ => rfl, Nat.zero_le _, fun _ old => absurd old (Nat.not_lt_zero _)⟩

/-- A term that refers to nothing is alike with itself in all that its store grows into. -/
theorem Term.Among.bare_owns {store : Store} {t : Term} (within : t.Within store.size) : store.bare.Owns t := by
  refine Store.owns_of t within.cells fun cell refers => ?_
  rw [within.plain] at refers
  cases refers

theorem Store.Closed.bare_coherent {store : Store} (closed : store.Closed) : store.bare.Coherent where
  here _ _ is := is.2
  there := by
    rintro cell _ ⟨rfl, old⟩
    exact old
  items := by
    rintro cell _ ⟨rfl, -⟩
    exact List.forall₂_same.2 fun t member => (closed _ t member).bare_owns
  referred d is cell refers := absurd (is cell refers) (Nat.not_lt_zero _)

/-! ## Where two runs stand -/

/-- More terms to which data may refer, in the cells between two. -/
def Likeness.refer (l : Likeness) (first next : Nat) : Likeness :=
  { l with data := fun d => l.data d ∨ ∀ cell ∈ d.references, first ≤ cell ∧ cell < next }

theorem Likeness.le_refer (l : Likeness) (first next : Nat) : l.Le (l.refer first next) :=
  ⟨fun _ is => is, fun _ is => .inl is, fun _ _ is => is⟩

theorem Store.term_keep_of_le {store : Store} {terms : List Term} {cell : Nat} (fresh : store.terms.size ≤ cell) :
    (store.keep terms).term cell = (terms[cell - store.terms.size]?).getD (.datum .none) := by
  simp [Store.keep, Store.term, Array.getElem?_append, Nat.not_lt.2 fresh]

/-- Data may refer to terms that are kept in both stores, if these are alike. -/
theorem Likeness.Relates.refer {l : Likeness} {store store' : Store} {terms terms' : List Term}
    (relates : l.Relates store store') (even : store'.terms.size = store.terms.size)
    (each : List.Forall₂ (Term.Alike l) terms terms') :
    (l.refer store.terms.size (store.terms.size + terms.length)).Relates (store.keep terms) (store'.keep terms') := by
  have grown := relates.grow (.keep store terms) (.keep store' terms')
  have wider := l.le_refer store.terms.size (store.terms.size + terms.length)
  refine ⟨grown.here, grown.there, fun cell cell' is => ?_, ?_⟩
  · exact (grown.items cell cell' is).imp fun _ _ alike => alike.mono wider
  · rintro d (is | fresh) cell refers
    · obtain ⟨old, old', alike⟩ := grown.referred d is cell refers
      exact ⟨old, old', alike.mono wider⟩
    · obtain ⟨low, high⟩ := fresh cell refers
      have place : cell - store.terms.size < terms.length := by omega
      have place' : cell - store.terms.size < terms'.length := each.length_eq ▸ place
      have kept : cell < (store.keep terms).terms.size := by
        simp only [Store.keep, Array.size_append, List.size_toArray]
        omega
      have kept' : cell < (store'.keep terms').terms.size := by
        simp only [Store.keep, Array.size_append, List.size_toArray]
        omega
      refine ⟨kept, kept', ?_⟩
      rw [Store.term_keep_of_le low, Store.term_keep_of_le (even ▸ low), even, List.getElem?_eq_getElem place,
        List.getElem?_eq_getElem place']
      exact (each.get place place').mono wider

/-- Two runs that may go on together: their stores are alike, and names stand for terms that are alike. Data that
refer to no terms may stand in all terms. -/
structure Meets (lookup lookup' : Lookup) (l : Likeness) (w w' : World) : Prop where
  relates : l.Relates w.store w'.store
  even : w'.store.terms.size = w.store.terms.size
  plain : ∀ d : Datum, d.references = [] → l.data d
  lookups : ∀ id, l.names id → Option.Rel (Term.Alike l) (lookup.find? id) (lookup'.find? id)

/-- What two runs have come to: all that there was is as it was, and at least as much is alike. -/
structure Advances (lookup lookup' : Lookup) (l : Likeness) (w w' : World) (more : Likeness) (after after' : World) :
    Prop where
  here : w.store.Continues after.store
  there : w'.store.Continues after'.store
  wider : l.Le more
  names : ∀ id, more.names id → l.names id
  meets : Meets lookup lookup' more after after'

variable {lookup lookup' : Lookup} {l more most : Likeness} {w w' after after' last last' : World}

/-- Where two runs stand depends on their stores only. -/
theorem Meets.congr (meets : Meets lookup lookup' l w w') (same : after.store = w.store)
    (same' : after'.store = w'.store) : Meets lookup lookup' l after after' := by
  obtain ⟨relates, even, plain, lookups⟩ := meets
  rw [← same, ← same'] at relates even
  exact ⟨relates, even, plain, lookups⟩

/-- Two runs may go on together after each has gone on by itself. -/
theorem Meets.grow (meets : Meets lookup lookup' l w w') (here : w.Grows after) (there : w'.Grows after') :
    Meets lookup lookup' l after after' where
  relates := meets.relates.grow here.store.continues there.store.continues
  even := by rw [here.store.terms_eq, there.store.terms_eq, meets.even]
  plain := meets.plain
  lookups := meets.lookups

theorem Meets.lookups_mono (meets : Meets lookup lookup' l w w') (wider : l.Le more)
    (names : ∀ id, more.names id → l.names id) :
    ∀ id, more.names id → Option.Rel (Term.Alike more) (lookup.find? id) (lookup'.find? id) := by
  intro id named
  have found := meets.lookups id (names id named)
  generalize lookup.find? id = here at found ⊢
  generalize lookup'.find? id = there at found ⊢
  cases found with
  | some alike => exact .some (alike.mono wider)
  | none => exact .none

namespace Advances

theorem refl (meets : Meets lookup lookup' l w w') : Advances lookup lookup' l w w' l w w' :=
  ⟨.refl _, .refl _, .refl _, fun _ is => is, meets⟩

theorem trans (early : Advances lookup lookup' l w w' more after after')
    (late : Advances lookup lookup' more after after' most last last') :
    Advances lookup lookup' l w w' most last last' where
  here := early.here.trans late.here
  there := early.there.trans late.there
  wider := early.wider.trans late.wider
  names id is := early.names id (late.names id is)
  meets := late.meets

theorem alike {t t' : Term} (advances : Advances lookup lookup' l w w' more after after')
    (alike : Term.Alike l t t') : Term.Alike more t t' :=
  alike.mono advances.wider

theorem each {items items' : List Term} (advances : Advances lookup lookup' l w w' more after after')
    (each : List.Forall₂ (Term.Alike l) items items') : List.Forall₂ (Term.Alike more) items items' :=
  each.imp fun _ _ alike => alike.mono advances.wider

theorem data {d : Datum} (advances : Advances lookup lookup' l w w' more after after') (fits : l.data d) :
    more.data d :=
  advances.wider.data d fits

end Advances

/-- Settings that trace alike, of which the second may have more depth. -/
structure Settings.Le (s s' : Settings) : Prop where
  tracing : s'.tracing = s.tracing
  depth : s.depth ≤ s'.depth

/-! ## Texts -/

theorem Nears.agree {α : Type} {x y : Except Error α} (near : Nears x y) : Agree true (fun a b => b = a) x y := by
  rcases near with rfl | rfl
  · exact .endless rfl
  · exact .refl fun _ _ => rfl

theorem Agree.mono {α β : Type} {slack : Bool} {good better : α → β → Prop} {x : Except Error α} {y : Except Error β}
    (agree : Agree slack good x y) (widens : ∀ a b, good a b → better a b) : Agree slack better x y := by
  cases x with
  | ok a =>
    cases y with
    | ok b => exact widens a b agree
    | error _ => exact agree.elim
  | error e =>
    cases y with
    | ok _ | error _ => exact agree

/-- Two computations that succeed or fail together, unless the first runs out of depth. -/
abbrev Together {α β : Type} (x : Except Error α) (y : Except Error β) : Prop := Agree true (fun _ _ => True) x y

theorem Nears.together {α : Type} {x y : Except Error α} (near : Nears x y) : Together x y :=
  near.agree.mono fun _ _ _ => trivial

namespace Together

variable {α β γ δ : Type} {x : Except Error α} {y : Except Error β}

theorem map {f : α → γ} {g : β → δ} (together : Together x y) :
    Together (do let a ← x; pure (f a)) (do let b ← y; pure (g b)) :=
  together.bind fun _ _ _ => trivial

theorem mapM {f : α → Except Error γ} {g : β → Except Error δ} {like : α → β → Prop} {items : List α}
    {items' : List β} (each : List.Forall₂ like items items') (step : ∀ a b, like a b → Together (f a) (g b)) :
    Together (items.mapM f) (items'.mapM g) := by
  induction each with
  | nil => exact trivial
  | cons first _ ih =>
    rw [List.mapM_cons, List.mapM_cons]
    exact (step _ _ first).bind fun _ _ _ => ih.map

end Together

/-- Components can be dumped together if each can be. -/
theorem Component.together_dumpedBindings {store store' : Store} {depth depth' : Nat}
    {components components' : Bindings Component}
    (each : List.Forall₂ (fun entry entry' => Together (entry.2.dumped store depth) (entry'.2.dumped store' depth'))
      components components') :
    Together (dumpedBindings store depth components) (dumpedBindings store' depth' components') :=
  (Together.mapM each fun _ _ together => together.map).map

theorem Component.together_single {store store' : Store} {depth depth' : Nat} {key : String} {c c' : Component}
    (together : Together (c.dumped store depth) (c'.dumped store' depth')) :
    Together (dumpedBindings store depth [(key, c)]) (dumpedBindings store' depth' [(key, c')]) :=
  together_dumpedBindings (.cons together .nil)

theorem Component.dumpedBindings_near (store : Store) {depth depth' : Nat} (le : depth ≤ depth')
    (components : Bindings Component) :
    Nears (dumpedBindings store depth components) (dumpedBindings store depth' components) := by
  have texts (t : Term) := (t.texts_near store le).2
  refine (Nears.mapM fun entry _ => Nears.bind ?_ fun _ => .refl _).bind fun _ => .refl _
  cases entry.2 with
  | datum d => exact d.quoted_near fun cell => texts (store.term cell)
  | term t => exact texts t
  | terms items => exact (Nears.mapM fun t _ => texts t).bind fun _ => .refl _

namespace Term.Alike

variable {store store' : Store} {t t' : Term} {items items' : List Term} {depth depth' : Nat}

theorem printed_near (relates : l.Relates store store') (alike : Alike l t t') (le : depth ≤ depth') :
    Nears (t.printed store depth) (t'.printed store' depth') := by
  rw [(alike.texts_eq relates depth').1]
  exact (t.texts_near store le).1

theorem dumped_near (relates : l.Relates store store') (alike : Alike l t t') (le : depth ≤ depth') :
    Nears (t.dumped store depth) (t'.dumped store' depth') := by
  rw [(alike.texts_eq relates depth').2]
  exact (t.texts_near store le).2

/-- The items of terms that are alike are dumped alike. -/
theorem dumped_items_eq (relates : l.Relates store store') (each : List.Forall₂ (Alike l) items items') :
    items'.mapM (Term.dumped store' depth) = items.mapM (Term.dumped store depth) :=
  mapM_eq_of_forall₂ each fun _ _ alike => (alike.texts_eq relates depth).2

theorem quoted_eq (relates : l.Relates store store') {d : Datum} (fits : l.data d) :
    d.quoted (wording store' depth) = d.quoted (wording store depth) :=
  d.quoted_eq fun cell refers => ((relates.referred d fits cell refers).2.2.texts_eq relates depth).2

theorem plain_near (relates : l.Relates store store') {d : Datum} (fits : l.data d) (le : depth ≤ depth') :
    Nears (d.plain (wording store depth)) (d.plain (wording store' depth')) := by
  have texts (cell : Nat) (refers : cell ∈ d.references) :=
    (relates.referred d fits cell refers).2.2.texts_eq relates depth'
  have same : d.plain (wording store' depth') = d.plain (wording store depth') :=
    Datum.plain_eq (fun cell refers => (texts cell refers).1) fun cell refers => (texts cell refers).2
  rw [same]
  exact d.plain_near (fun cell => ((store.term cell).texts_near store le).1)
    fun cell => ((store.term cell).texts_near store le).2

/-- The components of terms that are alike have the same names and are dumped alike. -/
theorem components_eq (relates : l.Relates store store') (alike : Alike l t t') :
    List.Forall₂ (fun entry entry' => entry'.1 = entry.1 ∧
      entry'.2.dumped store' depth = entry.2.dumped store depth) t.components t'.components := by
  have dumped {u u' : Term} (alike : Alike l u u') := (alike.texts_eq relates depth).2
  have quoted {d : Datum} (fits : l.data d) := @quoted_eq l store store' depth relates d fits
  have items {items items' : List Term} (each : List.Forall₂ (Alike l) items items') :
      (Component.terms items').dumped store' depth = (Component.terms items).dumped store depth := by
    rw [Component.dumped, Component.dumped, dumped_items_eq relates each]
  have whole := alike
  cases alike with
  | int fits | bool fits | string fits | nameless fits => exact .cons ⟨rfl, quoted fits⟩ .nil
  | function fits inner => exact .cons ⟨rfl, quoted fits⟩ (.cons ⟨rfl, dumped inner⟩ .nil)
  | operation left fits right =>
    exact .cons ⟨rfl, dumped left⟩ (.cons ⟨rfl, quoted fits⟩ (.cons ⟨rfl, dumped right⟩ .nil))
  | conditional decides first second =>
    exact .cons ⟨rfl, dumped decides⟩ (.cons ⟨rfl, dumped first⟩ (.cons ⟨rfl, dumped second⟩ .nil))
  | nil | cons => exact .cons ⟨rfl, items whole.items_of_chain⟩ .nil
  | wrapped inner => exact .cons ⟨rfl, dumped inner⟩ .nil
  | name => exact .cons ⟨rfl, rfl⟩ .nil
  | list | itemless | unknown | datum => exact .nil

theorem components_near (relates : l.Relates store store') (alike : Alike l t t') (le : depth ≤ depth') :
    Nears (Component.dumpedBindings store depth t.components)
      (Component.dumpedBindings store' depth' t'.components) := by
  have rows : Component.dumpedBindings store' depth' t'.components =
      Component.dumpedBindings store depth' t.components := by
    unfold Component.dumpedBindings
    rw [mapM_eq_of_forall₂ (alike.components_eq relates) fun entry entry' same => by rw [same.1, same.2]]
  rw [rows]
  exact Component.dumpedBindings_near store le _

end Term.Alike

/-- What an operator computes depends on the terms to which the operands refer only in how these are shown where it
complains. -/
theorem Operator.apply_near {w v : Wording} {op : Operator} {lhs rhs : Datum} (left : Nears (lhs.plain w) (lhs.plain v))
    (right : Nears (rhs.plain w) (rhs.plain v)) : Nears (op.apply w lhs rhs) (op.apply v lhs rhs) := by
  have compares : Nears (op.comparison w lhs rhs) (op.comparison v lhs rhs) := by
    by_cases same : lhs.typeName = rhs.typeName
    · simp only [comparison, same, ne_eq, not_true_eq_false, if_false]
      exact .refl _
    · simp only [comparison, same, ne_eq, not_false_eq_true, if_true]
      exact left.bind fun _ => right.bind fun _ => .refl _
  have complains (symbol : String) : Nears
      (do let l ← lhs.plain w; let r ← rhs.plain w; throw (.invalidOperands symbol l r) : Except Error Datum)
      (do let l ← lhs.plain v; let r ← rhs.plain v; throw (.invalidOperands symbol l r)) :=
    left.bind fun _ => right.bind fun _ => .refl _
  cases op with
  | other sign => exact .refl _
  | eq | ne | lt | le | gt | ge => exact compares
  | sub | mul | div =>
    simp only [apply]
    split
    · exact .refl _
    · exact complains _
  | add =>
    simp only [apply]
    split
    · exact .refl _
    · split
      · exact .refl _
      · exact complains _

/-! ## Literals and data -/

/-- Whether a term is a literal. -/
def Term.isLiteral : Term → Bool
  | int _ | bool _ | string _ => true
  | _ => false

/-- Whether a term is a datum where a term should stand. -/
def Term.isDatum : Term → Bool
  | datum _ => true
  | _ => false

theorem Term.eq_datum {t : Term} (is : t.isDatum = true) : ∃ d, t = .datum d := by
  cases t with
  | datum d => exact ⟨d, rfl⟩
  | int | bool | string | name | nameless | function | operation | conditional | chain | list | wrapped | itemless
  | unknown => cases is

theorem Term.ne_datum {t : Term} (proper : t.isDatum = false) (d : Datum) (is : t = .datum d) : False := by
  subst is
  cases proper

theorem Term.Alike.isDatum_eq {t t' : Term} (alike : Alike l t t') : t'.isDatum = t.isDatum := by
  cases alike <;> rfl

/-- Terms of one kind, which are the same where they are literals. -/
inductive Term.Similar (l : Likeness) : Term → Term → Prop where
  | int {d : Datum} (fits : l.data d) : Similar l (.int d) (.int d)
  | bool {d : Datum} (fits : l.data d) : Similar l (.bool d) (.bool d)
  | string {d : Datum} (fits : l.data d) : Similar l (.string d) (.string d)
  | other {t t' : Term} (here : t.isLiteral = false) (there : t'.isLiteral = false) (kind : t'.kind = t.kind) :
      Similar l t t'

theorem Term.Similar.kind_eq {t t' : Term} (similar : Similar l t t') : t'.kind = t.kind := by
  cases similar with
  | int | bool | string => rfl
  | other _ _ kind => exact kind

theorem Term.Similar.mono {t t' : Term} (similar : Similar l t t') (wider : l.Le more) : Similar more t t' := by
  cases similar with
  | int fits => exact .int (wider.data _ fits)
  | bool fits => exact .bool (wider.data _ fits)
  | string fits => exact .string (wider.data _ fits)
  | other here there kind => exact .other here there kind

theorem Term.Alike.similar {t t' : Term} (alike : Alike l t t') : Similar l t t' := by
  cases alike with
  | int fits => exact .int fits
  | bool fits => exact .bool fits
  | string fits => exact .string fits
  | name | nameless | function | operation | conditional | nil | cons | list | wrapped | itemless | unknown
  | datum => exact .other rfl rfl rfl

/-! ## Evaluations in tandem -/

namespace Eval

/-- Two evaluations that go together: both succeed with good results or both fail in the same way, unless the first
runs out of depth. -/
def Tandem {α β : Type} (lookup lookup' : Lookup) (l : Likeness) (w w' : World) (x : Eval α) (x' : Eval β)
    (good : Likeness → Store → Store → α → β → Prop) : Prop :=
  (∃ after, x w = .error .endless after) ∨
  (∃ a after b after' more, x w = .ok a after ∧ x' w' = .ok b after' ∧
    Advances lookup lookup' l w w' more after after' ∧ good more after.store after'.store a b) ∨
  ∃ e after after', x w = .error e after ∧ x' w' = .error e after'

/-- Two evaluations of terms that come to terms which are alike. -/
abbrev TandemTerm (lookup lookup' : Lookup) (l : Likeness) (w w' : World) (x x' : Eval Term) : Prop :=
  Tandem lookup lookup' l w w' x x' fun more _ _ t t' => Term.Alike more t t'

namespace Tandem

variable {α β γ δ : Type} {x : Eval α} {x' : Eval β} {good : Likeness → Store → Store → α → β → Prop}

theorem ofOk {a : α} {b : β} (ended : x w = .ok a after) (ended' : x' w' = .ok b after')
    (advances : Advances lookup lookup' l w w' more after after') (fine : good more after.store after'.store a b) :
    Tandem lookup lookup' l w w' x x' good :=
  .inr (.inl ⟨a, after, b, after', more, ended, ended', advances, fine⟩)

theorem pure {a : α} {b : β} (meets : Meets lookup lookup' l w w') (fine : good l w.store w'.store a b) :
    Tandem lookup lookup' l w w' (pure a) (pure b) good :=
  .ofOk rfl rfl (.refl meets) fine

theorem throw {e : Error} : Tandem lookup lookup' l w w' (throw e) (throw e) good :=
  .inr (.inr ⟨e, w, w', rfl, rfl⟩)

theorem endless (ended : x w = .error .endless after) : Tandem lookup lookup' l w w' x x' good :=
  .inl ⟨after, ended⟩

/-- Where the first succeeds, so does the second. -/
theorem exists_ok {a : α} (tandem : Tandem lookup lookup' l w w' x x' good) (ended : x w = .ok a after) :
    ∃ b after' more, x' w' = .ok b after' ∧ Advances lookup lookup' l w w' more after after' ∧
      good more after.store after'.store a b := by
  rcases tandem with ⟨_, failed⟩ | ⟨_, _, b, after', more, found, found', advances, fine⟩ | ⟨_, _, _, failed, -⟩
  · rw [ended] at failed
    cases failed
  · rw [ended] at found
    cases found
    exact ⟨b, after', more, found', advances, fine⟩
  · rw [ended] at failed
    cases failed

/-- What is done next may depend on how both have succeeded. -/
theorem sequence {f : α → Eval γ} {f' : β → Eval δ} {best : Likeness → Store → Store → γ → δ → Prop}
    (first : Tandem lookup lookup' l w w' x x' good)
    (next : ∀ more after after' a b, x w = .ok a after → x' w' = .ok b after' →
      Advances lookup lookup' l w w' more after after' → good more after.store after'.store a b →
        Tandem lookup lookup' more after after' (f a) (f' b) best) :
    Tandem lookup lookup' l w w' (x >>= f) (x' >>= f') best := by
  rcases first with ⟨after, ended⟩ | ⟨a, after, b, after', more, ended, ended', advances, fine⟩ |
    ⟨e, after, after', ended, ended'⟩
  · exact .endless (bind_of_error ended)
  · rcases next more after after' a b ended ended' advances fine with ⟨last, finished⟩ |
      ⟨c, last, d, last', most, finished, finished', later, fine⟩ | ⟨e, last, last', finished, finished'⟩
    · exact .endless ((bind_of_ok ended).trans finished)
    · exact .ofOk ((bind_of_ok ended).trans finished) ((bind_of_ok ended').trans finished')
        (advances.trans later) fine
    · exact .inr (.inr ⟨e, last, last', (bind_of_ok ended).trans finished, (bind_of_ok ended').trans finished'⟩)
  · exact .inr (.inr ⟨e, after, after', bind_of_error ended, bind_of_error ended'⟩)

theorem bind {f : α → Eval γ} {f' : β → Eval δ} {best : Likeness → Store → Store → γ → δ → Prop}
    (first : Tandem lookup lookup' l w w' x x' good)
    (next : ∀ more after after' a b, Advances lookup lookup' l w w' more after after' →
      good more after.store after'.store a b → Tandem lookup lookup' more after after' (f a) (f' b) best) :
    Tandem lookup lookup' l w w' (x >>= f) (x' >>= f') best :=
  first.sequence fun more after after' a b _ _ advances fine => next more after after' a b advances fine

theorem mono {better : Likeness → Store → Store → α → β → Prop} (tandem : Tandem lookup lookup' l w w' x x' good)
    (widens : ∀ more after after' a b, Advances lookup lookup' l w w' more after after' →
      good more after.store after'.store a b → better more after.store after'.store a b) :
    Tandem lookup lookup' l w w' x x' better := by
  rcases tandem with ends | ⟨a, after, b, after', more, ended, ended', advances, fine⟩ | fails
  · exact .inl ends
  · exact .ofOk ended ended' advances (widens more after after' a b advances fine)
  · exact .inr (.inr fails)

theorem get {f : World → Eval γ} {f' : World → Eval δ} {best : Likeness → Store → Store → γ → δ → Prop}
    (next : Tandem lookup lookup' l w w' (f w) (f' w') best) :
    Tandem lookup lookup' l w w' (MonadState.get >>= f) (MonadState.get >>= f') best := next

theorem ofExcept {e : Except Error α} {e' : Except Error β} (meets : Meets lookup lookup' l w w')
    (agree : Agree true (good l w.store w'.store) e e') :
    Tandem lookup lookup' l w w' (Eval.ofExcept e) (Eval.ofExcept e') good := by
  cases e with
  | ok a =>
    cases e' with
    | ok b => exact .pure meets agree
    | error _ => exact agree.elim
  | error e =>
    cases e' with
    | ok b =>
      obtain ⟨-, rfl⟩ := agree
      exact .endless rfl
    | error e' =>
      rcases agree with ⟨-, rfl⟩ | rfl
      · exact .endless rfl
      · exact .throw

theorem examine {f : Store → Except Error α} {f' : Store → Except Error β} (meets : Meets lookup lookup' l w w')
    (agree : Agree true (good l w.store w'.store) (f w.store) (f' w'.store)) :
    Tandem lookup lookup' l w w' (Eval.examine f) (Eval.examine f') good :=
  .get (.ofExcept meets agree)

theorem look {f : Store → Except Error α} {f' : Store → Except Error β} (meets : Meets lookup lookup' l w w')
    (together : Together (f w.store) (f' w'.store)) :
    Tandem lookup lookup' l w w' (Eval.examine f) (Eval.examine f') fun _ _ _ _ _ => True :=
  .examine meets together

theorem emit {e e' : Event} (meets : Meets lookup lookup' l w w') :
    Tandem lookup lookup' l w w' (Eval.emit e) (Eval.emit e') fun _ _ _ _ _ => True :=
  .ofOk rfl rfl ⟨.refl _, .refl _, .refl _, fun _ is => is, meets.congr rfl rfl⟩ trivial

theorem mapM {f f' : Term → Eval Term} {items items' : List Term} {given : Term → Term → Prop}
    {best : Likeness → Store → Store → Term → Term → Prop}
    (grows : ∀ {l more w w' after after' t t'}, Advances lookup lookup' l w w' more after after' →
      best l w.store w'.store t t' → best more after.store after'.store t t')
    (meets : Meets lookup lookup' l w w') (each : List.Forall₂ given items items')
    (step : ∀ more after after', Advances lookup lookup' l w w' more after after' → ∀ t t', given t t' →
      Tandem lookup lookup' more after after' (f t) (f' t') best) :
    Tandem lookup lookup' l w w' (items.mapM f) (items'.mapM f')
      fun more store store' out out' => List.Forall₂ (best more store store') out out' := by
  induction each generalizing l w w' with
  | nil => exact .pure meets .nil
  | cons first _ ih =>
    rw [List.mapM_cons, List.mapM_cons]
    refine (step l w w' (.refl meets) _ _ first).bind fun more after after' r r' advances here => ?_
    refine (ih advances.meets fun most last last' later =>
      step most last last' (advances.trans later)).bind fun most last last' out out' later there => ?_
    exact .pure later.meets (.cons (grows later here) there)

variable {s s' : Settings} (le : s.Le s')
include le

theorem trace {color color' : Color} {text text' : Store → Except Error String} (meets : Meets lookup lookup' l w w')
    (told : s.tracing = true → Together (text w.store) (text' w'.store)) :
    Tandem lookup lookup' l w w' (Eval.trace s color text) (Eval.trace s' color' text') fun _ _ _ _ _ => True := by
  unfold Eval.trace
  rw [le.tracing]
  cases tracing : s.tracing with
  | true => exact (look meets (told tracing)).bind fun _ _ _ _ _ advances _ => .emit advances.meets
  | false => exact .pure meets trivial

/-- The text of a datum. -/
theorem plain {d : Datum} (meets : Meets lookup lookup' l w w') (fits : l.data d) :
    Tandem lookup lookup' l w w' (Eval.plain s d) (Eval.plain s' d) fun _ _ _ text text' => text' = text :=
  .examine meets (Term.Alike.plain_near meets.relates fits le.depth).agree

section
variable {t t' : Term} {good : Likeness → Store → Store → Term → Term → Prop}

/-- Terms that can be announced and dumped together are made together. -/
theorem makes (meets : Meets lookup lookup' l w w')
    (grows : ∀ {more after after'}, Advances lookup lookup' l w w' more after after' →
      good more after.store after'.store t t' ∧ (s.tracing = true →
        Together (t.dumped after.store s.depth) (t'.dumped after'.store s'.depth)))
    (told : s.tracing = true → Together (Component.dumpedBindings w.store s.depth t.components)
      (Component.dumpedBindings w'.store s'.depth t'.components)) :
    Tandem lookup lookup' l w w' (Eval.make s t) (Eval.make s' t') good := by
  refine (trace le meets fun tracing => ?_).bind fun more after after' _ _ advances _ => ?_
  · exact (told tracing).map
  · refine (trace le advances.meets fun tracing => ?_).bind fun most last last' _ _ later _ => ?_
    · exact ((grows advances).2 tracing).map
    · exact .pure later.meets (grows (advances.trans later)).1

theorem make (meets : Meets lookup lookup' l w w') (alike : Term.Alike l t t') :
    TandemTerm lookup lookup' l w w' (Eval.make s t) (Eval.make s' t') := by
  refine makes le meets (fun advances => ?_) fun _ => (alike.components_near meets.relates le.depth).together
  have later := alike.mono advances.wider
  exact ⟨later, fun _ => (later.dumped_near advances.meets.relates le.depth).together⟩

end

omit le in
/-- Lists with items that are alike are put into new cells, which are taken for each other. -/
theorem newList {items items' : List Term} (meets : Meets lookup lookup' l w w')
    (each : List.Forall₂ (Term.Alike l) items items') :
    TandemTerm lookup lookup' l w w' (Eval.newList items) (Eval.newList items') := by
  have grown := Store.Continues.allocate w.store items
  have grown' := Store.Continues.allocate w'.store items'
  have wider := l.le_join w.store.size w'.store.size
  have names (id : String) (is : (l.join w.store.size w'.store.size).names id) : l.names id := is
  have joined : (l.join w.store.size w'.store.size).Relates (w.store.allocate items) (w'.store.allocate items') := by
    refine (meets.relates.grow grown grown').join ?_ ?_ ?_
    · rw [Store.size_allocate]
      exact Nat.lt_succ_self _
    · rw [Store.size_allocate]
      exact Nat.lt_succ_self _
    · rw [Store.items_allocate_self, Store.items_allocate_self]
      exact each
  refine .ofOk rfl rfl ⟨grown, grown', wider, names, ?_⟩ (.list (.inr ⟨rfl, rfl⟩))
  exact ⟨joined, meets.even, meets.plain, meets.lookups_mono wider names⟩

/-- Lists that can be announced and dumped together are made together. -/
theorem makesList {items items' : List Term} {good : Likeness → Store → Store → Term → Term → Prop}
    (meets : Meets lookup lookup' l w w')
    (told : s.tracing = true → Together (items.mapM (Term.dumped w.store s.depth))
      (items'.mapM (Term.dumped w'.store s'.depth)))
    (made : ∀ more after after', Advances lookup lookup' l w w' more after after' →
      Tandem lookup lookup' more after after' (Eval.newList items) (Eval.newList items') good)
    (grows : ∀ {l more w w' after after' t t'}, Advances lookup lookup' l w w' more after after' →
      good l w.store w'.store t t' → good more after.store after'.store t t')
    (shown : ∀ more after after' t t', Meets lookup lookup' more after after' →
      good more after.store after'.store t t' → s.tracing = true →
        Together (t.dumped after.store s.depth) (t'.dumped after'.store s'.depth)) :
    Tandem lookup lookup' l w w' (Eval.makeList s items) (Eval.makeList s' items') good := by
  refine (trace le meets fun tracing => ?_).bind fun more after after' _ _ advances _ => ?_
  · have listed : Together (Component.dumped w.store s.depth (.terms items))
        (Component.dumped w'.store s'.depth (.terms items')) := (told tracing).map
    exact (Component.together_single listed).map
  · refine (made more after after' advances).bind fun most last last' t t' later fine => ?_
    refine (trace le later.meets fun tracing => ?_).bind fun _ _ _ _ _ ended _ => ?_
    · exact (shown most last last' t t' later.meets fine tracing).map
    · exact .pure ended.meets (grows ended fine)

theorem makeList {items items' : List Term} (meets : Meets lookup lookup' l w w')
    (each : List.Forall₂ (Term.Alike l) items items') :
    TandemTerm lookup lookup' l w w' (Eval.makeList s items) (Eval.makeList s' items') := by
  refine makesList le meets (fun _ => ?_) (fun _ _ _ advances => ?_) (fun advances alike => ?_)
    fun _ _ _ _ _ meets alike _ => (alike.dumped_near meets.relates le.depth).together
  · rw [Term.Alike.dumped_items_eq meets.relates each]
    exact (Nears.mapM fun t _ => (t.texts_near w.store le.depth).2).together
  · exact .newList advances.meets (each.imp fun _ _ alike => alike.mono advances.wider)
  · exact alike.mono advances.wider

/-- What an operator computes on the same data. -/
theorem apply {op : Operator} {lhs rhs : Datum} (meets : Meets lookup lookup' l w w') (left : l.data lhs)
    (right : l.data rhs) :
    Tandem lookup lookup' l w w' (Eval.apply s op lhs rhs) (Eval.apply s' op lhs rhs) fun _ _ _ d d' =>
      d' = d ∧ d.references = [] := by
  have near := Term.Alike.plain_near meets.relates left le.depth
  have near' := Term.Alike.plain_near meets.relates right le.depth
  refine .examine meets ?_
  rcases Operator.apply_near near near' with endless | same
  · rw [endless]
    exact .endless rfl
  · rw [same]
    exact .refl fun d computed => ⟨rfl, Operator.references_of_apply computed⟩

omit le in
/-- Copies of arguments refer to copies of the same terms. -/
theorem copy {t t' : Term} (argument : t.isArgument = true) (meets : Meets lookup lookup' l w w')
    (alike : Term.Alike l t t') : TandemTerm lookup lookup' l w w' (Eval.copy t) (Eval.copy t') := by
  -- The terms to which a datum refers are kept in both stores, in cells of the same numbers.
  have kept {d : Datum} (fits : l.data d) :
      let terms := d.references.eraseDups.map w.store.term
      let terms' := d.references.eraseDups.map w'.store.term
      Advances lookup lookup' l w w' (l.refer w.store.terms.size (w.store.terms.size + terms.length))
        { w with store := w.store.keep terms } { w' with store := w'.store.keep terms' } := by
    intro terms terms'
    have wider := l.le_refer w.store.terms.size (w.store.terms.size + terms.length)
    have each : List.Forall₂ (Term.Alike l) terms terms' := by
      refine List.forall₂_map_left_iff.2 (List.forall₂_map_right_iff.2 (List.forall₂_same.2 fun cell member => ?_))
      exact (meets.relates.referred d fits cell (List.mem_eraseDups.1 member)).2.2
    refine ⟨.keep _ _, .keep _ _, wider, fun _ is => is, meets.relates.refer meets.even each, ?_, ?_, ?_⟩
    · simp [Store.keep, meets.even, terms, terms']
    · exact fun d plain => .inl (meets.plain d plain)
    · exact meets.lookups_mono wider fun _ is => is
  have fresh (d : Datum) : (l.refer w.store.terms.size
      (w.store.terms.size + (d.references.eraseDups.map w.store.term).length)).data
        (d.redirect fun cell => w.store.terms.size + d.references.eraseDups.idxOf cell) := by
    refine .inr fun cell refers => ?_
    rw [Datum.references_redirect, List.mem_map] at refers
    obtain ⟨old, member, rfl⟩ := refers
    have place := List.idxOf_lt_length_of_mem (List.mem_eraseDups.2 member)
    rw [List.length_map]
    omega
  cases alike with
  | int fits =>
    refine .ofOk rfl rfl (kept fits) ?_
    change Term.Alike _ (.int _) (.int _)
    rw [meets.even]
    exact .int (fresh _)
  | bool fits =>
    refine .ofOk rfl rfl (kept fits) ?_
    change Term.Alike _ (.bool _) (.bool _)
    rw [meets.even]
    exact .bool (fresh _)
  | string | name | nameless | function | operation | conditional | nil | cons | list | wrapped | itemless
  | unknown | datum => cases argument

end Tandem

end Eval

end DotLambda
