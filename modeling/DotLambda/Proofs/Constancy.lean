import DotLambda.Proofs.Idempotence
import DotLambda.Proofs.Lockstep

/-!
Terms that come to a constant. Main statements: an operation on numbers or booleans that terms come to, and a
conditional that is decided by what its condition comes to, come to a constant in turn, whatever lists there are
besides, if there is enough depth.
-/

namespace DotLambda

open Eval

open Simplify (Lookup)

/-! ## Texts that can be made -/

/-- A computation that succeeds if it is given enough depth, and may run out of it otherwise. -/
def Certain {α : Type} (enough : Prop) (x : Except Error α) : Prop :=
  Succeeds x ∨ ¬ enough ∧ x = .error .endless

namespace Certain

variable {α β : Type} {enough more : Prop} {x : Except Error α} {y : Except Error β}

theorem weaken (certain : Certain enough x) (harder : more → enough) : Certain more x :=
  certain.imp_right fun short => ⟨fun is => short.1 (harder is), short.2⟩

theorem bind {f : α → Except Error β} (first : Certain enough x) (next : ∀ a, Certain enough (f a)) :
    Certain enough (x >>= f) := by
  rcases first with ⟨a, rfl⟩ | ⟨short, rfl⟩
  · exact next a
  · exact .inr ⟨short, rfl⟩

theorem map {f : α → β} (certain : Certain enough x) : Certain enough (do let a ← x; pure (f a)) :=
  certain.bind fun _ => .inl (.pure _)

/-- The second has enough depth, the first may run out of it. -/
theorem together (first : Certain enough x) (second : Certain more y) (is : more) : Together x y := by
  rcases first with ⟨a, rfl⟩ | ⟨-, rfl⟩
  · rcases second with ⟨b, rfl⟩ | ⟨short, -⟩
    · trivial
    · exact absurd is short
  · exact .endless rfl

end Certain

/-- A term that can be dumped, to a depth, in every store that goes on with a given one. -/
def Shown (tracing : Bool) (store : Store) (depth : Nat) (t : Term) : Prop :=
  tracing = true → ∀ later, store.Continues later → Succeeds (t.dumped later depth)

namespace Shown

variable {tracing : Bool} {store later : Store} {depth more : Nat} {t : Term}

theorem grow (shown : Shown tracing store depth t) (grown : store.Continues later) : Shown tracing later depth t :=
  fun is last onward => shown is last (grown.trans onward)

theorem deepen (shown : Shown tracing store depth t) (le : depth ≤ more) : Shown tracing store more t :=
  fun is last onward => (t.texts_near last le).2.succeeds (shown is last onward)

/-- A term that has been dumped can be dumped later on. -/
theorem ofOwned (coherent : store.Coherent) (owned : store.Owns t)
    (told : tracing = true → Succeeds (t.dumped store depth)) : Shown tracing store depth t := by
  intro is last onward
  rw [(owned.texts_eq (coherent.grow (.refl store) onward) depth).2]
  exact told is

theorem certain (shown : Shown tracing store depth t) (is : tracing = true) (grown : store.Continues later)
    (d : Nat) : Certain (depth ≤ d) (t.dumped later d) := by
  have found := shown is later grown
  by_cases le : depth ≤ d
  · exact .inl ((t.texts_near later le).2.succeeds found)
  · rcases (t.texts_near later (Nat.le_of_not_le le)).2 with endless | same
    · exact .inr ⟨le, endless⟩
    · exact .inl (same ▸ found)

/-- With a term all of which it is made can be dumped. -/
theorem certain_components (shown : Shown tracing store depth t) (is : tracing = true)
    (grown : store.Continues later) (d : Nat) :
    Certain (depth ≤ d) (Component.dumpedBindings later d t.components) := by
  have found := Component.dumpedBindings_succeeds (Term.components_of_dumped (shown is later grown))
  by_cases le : depth ≤ d
  · exact .inl ((Component.dumpedBindings_near later le _).succeeds found)
  · rcases Component.dumpedBindings_near later (Nat.le_of_not_le le) t.components with endless | same
    · exact .inr ⟨le, endless⟩
    · exact .inl (same ▸ found)

theorem operation {op : Operator} {symbol : String} {lhs rhs : Term} (written : op.sign = .text symbol)
    (left : Shown tracing store depth lhs) (right : Shown tracing store depth rhs) :
    Shown tracing store (depth + 1) (.operation lhs op rhs) := by
  intro is last onward
  obtain ⟨l, left⟩ := left is last onward
  have signed : Succeeds (op.sign.plain (Term.wording last depth)) := by
    rw [written]
    exact .pure symbol
  exact Succeeds.bind_iff.2 ⟨l, left, Succeeds.and_iff.2 ⟨signed, right is last onward⟩⟩

theorem conditional {condition yes no : Term} (decides : Shown tracing store depth condition)
    (first : Shown tracing store depth yes) (second : Shown tracing store depth no) :
    Shown tracing store (depth + 1) (.conditional condition yes no) := by
  intro is last onward
  obtain ⟨c, decides⟩ := decides is last onward
  exact Succeeds.bind_iff.2 ⟨c, decides, Succeeds.and_iff.2 ⟨first is last onward, second is last onward⟩⟩

theorem list {cell : Nat} (old : cell < store.size) (each : ∀ t ∈ store.items cell, Shown tracing store depth t) :
    Shown tracing store (depth + 1) (.list cell) := by
  intro is last onward
  refine Succeeds.map_iff.2 (Succeeds.mapM_iff.2 fun t member => ?_)
  rw [onward.items_eq cell old] at member
  exact each t member is last onward

end Shown

/-- A term that can be dumped in every store that goes on with a given one. -/
def Showable (tracing : Bool) (store : Store) (t : Term) : Prop := ∃ depth, Shown tracing store depth t

namespace Showable

variable {tracing : Bool} {store later : Store}

theorem grow {t : Term} (shown : Showable tracing store t) (grown : store.Continues later) :
    Showable tracing later t := by
  obtain ⟨depth, shown⟩ := shown
  exact ⟨depth, shown.grow grown⟩

theorem operation {op : Operator} {symbol : String} {lhs rhs : Term} (written : op.sign = .text symbol)
    (left : Showable tracing store lhs) (right : Showable tracing store rhs) :
    Showable tracing store (.operation lhs op rhs) := by
  obtain ⟨a, left⟩ := left
  obtain ⟨b, right⟩ := right
  exact ⟨_, .operation written (left.deepen (Nat.le_max_left a b)) (right.deepen (Nat.le_max_right a b))⟩

theorem conditional {condition yes no : Term} (decides : Showable tracing store condition)
    (first : Showable tracing store yes) (second : Showable tracing store no) :
    Showable tracing store (.conditional condition yes no) := by
  obtain ⟨a, decides⟩ := decides
  obtain ⟨b, first⟩ := first
  obtain ⟨c, second⟩ := second
  refine ⟨a + b + c + 1, .conditional (decides.deepen ?_) (first.deepen ?_) (second.deepen ?_)⟩ <;> omega

theorem common {items : List Term} (each : ∀ t ∈ items, Showable tracing store t) :
    ∃ depth, ∀ t ∈ items, Shown tracing store depth t := by
  obtain ⟨depth, shown⟩ := exists_forall₂_of_mono (R := fun depth _ t => Shown tracing store depth t)
    (fun le shown => shown.deepen le) (List.forall₂_same.2 each)
  exact ⟨depth, List.forall₂_same.1 shown⟩

theorem list {cell : Nat} (old : cell < store.size) (each : ∀ t ∈ store.items cell, Showable tracing store t) :
    Showable tracing store (.list cell) := by
  obtain ⟨depth, each⟩ := common each
  exact ⟨depth + 1, .list old each⟩

end Showable

/-! ## Evaluations that mirror others -/

namespace Eval

/-- Outcomes that are the same but for what has been written. -/
def Same {α : Type} : EStateM.Result Error World α → EStateM.Result Error World α → Prop
  | .ok a w, .ok b w' => b = a ∧ w'.store = w.store
  | .error e _, .error e' _ => e' = e
  | _, _ => False

/-- An evaluation that does what another one does with the same lists if it is given enough depth, and may run out
of it otherwise. -/
def Mirrors {α : Type} (enough : Prop) (w : World) (x y : Eval α) : Prop :=
  (¬ enough ∧ ∃ after, x w = .error .endless after) ∨ ∃ mid, mid.store = w.store ∧ Same (y mid) (x w)

/-- An evaluation that has a given result, and leaves all lists as they were, if it is given enough depth. -/
abbrev Attains {α : Type} (enough : Prop) (w : World) (x : Eval α) (a : α) : Prop := Mirrors enough w x (pure a)

variable {α β : Type} {enough more : Prop} {w : World} {x y z : Eval α}

namespace Same

variable {r r' r'' : EStateM.Result Error World α}

theorem refl (r : EStateM.Result Error World α) : Same r r := by
  cases r with
  | ok a after => exact ⟨rfl, rfl⟩
  | error e after => rfl

theorem ok {a : α} {after : World} (same : Same r r') (ended : r = .ok a after) :
    ∃ last, r' = .ok a last ∧ last.store = after.store := by
  subst ended
  cases r' with
  | ok b last =>
    obtain ⟨rfl, kept⟩ := same
    exact ⟨last, rfl, kept⟩
  | error e last => exact same.elim

theorem error {e : Error} {after : World} (same : Same r r') (ended : r = .error e after) :
    ∃ last, r' = .error e last := by
  subst ended
  cases r' with
  | ok b last => exact same.elim
  | error e' last =>
    cases same
    exact ⟨last, rfl⟩

theorem trans (first : Same r r') (second : Same r' r'') : Same r r'' := by
  cases r with
  | ok a after =>
    obtain ⟨mid, rfl, kept⟩ := first.ok rfl
    obtain ⟨last, rfl, kept'⟩ := second.ok rfl
    exact ⟨rfl, kept'.trans kept⟩
  | error e after =>
    obtain ⟨mid, rfl⟩ := first.error rfl
    obtain ⟨last, rfl⟩ := second.error rfl
    rfl

end Same

namespace Mirrors

theorem refl (x : Eval α) : Mirrors enough w x x := .inr ⟨w, rfl, .refl _⟩

theorem weaken (mirrors : Mirrors enough w x y) (harder : more → enough) : Mirrors more w x y :=
  mirrors.imp_left fun short => ⟨fun is => short.1 (harder is), short.2⟩

theorem trans (first : Mirrors enough w x y) (second : ∀ mid, mid.store = w.store → Mirrors enough mid y z) :
    Mirrors enough w x z := by
  rcases first with short | ⟨mid, same, like⟩
  · exact .inl short
  · rcases second mid same with ⟨short, after, ended⟩ | ⟨start, same', like'⟩
    · exact .inl ⟨short, like.error ended⟩
    · exact .inr ⟨start, same'.trans same, like'.trans like⟩

/-- What is done first leaves all lists as they were. -/
theorem lead {b : β} {u : Eval β} {f : β → Eval α} (first : Attains enough w u b)
    (rest : ∀ mid, mid.store = w.store → Mirrors enough mid (f b) y) : Mirrors enough w (u >>= f) y := by
  rcases first with ⟨short, after, ended⟩ | ⟨mid, same, like⟩
  · exact .inl ⟨short, after, bind_of_error ended⟩
  · obtain ⟨last, ended, kept⟩ := like.ok rfl
    have rest := rest last (kept.trans same)
    rw [Mirrors, kept.trans same] at rest
    rw [Mirrors, bind_of_ok ended]
    exact rest

end Mirrors

namespace Attains

variable {s : Settings}

theorem examine {f : Store → Except Error α} {a : α} (found : f w.store = .ok a) :
    Attains enough w (Eval.examine f) a := by
  refine .inr ⟨w, rfl, ?_⟩
  rw [examine_of_ok found]
  exact .refl _

theorem trace {color : Color} {text : Store → Except Error String}
    (told : s.tracing = true → Certain enough (text w.store)) : Attains enough w (Eval.trace s color text) () := by
  unfold Eval.trace
  split
  · rename_i tracing
    rcases told tracing with ⟨line, found⟩ | ⟨short, endless⟩
    · exact .lead (examine found) fun mid _ => .inr ⟨mid, rfl, rfl, rfl⟩
    · exact .inl ⟨short, w, bind_of_error (examine_of_error endless)⟩
  · exact .refl _

theorem make {t : Term} {base : Store} {depth : Nat} (shown : Shown s.tracing base depth t)
    (grown : base.Continues w.store) (harder : enough → depth ≤ s.depth) : Attains enough w (Eval.make s t) t := by
  refine .lead (trace fun tracing => ?_) fun after same => .lead (trace fun tracing => ?_) fun _ _ => .refl _
  · exact (shown.certain_components tracing grown s.depth).map.weaken harder
  · rw [same]
    exact (shown.certain tracing grown s.depth).map.weaken harder

end Attains

/-- What goes together with evaluations goes together with those that mirror them, if the second has enough depth. -/
theorem Tandem.mirror {lookup lookup' : Lookup} {l : Likeness} {w' : World} {x' y' : Eval β}
    {good : Likeness → Store → Store → α → β → Prop} (mirrors : Mirrors False w x y) (mirrors' : Mirrors True w' x' y')
    (tandem : ∀ mid mid', mid.store = w.store → mid'.store = w'.store → Tandem lookup lookup' l mid mid' y y' good) :
    Tandem lookup lookup' l w w' x x' good := by
  rcases mirrors with ⟨-, after, ended⟩ | ⟨mid, same, like⟩
  · exact .endless ended
  rcases mirrors' with ⟨short, -⟩ | ⟨mid', same', like'⟩
  · exact absurd trivial short
  rcases tandem mid mid' same same' with ⟨after, ended⟩ |
    ⟨a, after, b, after', more, ended, ended', ⟨here, there, wider, names, meets⟩, fine⟩ |
    ⟨e, after, after', ended, ended'⟩
  · obtain ⟨last, finished⟩ := like.error ended
    exact .endless finished
  · obtain ⟨last, finished, kept⟩ := like.ok ended
    obtain ⟨last', finished', kept'⟩ := like'.ok ended'
    have meets := meets.congr kept kept'
    rw [same, ← kept] at here
    rw [same', ← kept'] at there
    rw [← kept, ← kept'] at fine
    exact .ofOk finished finished' ⟨here, there, wider, names, meets⟩ fine
  · obtain ⟨last, finished⟩ := like.error ended
    obtain ⟨last', finished'⟩ := like'.error ended'
    exact .inr (.inr ⟨e, last, last', finished, finished'⟩)

/-- What is done last leaves the results and all lists as they were, if the second has enough depth. -/
theorem Tandem.trail {lookup lookup' : Lookup} {l : Likeness} {w' : World} {x' : Eval β}
    {good : Likeness → Store → Store → α → β → Prop} {f : α → Eval α} {f' : β → Eval β}
    (tandem : Tandem lookup lookup' l w w' x x' good)
    (last : ∀ more after after' a b, x w = .ok a after → x' w' = .ok b after' →
      Advances lookup lookup' l w w' more after after' → Attains False after (f a) a ∧ Attains True after' (f' b) b) :
    Tandem lookup lookup' l w w' (x >>= f) (x' >>= f') good := by
  rcases tandem with ⟨after, ended⟩ | ⟨a, after, b, after', more, ended, ended', advances, fine⟩ |
    ⟨e, after, after', ended, ended'⟩
  · exact .endless (bind_of_error ended)
  · obtain ⟨here, there⟩ := last more after after' a b ended ended' advances
    have rest : Tandem lookup lookup' more after after' (f a) (f' b) good :=
      .mirror here there fun mid mid' same same' => by
        refine .pure (advances.meets.congr same same') ?_
        rw [same, same']
        exact fine
    rcases rest with ⟨after, finished⟩ | ⟨a, last, b, last', most, finished, finished', later, fine⟩ |
      ⟨e, last, last', finished, finished'⟩
    · exact .endless ((bind_of_ok ended).trans finished)
    · exact .ofOk ((bind_of_ok ended).trans finished) ((bind_of_ok ended').trans finished')
        (advances.trans later) fine
    · exact .inr (.inr ⟨e, last, last', (bind_of_ok ended).trans finished, (bind_of_ok ended').trans finished'⟩)
  · exact .inr (.inr ⟨e, after, after', bind_of_error ended, bind_of_error ended'⟩)

end Eval

/-! ## Terms that come to a constant -/

/-- What a simplification does last. -/
def Simplify.finish (s : Settings) (t result : Term) : Eval Term := do
  Eval.trace s .yellow fun store => do
    let before ← t.dumped store s.depth
    let after ← result.dumped store s.depth
    pure ("Simplified " ++ before ++ " to " ++ after)
  pure result

theorem Simplify.attains_finish {enough : Prop} {s : Settings} {w : World} {t result : Term}
    (told : s.tracing = true → Certain enough (t.dumped w.store s.depth))
    (told' : s.tracing = true → Certain enough (result.dumped w.store s.depth)) :
    Attains enough w (finish s t result) result :=
  .lead (Attains.trace fun tracing => (told tracing).bind fun _ => (told' tracing).map) fun _ _ => .refl _


/-- What an operator computes does not depend on how terms are shown. -/
theorem Operator.apply_of_ok {w : Wording} (v : Wording) {op : Operator} {lhs rhs d : Datum}
    (computed : op.apply w lhs rhs = .ok d) : op.apply v lhs rhs = .ok d := by
  have compares (done : op.comparison w lhs rhs = .ok d) : op.comparison v lhs rhs = .ok d := by
    by_cases same : lhs.typeName = rhs.typeName
    · simp only [comparison, same, ne_eq, not_true_eq_false, if_false] at done ⊢
      exact done
    · simp only [comparison, same, ne_eq, not_false_eq_true, if_true] at done
      exact absurd done ne_ok_of_complaint
  cases op with
  | other sign => exact computed
  | eq | ne | lt | le | gt | ge => exact compares computed
  | sub | mul | div =>
    simp only [apply] at computed ⊢
    split at computed
    · exact computed
    · exact absurd computed ne_ok_of_complaint
  | add =>
    simp only [apply] at computed ⊢
    split at computed
    · exact computed
    · split at computed
      · exact computed
      · exact absurd computed ne_ok_of_complaint

/-- Where terms are simplified: whether that is traced, what names stand for, and the store in which they stand for
it. -/
structure Scene where
  tracing : Bool
  lookup : Lookup
  origin : Store

/-- A term of a store that comes to a literal, whatever lists there are besides. -/
structure Comes (scene : Scene) (base : Store) (t v : Term) : Prop where
  literal : v.isLiteral = true
  owned : scene.origin.Owns v
  attains : ∃ enough, Shown scene.tracing base enough v ∧ ∀ {s : Settings} {depth : Nat} {w : World},
    s.tracing = scene.tracing → base.Continues w.store →
      Attains (enough ≤ s.depth ∧ enough ≤ depth) w (simplify s scene.lookup depth t) v

variable {scene : Scene} {base base' : Store} {t t' v : Term}

theorem Term.isDatum_of_isLiteral (literal : t.isLiteral = true) : t.isDatum = false := by
  cases t with
  | datum => cases literal
  | int | bool | string | name | nameless | function | operation | conditional | chain | list | wrapped | itemless
  | unknown => rfl

namespace Comes

theorem grow {later : Store} (comes : Comes scene base t v) (grown : base.Continues later) :
    Comes scene later t v := by
  obtain ⟨enough, shown, attains⟩ := comes.attains
  exact ⟨comes.literal, comes.owned, enough, shown.grow grown, fun traces onward => attains traces (grown.trans onward)⟩

/-- The lines of the trace before and after a simplification can be written, so it attains what its step does. -/
theorem attains_simplify {s : Settings} {depth : Nat} {w : World} {enough : Nat}
    (traces : s.tracing = scene.tracing) (grown : base.Continues w.store) (proper : t.isDatum = false)
    (shown : Shown scene.tracing base enough t) (shown' : Shown scene.tracing base enough v)
    (step : ∀ after depth', after.store = w.store → depth = depth' + 1 →
      Attains (enough ≤ s.depth ∧ enough ≤ depth') after
        (Simplify.simplified s scene.lookup (simplify s scene.lookup depth') (replace s scene.lookup depth') t) v) :
    Attains (enough + 1 ≤ s.depth ∧ enough + 1 ≤ depth) w (simplify s scene.lookup depth t) v := by
  cases depth with
  | zero => exact .inl ⟨fun is => Nat.not_succ_le_zero _ is.2, w, rfl⟩
  | succ depth =>
    have harder (is : enough + 1 ≤ s.depth ∧ enough + 1 ≤ depth + 1) : enough ≤ s.depth ∧ enough ≤ depth := by omega
    have dumps {u : Term} {after : World} (shown : Shown scene.tracing base enough u) (same : after.store = w.store)
        (tracing : s.tracing = true) :
        Certain (enough + 1 ≤ s.depth ∧ enough + 1 ≤ depth + 1) (u.dumped after.store s.depth) := by
      rw [same]
      exact (shown.certain (traces ▸ tracing) grown s.depth).weaken fun is => (harder is).1
    rw [simplify.eq_3 s scene.lookup t depth (Term.ne_datum proper)]
    refine .lead (Attains.trace fun tracing => (dumps shown rfl tracing).map) fun after same => ?_
    refine .lead ((step after depth same rfl).weaken harder) fun last same' => ?_
    have same' := same'.trans same
    exact Simplify.attains_finish (dumps shown same') (dumps shown' same')

theorem ofLiteral {depth : Nat} (literal : v.isLiteral = true) (owned : scene.origin.Owns v)
    (shown : Shown scene.tracing base depth v) : Comes scene base v v := by
  refine ⟨literal, owned, depth + 1, shown.deepen (Nat.le_succ depth), fun traces grown => ?_⟩
  refine attains_simplify traces grown (Term.isDatum_of_isLiteral literal) shown shown fun after depth' same _ => ?_
  have made : Attains (depth ≤ _ ∧ depth ≤ depth') after (Eval.make _ v) v :=
    Attains.make (traces ▸ shown) (same ▸ grown) fun is => is.1
  cases v with
  | int | bool | string => exact made
  | name | nameless | function | operation | conditional | chain | list | wrapped | itemless | unknown | datum =>
    cases literal

/-- An operation on two numbers or two booleans comes to the literal for what the operator computes. -/
theorem operation {op : Operator} {words : Wording} {lhs rhs : Term} {l r d : Datum} {wrap : Datum → Term}
    {depth : Nat} (alike : wrap = .int ∨ wrap = .bool) (left : Comes scene base lhs (wrap l))
    (right : Comes scene base rhs (wrap r)) (computed : op.apply words l r = .ok d)
    (shown : Shown scene.tracing base depth (.operation lhs op rhs))
    (shown' : Shown scene.tracing base depth (Simplify.literal op d)) :
    Comes scene base (.operation lhs op rhs) (Simplify.literal op d) := by
  have fits : scene.origin.own.data d := Store.own_data_of_plain (Operator.references_of_apply computed)
  have literal : (Simplify.literal op d).isLiteral = true := by
    unfold Simplify.literal
    split <;> rfl
  obtain ⟨first, -, left⟩ := left.attains
  obtain ⟨second, -, right⟩ := right.attains
  have le : depth ≤ max depth (max first second) := Nat.le_max_left _ _
  refine ⟨literal, Simplify.alike_literal op fits, max depth (max first second) + 1,
    shown'.deepen (Nat.le_succ_of_le le), fun {s _ w} traces grown => ?_⟩
  refine attains_simplify traces grown rfl (shown.deepen le) (shown'.deepen le) fun after depth' same _ => ?_
  have here {mid : World} (same : mid.store = after.store) : base.Continues mid.store := by
    rw [same, ‹after.store = w.store›]
    exact grown
  -- Both operands come to literals, which are no names and so are not looked up again.
  refine .lead ((left traces (here rfl)).weaken fun is => by omega) fun one same => ?_
  refine .lead ((right traces (here same)).weaken fun is => by omega) fun two same' => ?_
  have made : Attains (max depth (max first second) ≤ s.depth ∧ max depth (max first second) ≤ depth') two
      (do let d ← Eval.apply s op l r; Eval.make s (Simplify.literal op d)) (Simplify.literal op d) := by
    refine .lead (Attains.examine (Operator.apply_of_ok _ computed)) fun three same'' => ?_
    refine Attains.make (traces ▸ shown') (here ((same''.trans same').trans same)) fun is => by omega
  rcases alike with rfl | rfl
  · exact made
  · exact made

/-- A conditional whose condition comes to a boolean simplifies as the clause that it chooses does. -/
theorem mirrors {condition yes no : Term} {d : Datum} {depth : Nat} (decides : Comes scene base condition (.bool d))
    (shown : Shown scene.tracing base depth (.conditional condition yes no)) :
    ∃ enough, depth ≤ enough ∧ ∀ {s : Settings} {below : Nat} {w : World}, s.tracing = scene.tracing →
      base.Continues w.store → Mirrors (enough ≤ s.depth ∧ enough ≤ below) w
        (simplify s scene.lookup (below + 1) (.conditional condition yes no))
        (simplify s scene.lookup below (if d.truth then yes else no) >>=
          Simplify.finish s (.conditional condition yes no)) := by
  obtain ⟨enough, -, attains⟩ := decides.attains
  refine ⟨max depth enough, Nat.le_max_left _ _, fun {s below w} traces grown => ?_⟩
  rw [simplify.eq_3 s scene.lookup _ below (Term.ne_datum rfl)]
  refine .lead (Attains.trace fun tracing => ?_) fun one same => ?_
  · exact (shown.certain (traces ▸ tracing) grown s.depth).map.weaken fun is => by omega
  simp only [Simplify.simplified, bind_assoc]
  refine .lead ((attains traces (same ▸ grown)).weaken fun is => by omega) fun two same' => ?_
  dsimp only
  cases d.truth with
  | true => exact .refl _
  | false => exact .refl _

/-- A conditional whose condition comes to a boolean comes to what the clause that it chooses comes to. -/
theorem conditional {condition yes no : Term} {d : Datum} {depth : Nat} (decides : Comes scene base condition (.bool d))
    (chosen : Comes scene base (if d.truth then yes else no) v)
    (shown : Shown scene.tracing base depth (.conditional condition yes no)) :
    Comes scene base (.conditional condition yes no) v := by
  obtain ⟨first, le, mirrors⟩ := decides.mirrors shown
  obtain ⟨second, shown', attains⟩ := chosen.attains
  refine ⟨chosen.literal, chosen.owned, max first second + 1, shown'.deepen (by omega),
    fun {s below w} traces grown => ?_⟩
  cases below with
  | zero => exact .inl ⟨fun is => Nat.not_succ_le_zero _ is.2, w, rfl⟩
  | succ below =>
    refine .trans ((mirrors traces grown).weaken fun is => by omega) fun mid same => ?_
    refine .lead ((attains traces (same ▸ grown)).weaken fun is => by omega) fun last same' => ?_
    have onward : base.Continues last.store := by
      rw [same', same]
      exact grown
    refine Simplify.attains_finish (fun tracing => ?_) fun tracing => ?_
    · exact (shown.certain (traces ▸ tracing) onward s.depth).weaken fun is => by omega
    · exact (shown'.certain (traces ▸ tracing) onward s.depth).weaken fun is => by omega

end Comes

end DotLambda
