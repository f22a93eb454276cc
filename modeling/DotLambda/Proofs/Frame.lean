import DotLambda.Session
import DotLambda.Proofs.Heap

/-!
What evaluations leave alone. Main statement: simplification changes no variable and no list that there
was, whether it succeeds or fails; all it does is to add lists, and what it makes holds only lists of the
store. If the terms it starts with hold only lists of a kind, and new lists of such terms are of the kind, so
does what it makes.
-/

namespace DotLambda

/-- Bindings to terms that hold only lists of a store. -/
def Bindings.Within (size : Nat) (bindings : Bindings Term) : Prop :=
  ∀ id t, bindings.find? id = some t → t.Within size

namespace Session

/-- A session whose variables and lists hold only lists of its store. -/
structure Closed (session : Session) : Prop where
  store : session.store.Closed
  bindings : session.bindings.Within session.store.size

/-- All that there was is as it was, but there may be more lists. -/
structure Kept (before after : Session) : Prop where
  bindings_eq : after.bindings = before.bindings
  store : before.store.Extends after.store

namespace Kept

theorem refl (session : Session) : session.Kept session := ⟨rfl, .refl _⟩

theorem trans {first second third : Session} (early : first.Kept second) (late : second.Kept third) :
    first.Kept third :=
  ⟨late.bindings_eq.trans early.bindings_eq, early.store.trans late.store⟩

theorem within {before after : Session} (kept : before.Kept after) {t : Term}
    (within : t.Within before.store.size) : t.Within after.store.size :=
  within.mono fun _ old => Nat.lt_of_lt_of_le old kept.store.size_le

theorem lookup {before after : Session} (kept : before.Kept after) {lookup : Bindings Term}
    (known : lookup.Within before.store.size) : lookup.Within after.store.size :=
  fun id t found => kept.within (known id t found)

end Kept

end Session

/-! ## Kinds of lists -/

/-- A kind of lists. Lists of the kind hold only such lists, they stay of the kind when lists are added, and a new
list is of the kind if it holds only such lists. -/
structure Region where
  holds : Store → Nat → Prop
  within {store : Store} {cell : Nat} : holds store cell → cell < store.size
  items {store : Store} {cell : Nat} : store.Closed → holds store cell →
    ∀ t ∈ store.items cell, t.Among (holds store)
  grow {before after : Store} {cell : Nat} : before.Extends after → holds before cell → holds after cell
  fresh {store : Store} {items : List Term} : (∀ t ∈ items, t.Among (holds store)) →
    holds (store.allocate items) store.size

/-- All lists of a store. -/
abbrev Region.whole : Region where
  holds store cell := cell < store.size
  within known := known
  items closed _ := closed _
  grow grown old := Nat.lt_of_lt_of_le old grown.size_le
  fresh _ := by
    rw [Store.size_allocate]
    exact Nat.lt_succ_self _

/-- A term that holds only lists of a kind. -/
abbrev Term.In (r : Region) (store : Store) (t : Term) : Prop := t.Among (r.holds store)

/-- Bindings to terms that hold only lists of a kind. -/
def Bindings.In (r : Region) (store : Store) (bindings : Bindings Term) : Prop :=
  ∀ id t, bindings.find? id = some t → t.In r store

theorem Term.Among.within {r : Region} {store : Store} {t : Term} (inside : t.In r store) :
    t.Within store.size :=
  inside.mono fun _ => r.within

namespace Session.Kept

variable {before after : Session} {r : Region}

theorem carry (kept : before.Kept after) {t : Term} (inside : t.In r before.store) : t.In r after.store :=
  inside.mono fun _ => r.grow kept.store

theorem carryAll (kept : before.Kept after) {bindings : Bindings Term}
    (known : bindings.In r before.store) : bindings.In r after.store :=
  fun id t found => kept.carry (known id t found)

end Session.Kept

/-- A session whose variables hold only lists of a kind. -/
structure Session.In (r : Region) (session : Session) : Prop where
  closed : session.Closed
  bindings : session.bindings.In r session.store

theorem Session.In.grow {r : Region} {before after : Session} (inside : before.In r) (kept : before.Kept after)
    (closed : after.Closed) : after.In r where
  closed := closed
  bindings := by
    rw [kept.bindings_eq]
    exact kept.carryAll inside.bindings

theorem Session.Closed.whole {session : Session} (closed : session.Closed) : session.In .whole :=
  ⟨closed, closed.bindings⟩

/-! ## Evaluations -/

namespace World

/-- What an evaluation leaves to the next line. -/
abbrev session (w : World) : Session := ⟨w.bindings, w.store⟩

/-- A world whose variables and lists hold only lists of its store. -/
abbrev Closed (w : World) : Prop := w.session.Closed

/-- A world whose variables hold only lists of a kind. -/
abbrev In (r : Region) (w : World) : Prop := w.session.In r

/-- All that there was is as it was, but there may be more lists, and more has been written. -/
abbrev Grows (before after : World) : Prop := before.session.Kept after.session

end World

namespace Eval

/-- What holds after an evaluation: of the world and the result if it succeeds, of the world and the failure if it
fails. -/
def Finishes {α : Type} (w : World) (x : Eval α) (good : World → α → Prop) (bad : World → Error → Prop) : Prop :=
  match x w with
  | .ok a after => good after a
  | .error e after => bad after e

namespace Finishes

variable {α β : Type} {w : World} {x : Eval α} {good better : World → α → Prop} {bad worse : World → Error → Prop}

theorem of_ok (finishes : Finishes w x good bad) {a : α} {after : World} (ended : x w = .ok a after) :
    good after a := by
  unfold Finishes at finishes
  rw [ended] at finishes
  exact finishes

theorem of_error (finishes : Finishes w x good bad) {e : Error} {after : World} (failed : x w = .error e after) :
    bad after e := by
  unfold Finishes at finishes
  rw [failed] at finishes
  exact finishes

theorem intro (succeeds : ∀ a after, x w = .ok a after → good after a)
    (fails : ∀ e after, x w = .error e after → bad after e) : Finishes w x good bad := by
  unfold Finishes
  cases ended : x w with
  | ok a after => exact succeeds a after ended
  | error e after => exact fails e after ended

theorem mono (finishes : Finishes w x good bad) (widens : ∀ after a, good after a → better after a)
    (worsens : ∀ after e, bad after e → worse after e) : Finishes w x better worse :=
  intro (fun a after ended => widens after a (finishes.of_ok ended))
    fun e after failed => worsens after e (finishes.of_error failed)

/-- Two evaluations in a row finish as the second does, or as the first if it fails. -/
theorem bind {f : α → Eval β} {best : World → β → Prop} (first : Finishes w x good bad)
    (next : ∀ a after, x w = .ok a after → good after a → Finishes after (f a) best bad) :
    Finishes w (x >>= f) best bad := by
  unfold Finishes
  cases ended : x w with
  | ok a after =>
    rw [bind_of_ok ended]
    exact next a after ended (first.of_ok ended)
  | error e after =>
    rw [bind_of_error ended]
    exact first.of_error ended

theorem map (finishes : Finishes w x good bad) (f : α → β) :
    Finishes w (do let a ← x; pure (f a)) (fun after b => ∃ a, b = f a ∧ good after a) bad :=
  finishes.bind fun a _ _ fine => ⟨a, rfl, fine⟩

/-- What holds after an evaluation holds of the session in which it is run. -/
theorem run {session : Session} {x : Eval (Option Term)} {good : World → Option Term → Prop}
    (finishes : Finishes ⟨session.bindings, session.store, #[]⟩ x good bad) :
    (∃ result after, session.run x = (⟨after.output.toList, .ok result⟩, after.session) ∧ good after result) ∨
      ∃ e after, session.run x = (⟨after.output.toList, .error e⟩, after.session) ∧ bad after e := by
  unfold Session.run
  cases ended : x ⟨session.bindings, session.store, #[]⟩ with
  | ok result after => exact .inl ⟨result, after, rfl, finishes.of_ok ended⟩
  | error e after => exact .inr ⟨e, after, rfl, finishes.of_error ended⟩

end Finishes

/-- An evaluation that leaves all that there was as it was if it fails, and has an effect if it succeeds. -/
def Commits {α : Type} (w : World) (x : Eval α) (effect : World → α → Prop) : Prop :=
  match x w with
  | .ok a after => after.Closed ∧ effect after a
  | .error _ after => after.Closed ∧ w.Grows after

/-- An evaluation that only adds lists, whether it succeeds or fails. Its result is good for the lists after
it. -/
def Adds {α : Type} (w : World) (x : Eval α) (good : Store → α → Prop) : Prop :=
  Commits w x fun after a => w.Grows after ∧ good after.store a

/-- An evaluation of a term that holds only lists of a kind, which only adds lists. -/
abbrev AddsTerm (r : Region) (w : World) (x : Eval Term) : Prop := Adds w x fun store t => t.In r store

/-- An evaluation of several terms that hold only lists of a kind, which only adds lists. -/
abbrev AddsTerms (r : Region) (w : World) (x : Eval (List Term)) : Prop :=
  Adds w x fun store out => ∀ t ∈ out, t.In r store

/-- An evaluation that leaves all that there was as it was, whether it succeeds or fails. Its result is good
for the number of lists after it. -/
def Frames {α : Type} (w : World) (x : Eval α) (good : Nat → α → Prop) : Prop :=
  Commits w x fun after a => w.Grows after ∧ good after.store.size a

/-- An evaluation of a term of the store that leaves all as it was. -/
abbrev FramesTerm (w : World) (x : Eval Term) : Prop := Frames w x fun size t => t.Within size

variable {α β : Type} {w : World} {x : Eval α} {good : Nat → α → Prop}

/-- A term that refers to none is its own copy. -/
theorem copy_eq_self {t : Term} {w : World} (plain : t.references = []) : Eval.copy t w = .ok t w := by
  have same : w.store.copy t = (t, w.store) := w.store.copy_eq_self t plain
  change EStateM.Result.ok (w.store.copy t).1 { w with store := (w.store.copy t).2 } = _
  rw [same]

theorem commits_iff {effect : World → α → Prop} : Commits w x effect ↔
    Finishes w x (fun after a => after.Closed ∧ effect after a) fun after _ => after.Closed ∧ w.Grows after :=
  Iff.rfl

theorem Commits.mono {effect wider : World → α → Prop} (commits : Commits w x effect)
    (widens : ∀ after a, effect after a → wider after a) : Commits w x wider :=
  (commits_iff.1 commits).mono (fun after a done => ⟨done.1, widens after a done.2⟩) fun _ _ kept => kept

theorem Commits.of_ok {effect : World → α → Prop} (commits : Commits w x effect) {a : α} {after : World}
    (ended : x w = .ok a after) : after.Closed ∧ effect after a :=
  (commits_iff.1 commits).of_ok ended

theorem Commits.get {f : World → Eval β} {effect : World → β → Prop} (next : Commits w (f w) effect) :
    Commits w (MonadState.get >>= f) effect := next

theorem Commits.map {effect : World → α → Prop} (commits : Commits w x effect) (f : α → β) :
    Commits w (do let a ← x; pure (f a)) fun after b => ∃ a, b = f a ∧ effect after a := by
  refine ((commits_iff.1 commits).map f).mono ?_ fun _ _ kept => kept
  rintro after _ ⟨a, rfl, closed, done⟩
  exact ⟨closed, a, rfl, done⟩

namespace Adds

variable {good : Store → α → Prop} {r : Region}

theorem pure {a : α} (closed : w.Closed) (fine : good w.store a) : Adds w (pure a) good :=
  ⟨closed, .refl _, fine⟩

theorem throw {e : Error} (closed : w.Closed) : Adds w (throw e) good := ⟨closed, .refl _⟩

/-- An effect may come after evaluations that only add lists. -/
theorem commits {f : α → Eval β} {effect : World → β → Prop} (first : Adds w x good)
    (next : ∀ a after, w.Grows after → after.Closed → good after.store a → Commits after (f a) effect) :
    Commits w (x >>= f) effect := by
  refine commits_iff.2 ((commits_iff.1 first).bind ?_)
  rintro a after - ⟨closed, grows, fine⟩
  have rest := commits_iff.1 (next a after grows closed fine)
  exact rest.mono (fun _ _ done => done) fun _ _ kept => ⟨kept.1, grows.trans kept.2⟩

theorem bind {f : α → Eval β} {best : Store → β → Prop} (first : Adds w x good)
    (next : ∀ a after, w.Grows after → after.Closed → good after.store a → Adds after (f a) best) :
    Adds w (x >>= f) best :=
  first.commits fun a after grows closed fine =>
    (next a after grows closed fine).mono fun _ _ done => ⟨grows.trans done.1, done.2⟩

theorem get {f : World → Eval β} {best : Store → β → Prop} (next : Adds w (f w) best) :
    Adds w (MonadState.get >>= f) best :=
  Commits.get next

theorem ofExcept {e : Except Error α} (closed : w.Closed) (fine : ∀ a, e = .ok a → good w.store a) :
    Adds w (Eval.ofExcept e) good := by
  cases e with
  | ok a => exact .pure closed (fine a rfl)
  | error _ => exact .throw closed

theorem examine {f : Store → Except Error α} (closed : w.Closed)
    (fine : ∀ a, f w.store = .ok a → good w.store a) : Adds w (Eval.examine f) good :=
  .get (.ofExcept closed fine)

theorem look {f : Store → Except Error α} (closed : w.Closed) :
    Adds w (Eval.examine f) fun _ _ => True :=
  examine closed fun _ _ => trivial

theorem emit {e : Event} (closed : w.Closed) : Adds w (Eval.emit e) fun _ _ => True :=
  ⟨⟨closed.store, closed.bindings⟩, ⟨rfl, .refl _⟩, trivial⟩

theorem trace {s : Settings} {color : Color} {text : Store → Except Error String} (closed : w.Closed) :
    Adds w (Eval.trace s color text) fun _ _ => True := by
  unfold Eval.trace
  split
  · exact (look closed).bind fun _ _ _ closed _ => .emit closed
  · exact .pure closed trivial

theorem make {s : Settings} {t : Term} (closed : w.Closed) (inside : t.In r w.store) :
    AddsTerm r w (Eval.make s t) :=
  (Adds.trace closed).bind fun _ _ grows closed _ =>
    (Adds.trace closed).bind fun _ _ growsMore closed _ =>
      .pure closed ((grows.trans growsMore).carry inside)

theorem newList {items : List Term} (closed : w.Closed) (inside : ∀ t ∈ items, t.In r w.store) :
    AddsTerm r w (Eval.newList items) := by
  have grows : w.Grows { w with store := w.store.allocate items } := ⟨rfl, .allocate w.store items⟩
  have kept := closed.store.allocate fun t member => (inside t member).within
  exact ⟨⟨kept, grows.lookup closed.bindings⟩, grows, Term.among_list.2 (r.fresh inside)⟩

theorem makeList {s : Settings} {items : List Term} (closed : w.Closed)
    (inside : ∀ t ∈ items, t.In r w.store) : AddsTerm r w (Eval.makeList s items) :=
  (Adds.trace closed).bind fun _ _ grows closed _ =>
    (newList closed fun t member => grows.carry (inside t member)).bind fun _ _ _ closed made =>
      (Adds.trace closed).bind fun _ _ growsMore closed _ => .pure closed (growsMore.carry made)

theorem copy {t : Term} (closed : w.Closed) (inside : t.In r w.store) : AddsTerm r w (Eval.copy t) := by
  unfold AddsTerm Adds Commits
  rw [copy_eq_self inside.plain]
  exact ⟨closed, .refl _, inside⟩

theorem mapM {f : Term → Eval Term} {items : List Term} (closed : w.Closed)
    (each : ∀ after, w.Grows after → after.Closed → ∀ t ∈ items, AddsTerm r after (f t)) :
    AddsTerms r w (items.mapM f) := by
  induction items generalizing w with
  | nil => exact .pure closed (by simp)
  | cons t rest ih =>
    rw [List.mapM_cons]
    refine (each w (.refl _) closed t List.mem_cons_self).bind fun first middle grows closed inside => ?_
    refine (ih closed fun after more closed u member =>
      each after (grows.trans more) closed u (List.mem_cons_of_mem t member)).bind
        fun others after more closed insideOthers => ?_
    exact .pure closed (List.forall_mem_cons.2 ⟨more.carry inside, insideOthers⟩)

end Adds

theorem Frames.adds (frames : Frames w x good) : Adds w x fun store a => good store.size a := frames

theorem Adds.frames (adds : Adds w x fun store a => good store.size a) : Frames w x good := adds

namespace Frames

theorem pure {a : α} (closed : w.Closed) (fine : good w.store.size a) : Frames w (pure a) good :=
  Adds.frames (.pure closed fine)

theorem throw {e : Error} (closed : w.Closed) : Frames w (throw e) good := Adds.frames (.throw closed)

/-- An effect may come after evaluations that leave all as it was. -/
theorem commits {f : α → Eval β} {effect : World → β → Prop} (first : Frames w x good)
    (next : ∀ a after, w.Grows after → after.Closed → good after.store.size a →
      Commits after (f a) effect) : Commits w (x >>= f) effect :=
  first.adds.commits next

theorem bind {f : α → Eval β} {best : Nat → β → Prop} (first : Frames w x good)
    (next : ∀ a after, w.Grows after → after.Closed → good after.store.size a →
      Frames after (f a) best) : Frames w (x >>= f) best :=
  Adds.frames (first.adds.bind fun a after grows closed fine => (next a after grows closed fine).adds)

theorem get {f : World → Eval β} {best : Nat → β → Prop} (next : Frames w (f w) best) :
    Frames w (MonadState.get >>= f) best :=
  Commits.get next

theorem ofExcept {e : Except Error α} (closed : w.Closed) (fine : ∀ a, e = .ok a → good w.store.size a) :
    Frames w (Eval.ofExcept e) good :=
  Adds.frames (.ofExcept closed fine)

theorem look {f : Store → Except Error α} (closed : w.Closed) :
    Frames w (Eval.examine f) fun _ _ => True :=
  Adds.frames (.look closed)

theorem emit {e : Event} (closed : w.Closed) : Frames w (Eval.emit e) fun _ _ => True :=
  Adds.frames (.emit closed)

theorem forM {f : α → Eval Unit} {items : List α} (closed : w.Closed)
    (each : ∀ after, after.Closed → ∀ a ∈ items, Frames after (f a) fun _ _ => True) :
    Frames w (items.forM f) fun _ _ => True := by
  induction items generalizing w with
  | nil => exact .pure closed trivial
  | cons a rest ih =>
    change Frames w (do f a; rest.forM f) _
    refine (each w closed a List.mem_cons_self).bind fun _ _ _ closed _ => ?_
    exact ih closed fun after closed b member => each after closed b (List.mem_cons_of_mem a member)

theorem attempt (frames : Frames w x good) :
    Frames w (Eval.attempt x) fun size outcome => ∀ a, outcome = .ok a → good size a := by
  unfold Frames Commits Eval.attempt at *
  cases ended : x w with
  | ok a after =>
    rw [ended] at frames
    refine ⟨frames.1, frames.2.1, ?_⟩
    rintro _ ⟨⟩
    exact frames.2.2
  | error e after =>
    rw [ended] at frames
    exact ⟨frames.1, frames.2, fun _ failed => nomatch failed⟩

end Frames

end Eval

/-! ## Simplification -/

theorem exists_ok_of_bind {α β : Type} {x : Except Error α} {f : α → Except Error β} {b : β}
    (ended : x >>= f = .ok b) : ∃ a, f a = .ok b := by
  cases x with
  | ok a => exact ⟨a, ended⟩
  | error e => cases ended

namespace Operator

private theorem references_of_arithmetic {op : Operator} {m n : Int} {result : Datum}
    (computed : op.arithmetic m n = .ok result) : result.references = [] := by
  unfold arithmetic at computed
  split at computed
  case h_4 =>
    split at computed <;> cases computed
    rfl
  all_goals
    cases computed
    rfl

theorem ne_ok_of_complaint {l r : Except Error String} {complaint : String → String → Error}
    {result : Datum} : (do let a ← l; let b ← r; throw (complaint a b)) ≠ Except.ok result := by
  intro computed
  obtain ⟨_, left⟩ := exists_ok_of_bind computed
  obtain ⟨_, right⟩ := exists_ok_of_bind left
  cases right

private theorem references_of_comparison {w : Wording} {op : Operator} {lhs rhs result : Datum}
    (computed : op.comparison w lhs rhs = .ok result) : result.references = [] := by
  by_cases same : lhs.typeName = rhs.typeName
  · simp only [comparison, same, ne_eq, not_true_eq_false, if_false] at computed
    split at computed
    · cases computed
      rfl
    · cases computed
      rfl
    · obtain ⟨_, done⟩ := exists_ok_of_bind computed
      cases done
      rfl
  · simp only [comparison, same, ne_eq, not_false_eq_true, if_true] at computed
    exact absurd computed ne_ok_of_complaint

/-- What an operator computes refers to no term. -/
theorem references_of_apply {w : Wording} {op : Operator} {lhs rhs result : Datum}
    (computed : op.apply w lhs rhs = .ok result) : result.references = [] := by
  cases op with
  | other sign =>
    cases computed
    rfl
  | eq | ne | lt | le | gt | ge =>
    simp only [apply] at computed
    exact references_of_comparison computed
  | sub | mul | div =>
    simp only [apply] at computed
    split at computed
    · exact references_of_arithmetic computed
    · exact absurd computed ne_ok_of_complaint
  | add =>
    simp only [apply] at computed
    split at computed
    · cases computed
      rfl
    · split at computed
      · exact references_of_arithmetic computed
      · exact absurd computed ne_ok_of_complaint

end Operator

open Eval

namespace Simplify

/-- A way to evaluate terms that leaves all as it was, where names stand for terms of the store. -/
def Keeps (lookup : Lookup) (f : Term → Eval Term) : Prop :=
  ∀ {w : World}, w.Closed → lookup.Within w.store.size → ∀ {t : Term}, t.Within w.store.size →
    FramesTerm w (f t)

/-- A way to replace a name by a given term that leaves all as it was. -/
def KeepsGiven (lookup : Lookup) (value : Term) (f : Term → Eval Term) : Prop :=
  ∀ {w : World}, w.Closed → lookup.Within w.store.size → value.Within w.store.size →
    ∀ {t : Term}, t.Within w.store.size → FramesTerm w (f t)

/-- A way to evaluate terms that only adds lists, and makes terms with lists of a kind of such terms. -/
def Makes (r : Region) (lookup : Lookup) (f : Term → Eval Term) : Prop :=
  ∀ {w : World}, w.Closed → lookup.In r w.store → ∀ {t : Term}, t.In r w.store → AddsTerm r w (f t)

/-- A way to replace a name by a given term that only adds lists, and makes terms with lists of a kind of such
terms. -/
def MakesGiven (r : Region) (lookup : Lookup) (value : Term) (f : Term → Eval Term) : Prop :=
  ∀ {w : World}, w.Closed → lookup.In r w.store → value.In r w.store →
    ∀ {t : Term}, t.In r w.store → AddsTerm r w (f t)

variable {w : World} {lookup : Lookup} {r : Region}

theorem in_of_functionOf? {store : Store} {t body : Term} {parameter : Datum} (known : lookup.In r store)
    (inside : t.In r store) (found : functionOf? lookup t = some (parameter, body)) : body.In r store := by
  unfold functionOf? at found
  split at found
  · cases found
    exact (Term.among_function.1 inside).2
  · split at found
    · rename_i bound
      cases found
      exact (Term.among_function.1 (known _ _ bound)).2
    · exact nomatch found
  · exact nomatch found

theorem adds_contract {f : Datum → Term → Term → Eval Term}
    (apply : ∀ x value, MakesGiven r lookup value (f x value))
    {rest : List Term} {first : Term} (closed : w.Closed) (known : lookup.In r w.store)
    (inside : first.In r w.store) (others : ∀ t ∈ rest, t.In r w.store) :
    AddsTerms r w (contract lookup f first rest) := by
  induction rest generalizing w first with
  | nil => exact .pure closed (List.forall_mem_singleton.2 inside)
  | cons next rest ih =>
    rw [List.forall_mem_cons] at others
    unfold contract
    split
    · rename_i parameter body found _
      have inner := in_of_functionOf? known inside found
      refine (apply parameter next closed known others.1 inner).bind fun result after grows closed fine => ?_
      exact ih closed (grows.carryAll known) fine fun t member => grows.carry (others.2 t member)
    · refine (ih closed known others.1 others.2).bind fun out after grows closed fine => ?_
      exact .pure closed (List.forall_mem_cons.2 ⟨grows.carry inside, fine⟩)

theorem adds_contractAll {f : Datum → Term → Term → Eval Term}
    (apply : ∀ x value, MakesGiven r lookup value (f x value))
    {items : List Term} (closed : w.Closed) (known : lookup.In r w.store)
    (inside : ∀ t ∈ items, t.In r w.store) : AddsTerms r w (contractAll lookup f items) := by
  cases items with
  | nil => exact .pure closed inside
  | cons first rest =>
    rw [List.forall_mem_cons] at inside
    exact adds_contract apply closed known inside.1 inside.2

theorem makes_resolve {f : Term → Eval Term} (simplify : Makes r lookup f) :
    Makes r lookup (resolve lookup f) := by
  intro w closed known t inside
  unfold resolve
  split
  · split
    · rename_i bound
      exact simplify closed known (known _ _ bound)
    · exact .pure closed inside
  · exact .pure closed inside

/-- What an operator computes makes a literal, which holds no list. -/
theorem adds_literal {s : Settings} {op : Operator} {lhs rhs : Datum} {wrap : Datum → Term} (closed : w.Closed)
    (plain : ∀ d : Datum, d.references = [] → ∀ store, (wrap d).In r store) :
    AddsTerm r w (do let result ← Eval.apply s op lhs rhs; Eval.make s (wrap result)) := by
  have computes : Adds w (Eval.apply s op lhs rhs) fun _ result => result.references = [] :=
    .examine closed fun _ computed => Operator.references_of_apply computed
  exact computes.bind fun result _ _ closed computed => .make closed (plain result computed _)

theorem adds_compute {s : Settings} {op : Operator} {lhs rhs : Term} (closed : w.Closed) :
    AddsTerm r w (compute s op lhs rhs) := by
  unfold compute
  split
  · refine adds_literal closed fun d plain store => ?_
    unfold literal
    split <;> simpa using plain
  · refine adds_literal closed fun d plain store => ?_
    unfold literal
    split <;> simpa using plain
  · refine adds_literal closed fun d plain store => ?_
    unfold stringLiteral literal
    repeat' split
    all_goals simpa using plain
  · exact (Adds.look closed).bind fun _ _ _ closed _ => .throw closed

theorem makes_simplified (s : Settings) {f : Term → Eval Term} {g : Datum → Term → Term → Eval Term}
    (simplify : Makes r lookup f) (replace : ∀ x value, MakesGiven r lookup value (g x value)) :
    Makes r lookup (simplified s lookup f g) := by
  intro w closed known t inside
  cases t with
  | int value | bool value | string value => exact .make closed inside
  | name id =>
    simp only [simplified]
    repeat' split
    · exact .make closed (Term.among_bool.2 rfl)
    · exact .make closed (Term.among_bool.2 rfl)
    · rename_i bound
      exact simplify closed known (known _ _ bound)
    · exact .make closed inside
  | nameless id =>
    simp only [simplified]
    split
    · exact .throw closed
    · exact .make closed inside
  | function parameter body =>
    have inner := (Term.among_function.1 inside).2
    refine (Adds.look closed).bind fun x _ grows closed _ => ?_
    refine (simplify closed (grows.carryAll known) (grows.carry inner)).bind fun b _ _ closed fine => ?_
    exact .make closed (Term.among_function.2 ⟨rfl, fine⟩)
  | operation lhs op rhs =>
    obtain ⟨left, -, right⟩ := Term.among_operation.1 inside
    refine (simplify closed known left).bind fun l _ first closed fineLeft => ?_
    refine (simplify closed (first.carryAll known) (first.carry right)).bind
      fun r _ second closed fineRight => ?_
    have known := (first.trans second).carryAll known
    refine (makes_resolve simplify closed known (second.carry fineLeft)).bind
      fun l _ third closed _ => ?_
    refine (makes_resolve simplify closed (third.carryAll known) (third.carry fineRight)).bind
      fun r _ _ closed _ => ?_
    exact adds_compute closed
  | conditional condition yes no =>
    obtain ⟨first, second, third⟩ := Term.among_conditional.1 inside
    refine (simplify closed known first).bind fun c _ grows closed fine => ?_
    have second := grows.carry second
    have third := grows.carry third
    split
    · split
      · exact simplify closed (grows.carryAll known) second
      · exact simplify closed (grows.carryAll known) third
    · exact .make closed (Term.among_conditional.2 ⟨fine, second, third⟩)
  | chain items =>
    have each := Term.among_chain.1 inside
    have all := Adds.mapM closed fun after grows closed t member =>
      simplify closed (grows.carryAll known) (grows.carry (each t member))
    refine all.bind fun items _ first closed fine => ?_
    refine (adds_contractAll replace closed (first.carryAll known) fine).bind
      fun items _ second closed fine => ?_
    split
    · exact simplify closed ((first.trans second).carryAll known) (fine _ List.mem_cons_self)
    · exact .make closed (Term.among_chain.2 fine)
  | list cell =>
    have each := r.items closed.store (Term.among_list.1 inside)
    have all := Adds.mapM closed fun after grows closed t member =>
      simplify closed (grows.carryAll known) (grows.carry (each t member))
    exact .get (all.bind fun items _ _ closed fine => .makeList closed fine)
  | wrapped inner =>
    refine (simplify closed known (Term.among_wrapped.1 inside)).bind fun _ _ _ closed _ => ?_
    exact (Adds.trace closed).bind fun _ _ _ closed _ => .throw closed
  | itemless kind owner => exact .throw closed
  | unknown kind => exact (Adds.emit closed).bind fun _ _ _ closed _ => .throw closed
  | datum d => exact .throw closed

theorem makesGiven_replaced (s : Settings) {f g : Term → Eval Term} (x : Datum) {value : Term}
    (simplify : Makes r lookup f) (replace : MakesGiven r lookup value g) :
    MakesGiven r lookup value (replaced s f x value g) := by
  intro w closed known given t inside
  cases t with
  | int d | bool d => exact .make closed inside
  | name id =>
    simp only [replaced]
    repeat' split
    · exact .copy closed given
    · exact .make closed inside
    · exact .make closed inside
  | nameless id =>
    simp only [replaced]
    split
    · exact .copy closed given
    · exact .make closed inside
  | function parameter body =>
    have inner := (Term.among_function.1 inside).2
    refine (Adds.look closed).bind fun y _ grows closed _ => ?_
    refine (replace closed (grows.carryAll known) (grows.carry given) (grows.carry inner)).bind
      fun b _ _ closed fine => ?_
    exact .make closed (Term.among_function.2 ⟨rfl, fine⟩)
  | operation lhs op rhs =>
    obtain ⟨left, plain, right⟩ := Term.among_operation.1 inside
    refine (replace closed known given left).bind fun l _ first closed fineLeft => ?_
    refine (replace closed (first.carryAll known) (first.carry given) (first.carry right)).bind
      fun r _ second closed fineRight => ?_
    exact .make closed (Term.among_operation.2 ⟨second.carry fineLeft, plain, fineRight⟩)
  | conditional condition yes no =>
    obtain ⟨first, second, third⟩ := Term.among_conditional.1 inside
    refine (replace closed known given first).bind fun c _ early closed fine => ?_
    refine (simplify closed (early.carryAll known) fine).bind fun c _ late closed fine => ?_
    have grows := early.trans late
    have known := grows.carryAll known
    have given := grows.carry given
    have second := grows.carry second
    have third := grows.carry third
    split
    · refine (replace closed known given (by split <;> assumption)).bind
        fun chosen _ grows closed fine => ?_
      exact simplify closed (grows.carryAll known) fine
    · refine (replace closed known given second).bind fun y _ early closed fineYes => ?_
      refine (replace closed (early.carryAll known) (early.carry given) (early.carry third)).bind
        fun n _ late closed fineNo => ?_
      exact .make closed (Term.among_conditional.2
        ⟨(early.trans late).carry fine, late.carry fineYes, fineNo⟩)
  | chain items =>
    have each := Term.among_chain.1 inside
    have all := Adds.mapM closed fun after grows closed t member =>
      replace closed (grows.carryAll known) (grows.carry given) (grows.carry (each t member))
    exact all.bind fun items _ _ closed fine => .make closed (Term.among_chain.2 fine)
  | list cell =>
    have each := r.items closed.store (Term.among_list.1 inside)
    have all := Adds.mapM closed fun after grows closed t member =>
      replace closed (grows.carryAll known) (grows.carry given) (grows.carry (each t member))
    exact .get (all.bind fun items _ _ closed fine => .makeList closed fine)
  | wrapped inner | itemless kind owner => exact .throw closed
  | string d | unknown kind | datum d =>
    simp only [replaced]
    refine (Adds.emit closed).bind fun _ _ _ closed _ => ?_
    split
    · exact (Adds.look closed).bind fun _ _ _ closed _ => .throw closed
    · exact .throw closed

theorem adds_traceReplacement {s : Settings} {x : Datum} {value before after : Term}
    (closed : w.Closed) :
    Adds w (traceReplacement s x value before after) fun _ _ => True := by
  unfold traceReplacement
  split
  · refine (Adds.look closed).bind fun changed _ _ closed _ => ?_
    split
    · exact .trace closed
    · exact .pure closed trivial
  · exact .pure closed trivial

/-- Simplification and replacement only add lists, and make terms with lists of a kind of such terms. -/
theorem makes_simplify_replace (s : Settings) (r : Region) (lookup : Lookup) (depth : Nat) :
    Makes r lookup (simplify s lookup depth) ∧
      ∀ x value, MakesGiven r lookup value (replace s lookup depth x value) := by
  -- At each depth, both go on with both at the depth below.
  induction depth with
  | zero => exact ⟨fun closed _ _ _ => .throw closed, fun _ _ _ closed _ _ _ _ => .throw closed⟩
  | succ depth ih =>
    obtain ⟨below, belowReplace⟩ := ih
    constructor
    · intro w closed known t inside
      by_cases isDatum : ∃ d, t = .datum d
      · obtain ⟨d, rfl⟩ := isDatum
        exact .throw closed
      · rw [simplify.eq_3 s lookup t depth fun d same => isDatum ⟨d, same⟩]
        refine (Adds.trace closed).bind fun _ _ grows closed _ => ?_
        refine (makes_simplified s below belowReplace closed (grows.carryAll known)
          (grows.carry inside)).bind fun result _ _ closed fine => ?_
        exact (Adds.trace closed).bind fun _ _ grows closed _ => .pure closed (grows.carry fine)
    · intro x value w closed known given t inside
      by_cases isDatum : ∃ d, t = .datum d
      · obtain ⟨d, rfl⟩ := isDatum
        exact .throw closed
      · rw [replace.eq_3 s lookup x value t depth fun d same => isDatum ⟨d, same⟩]
        refine (makesGiven_replaced s x below (belowReplace x value) closed known given inside).bind
          fun result _ _ closed fine => ?_
        exact (adds_traceReplacement closed).bind fun _ _ grows closed _ =>
          .pure closed (grows.carry fine)

/-- Simplification and replacement leave all as it was, whether they come to an end or not. -/
theorem keeps_simplify_replace (s : Settings) (lookup : Lookup) (depth : Nat) :
    Keeps lookup (simplify s lookup depth) ∧
      ∀ x value, KeepsGiven lookup value (replace s lookup depth x value) :=
  makes_simplify_replace s .whole lookup depth

theorem frames_simplify {s : Settings} {depth : Nat} {t : Term} (closed : w.Closed)
    (known : lookup.Within w.store.size) (within : t.Within w.store.size) :
    FramesTerm w (simplify s lookup depth t) :=
  (keeps_simplify_replace s lookup depth).1 closed known within

end Simplify

end DotLambda
