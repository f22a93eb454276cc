import DotLambda.Proofs.Constancy

/-!
Evaluations that build terms. Main statements: what has been built is built with more depth as well; and what it takes
for one evaluation to succeed where another one has succeeded, if it is given enough depth.
-/

namespace DotLambda

open Eval

/-! ## Evaluations that last -/

namespace Eval

/-- Evaluations of which the second does what the first does where that succeeds. -/
def Persists {α : Type} (x y : Eval α) : Prop := ∀ w a after, x w = .ok a after → y w = .ok a after

namespace Persists

variable {α β : Type} {x y : Eval α}

theorem refl (x : Eval α) : Persists x x := fun _ _ _ ended => ended

theorem bind {f g : α → Eval β} (first : Persists x y) (next : ∀ a, Persists (f a) (g a)) :
    Persists (x >>= f) (y >>= g) := by
  intro w b after ended
  obtain ⟨a, between, started, finished⟩ := ok_of_bind ended
  rw [bind_of_ok (first w a between started)]
  exact next a between b after finished

theorem get {f g : World → Eval β} (next : ∀ w, Persists (f w) (g w)) :
    Persists (MonadState.get >>= f) (MonadState.get >>= g) :=
  fun w b after ended => next w w b after ended

theorem examine {f g : Store → Except Error α} (near : ∀ store, Nears (f store) (g store)) :
    Persists (Eval.examine f) (Eval.examine g) := by
  refine get fun w => ?_
  rcases near w.store with endless | same
  · rw [endless]
    intro _ _ _ ended
    cases ended
  · rw [same]
    exact .refl _

variable {s s' : Settings} (le : s.Le s')
include le

theorem trace {color : Color} {text text' : Store → Except Error String}
    (near : ∀ store, Nears (text store) (text' store)) :
    Persists (Eval.trace s color text) (Eval.trace s' color text') := by
  unfold Eval.trace
  rw [le.tracing]
  split
  · exact (examine near).bind fun _ => .refl _
  · exact .refl _

theorem make (t : Term) : Persists (Eval.make s t) (Eval.make s' t) := by
  refine (trace le fun store => ?_).bind fun _ => (trace le fun store => ?_).bind fun _ => .refl _
  · exact (Component.dumpedBindings_near store le.depth _).bind fun _ => .refl _
  · exact (t.texts_near store le.depth).2.bind fun _ => .refl _

theorem makeList (items : List Term) : Persists (Eval.makeList s items) (Eval.makeList s' items) := by
  refine (trace le fun store => ?_).bind fun _ => (refl _).bind fun t => ?_
  · exact (Component.dumpedBindings_near store le.depth _).bind fun _ => .refl _
  refine (trace le fun store => ?_).bind fun _ => .refl _
  exact (t.texts_near store le.depth).2.bind fun _ => .refl _

theorem apply (op : Operator) (lhs rhs : Datum) : Persists (Eval.apply s op lhs rhs) (Eval.apply s' op lhs rhs) := by
  refine examine fun store => Operator.apply_near ?_ ?_
  · exact lhs.plain_near (fun cell => ((store.term cell).texts_near store le.depth).1)
      fun cell => ((store.term cell).texts_near store le.depth).2
  · exact rhs.plain_near (fun cell => ((store.term cell).texts_near store le.depth).1)
      fun cell => ((store.term cell).texts_near store le.depth).2

end Persists

end Eval

/-! ## Evaluations that succeed with others -/

theorem World.grows_of_eq {w after : World} (bindings : after.bindings = w.bindings) (same : after.store = w.store) :
    w.Grows after := by
  refine ⟨bindings, ?_⟩
  change w.store.Extends after.store
  rw [same]
  exact .refl _

/-- A computation that has a result with enough depth. -/
def Reached {α : Type} (x : Settings → Except Error α) : Prop :=
  ∃ a enough, ∀ s : Settings, enough ≤ s.depth → x s = .ok a

namespace Reached

variable {α β : Type} {x : Settings → Except Error α}

theorem ofNear {y : Except Error α} {depth : Nat} (near : ∀ s : Settings, depth ≤ s.depth → Nears y (x s))
    (found : Succeeds y) : Reached x := by
  obtain ⟨a, found⟩ := found
  exact ⟨a, depth, fun s le => (near s le).eq_of_ok found⟩

theorem map {f : α → β} (reached : Reached x) : Reached fun s => (do let a ← x s; pure (f a)) := by
  obtain ⟨a, enough, found⟩ := reached
  refine ⟨f a, enough, fun s le => ?_⟩
  dsimp only
  rw [found s le]
  rfl

end Reached

theorem Showable.reached {tracing : Bool} {store : Store} {t : Term} (shown : Showable tracing store t)
    (is : tracing = true) : Reached fun s => t.dumped store s.depth := by
  obtain ⟨depth, shown⟩ := shown
  exact .ofNear (fun s le => (t.texts_near store le).2) (shown is store (.refl store))

namespace Eval

/-- An evaluation that succeeds with a good result if it is given enough depth. All that there was is as it was. -/
def Eventual {α : Type} (tracing : Bool) (w : World) (x : Settings → Eval α) (good : Store → α → Prop) : Prop :=
  ∃ a after, w.Grows after ∧ good after.store a ∧
    ∃ enough, ∀ s : Settings, s.tracing = tracing → enough ≤ s.depth → x s w = .ok a after

/-- An evaluation that succeeds with a good result, if it is given enough depth, where another one does. -/
def Follows {α β : Type} (tracing : Bool) (w w' : World) (x : Eval α) (x' : Settings → Eval β)
    (good : Store → Store → α → β → Prop) : Prop :=
  ∀ a after, x w = .ok a after → w.Grows after ∧ Eventual tracing w' x' fun store' b => good after.store store' a b

variable {α β γ δ : Type} {tracing : Bool} {w w' after : World} {s : Settings} {t : Term} {items : List Term}

namespace Eventual

variable {x : Settings → Eval α} {good : Store → α → Prop}

theorem pure {a : α} (fine : good w.store a) : Eventual tracing w (fun _ => pure a) good :=
  ⟨a, w, .refl _, fine, 0, fun _ _ _ => rfl⟩

theorem bind {f : Settings → α → Eval β} {best : Store → β → Prop} (first : Eventual tracing w x good)
    (next : ∀ a after, w.Grows after → good after.store a → Eventual tracing after (fun s => f s a) best) :
    Eventual tracing w (fun s => x s >>= f s) best := by
  obtain ⟨a, after, grown, fine, early, run⟩ := first
  obtain ⟨b, last, later, best, late, rest⟩ := next a after grown fine
  refine ⟨b, last, grown.trans later, best, max early late, fun s traces enough => ?_⟩
  exact (bind_of_ok (run s traces (by omega))).trans (rest s traces (by omega))

theorem mono {best : Store → α → Prop} (eventual : Eventual tracing w x good)
    (weaker : ∀ store a, good store a → best store a) : Eventual tracing w x best := by
  obtain ⟨a, after, grown, fine, run⟩ := eventual
  exact ⟨a, after, grown, weaker after.store a fine, run⟩

theorem trace {color : Color} {text : Settings → Store → Except Error String}
    (told : tracing = true → Reached fun s => text s w.store) :
    Eventual tracing w (fun s => Eval.trace s color (text s)) fun store _ => store = w.store := by
  cases tracing with
  | true =>
    obtain ⟨line, enough, found⟩ := told rfl
    exact ⟨(), { w with output := w.output.push (.trace color line) }, ⟨rfl, .refl _⟩, rfl, enough,
      fun s traces le => trace_of_ok traces (found s le)⟩
  | false =>
    refine ⟨(), w, .refl _, rfl, 0, fun s traces _ => ?_⟩
    change Eval.trace s color (text s) w = _
    rw [trace_untraced traces]
    rfl

theorem announceResult (shown : Showable tracing w.store t) :
    Eventual tracing w (fun s => Eval.announceResult s t) fun store _ => store = w.store :=
  trace fun is => (shown.reached is).map

theorem make {good : Store → Term → Prop} (shown : Showable tracing w.store t) (fine : good w.store t) :
    Eventual tracing w (fun s => Eval.make s t) good := by
  have announced : Eventual tracing w (fun s => Eval.announce s t.kind t.components) fun store _ =>
      store = w.store := by
    refine trace fun is => ?_
    obtain ⟨depth, shown⟩ := shown
    have found := Component.dumpedBindings_succeeds (Term.components_of_dumped (shown is w.store (.refl _)))
    exact (Reached.ofNear (fun s le => Component.dumpedBindings_near w.store le _) found).map
  unfold Eval.make
  refine announced.bind fun _ after _ same => ?_
  rw [← same] at shown fine
  refine (announceResult shown).bind fun _ last _ same => .pure ?_
  rw [same]
  exact fine

theorem makeList {good : Store → Term → Prop} (shown : ∀ t ∈ items, Showable tracing w.store t)
    (fine : good (w.store.allocate items) (.list w.store.size)) :
    Eventual tracing w (fun s => Eval.makeList s items) good := by
  have announced : Eventual tracing w (fun s => Eval.announce s "list" [("elements", .terms items)]) fun store _ =>
      store = w.store := by
    refine trace fun is => ?_
    obtain ⟨depth, shown⟩ := Showable.common shown
    have found : Succeeds (Component.dumpedBindings w.store depth [("elements", .terms items)]) := by
      refine Component.dumpedBindings_succeeds (List.forall_mem_singleton.2 (Succeeds.map_iff.2 ?_))
      exact Succeeds.mapM_iff.2 fun t member => shown t member is w.store (.refl _)
    exact (Reached.ofNear (fun s le => Component.dumpedBindings_near w.store le _) found).map
  have listed : Showable tracing (w.store.allocate items) (.list w.store.size) := by
    refine .list ?_ fun t member => ?_
    · rw [Store.size_allocate]
      exact Nat.lt_succ_self _
    · rw [Store.items_allocate_self] at member
      exact (shown t member).grow (.allocate _ _)
  unfold Eval.makeList
  refine announced.bind fun _ mid _ same => ?_
  have made : Eventual tracing mid (fun _ => Eval.newList items) fun store t =>
      store = w.store.allocate items ∧ t = .list w.store.size := by
    refine ⟨_, { mid with store := mid.store.allocate items }, ⟨rfl, .allocate _ _⟩, ?_, 0, fun _ _ _ => rfl⟩
    rw [same]
    exact ⟨rfl, rfl⟩
  refine made.bind ?_
  rintro t after - ⟨allocated, rfl⟩
  rw [← allocated] at listed fine
  refine (announceResult listed).bind fun _ last _ same => .pure ?_
  rw [same]
  exact fine

end Eventual

/-- A term that has been made could be dumped, and nothing else has been done. -/
theorem ok_of_make {r : Term} (ended : Eval.make s t w = .ok r after) :
    r = t ∧ (s.tracing = true → Succeeds (t.dumped w.store s.depth)) ∧ w.Grows after ∧ after.store = w.store := by
  obtain ⟨_, mid, first, ended⟩ := ok_of_bind ended
  obtain ⟨_, last, second, ended⟩ := ok_of_bind ended
  cases ended
  obtain ⟨-, bindings, same⟩ := ok_of_trace first
  obtain ⟨shown, bindings', same'⟩ := ok_of_trace second
  rw [same] at shown same'
  exact ⟨rfl, fun tracing => Succeeds.map_iff.1 (shown tracing),
    World.grows_of_eq (bindings'.trans bindings) same', same'⟩

/-- A list that has been made lies in a new cell, and nothing else has been done. -/
theorem ok_of_makeList {r : Term} (ended : Eval.makeList s items w = .ok r after) :
    r = .list w.store.size ∧ w.Grows after ∧ after.store = w.store.allocate items := by
  obtain ⟨_, mid, first, ended⟩ := ok_of_bind ended
  obtain ⟨t, next, made, ended⟩ := ok_of_bind ended
  obtain ⟨_, last, second, ended⟩ := ok_of_bind ended
  cases ended
  obtain ⟨-, bindings, same⟩ := ok_of_trace first
  obtain ⟨-, bindings', same'⟩ := ok_of_trace second
  cases made
  dsimp only at same'
  rw [same] at same'
  refine ⟨by rw [← same], ⟨bindings'.trans bindings, ?_⟩, same'⟩
  change w.store.Extends after.store
  rw [same']
  exact .allocate _ _

namespace Follows

variable {x : Eval α} {x' : Settings → Eval β} {good : Store → Store → α → β → Prop}

theorem pure {a : α} {b : β} (fine : good w.store w'.store a b) :
    Follows tracing w w' (pure a) (fun _ => pure b) good := by
  rintro _ _ ⟨⟩
  exact ⟨.refl _, .pure fine⟩

theorem bind {f : α → Eval γ} {f' : Settings → β → Eval δ} {best : Store → Store → γ → δ → Prop}
    (first : Follows tracing w w' x x' good)
    (next : ∀ a b after after', w.Grows after → w'.Grows after' → good after.store after'.store a b →
      Follows tracing after after' (f a) (fun s => f' s b) best) :
    Follows tracing w w' (x >>= f) (fun s => x' s >>= f' s) best := by
  intro c last ended
  obtain ⟨a, after, started, finished⟩ := ok_of_bind ended
  obtain ⟨grown, later⟩ := first a after started
  have rest b after' grown' fine := next a b after after' grown grown' fine c last finished
  refine ⟨?_, later.bind fun b after' grown' fine => (rest b after' grown' fine).2⟩
  obtain ⟨b, after', grown', fine, -⟩ := later
  exact grown.trans (rest b after' grown' fine).1

theorem mono {best : Store → Store → α → β → Prop} (follows : Follows tracing w w' x x' good)
    (weaker : ∀ store store' a b, good store store' a b → best store store' a b) :
    Follows tracing w w' x x' best := by
  intro a after ended
  obtain ⟨grown, later⟩ := follows a after ended
  exact ⟨grown, later.mono fun store' b fine => weaker after.store store' a b fine⟩

theorem get {f : World → Eval α} {f' : Settings → World → Eval β}
    (next : Follows tracing w w' (f w) (fun s => f' s w') good) :
    Follows tracing w w' (MonadState.get >>= f) (fun s => MonadState.get >>= f' s) good :=
  next

theorem look {f : γ → Eval α} {f' : Settings → δ → Eval β} {view : Store → γ} {view' : Store → δ}
    (next : Follows tracing w w' (f (view w.store)) (fun s => f' s (view' w'.store)) good) :
    Follows tracing w w' (Eval.examine (fun store => Pure.pure (view store)) >>= f)
      (fun s => Eval.examine (fun store => Pure.pure (view' store)) >>= f' s) good :=
  next

theorem trace {color color' : Color} {text : Store → Except Error String}
    {text' : Settings → Store → Except Error String} (traces : s.tracing = tracing)
    (told : tracing = true → Succeeds (text w.store) → Reached fun s => text' s w'.store) :
    Follows tracing w w' (Eval.trace s color text) (fun s => Eval.trace s color' (text' s)) fun store store' _ _ =>
      (tracing = true → Succeeds (text w.store)) ∧ store = w.store ∧ store' = w'.store := by
  intro _ after ended
  obtain ⟨tells, bindings, same⟩ := ok_of_trace ended
  rw [traces] at tells
  obtain ⟨a, after', grown', same', run⟩ := Eventual.trace fun is => told is (tells is)
  exact ⟨World.grows_of_eq bindings same, a, after', grown', ⟨tells, same, same'⟩, run⟩

end Follows

end Eval

end DotLambda
