import DotLambda.Proofs.Knots
import DotLambda.Proofs.Refinement
import DotLambda.Proofs.Spelling
import DotLambda.Proofs.Tracing

/-!
Lists that stand apart from the list they were made of. Main statement: after `b := sort . a` or `b := tail . a`, no
append to `b` changes another variable or how it is shown, as no other variable reaches the list for which `b`
stands.
-/

namespace DotLambda

open Eval

variable {w : World} {s : Settings}

/-! ## New lists -/

/-- A list that there is in a store, and that there was not when there were so many lists. -/
def Term.New (size : Nat) (store : Store) (t : Term) : Prop :=
  ∃ cell, t = .list cell ∧ size ≤ cell ∧ cell < store.size

theorem Term.New.within {size : Nat} {store : Store} {t : Term} (new : t.New size store) : t.Within store.size := by
  obtain ⟨cell, rfl, -, inside⟩ := new
  exact Term.among_list.2 inside

theorem Term.New.mono {size fewer : Nat} {store : Store} {t : Term} (new : t.New size store) (le : fewer ≤ size) :
    t.New fewer store := by
  obtain ⟨cell, rfl, outside, inside⟩ := new
  exact ⟨cell, rfl, Nat.le_trans le outside, inside⟩

theorem Term.New.grow {size : Nat} {before after : Store} {t : Term} (new : t.New size before)
    (grown : before.Extends after) : t.New size after := by
  obtain ⟨cell, rfl, outside, inside⟩ := new
  exact ⟨cell, rfl, outside, Nat.lt_of_lt_of_le inside grown.size_le⟩

/-- A list is made where none was. -/
theorem Eval.adds_newList {items : List Term} (closed : w.Closed) (within : ∀ t ∈ items, t.Within w.store.size) :
    Adds w (Eval.newList items) fun store t => t.New w.store.size store := by
  obtain ⟨still, grows, -⟩ := Adds.newList (r := .whole) closed within
  refine ⟨still, grows, w.store.size, rfl, Nat.le_refl _, ?_⟩
  rw [Store.size_allocate]
  exact Nat.lt_succ_self _

theorem Eval.adds_makeList {items : List Term} (closed : w.Closed) (within : ∀ t ∈ items, t.Within w.store.size) :
    Adds w (Eval.makeList s items) fun store t => t.New w.store.size store := by
  refine (Adds.trace closed).bind fun _ _ grows closed _ => ?_
  refine (adds_newList closed fun t member => grows.within (within t member)).bind fun t _ _ closed new => ?_
  have new := new.mono grows.store.size_le
  exact (Adds.trace closed).bind fun _ _ growsMore closed _ => .pure closed (new.grow growsMore.store)

/-- Sorting a list and leaving out its first item make a new list, however short the list is. -/
theorem Builtin.adds_new {f : Builtin} (copies : f = .sort ∨ f = .tail) {t : Term} (closed : w.Closed)
    (within : t.Within w.store.size) :
    Adds w (f.evaluate s t) fun store t => t.New w.store.size store := by
  rcases copies with rfl | rfl
  · refine (Meaning.adds_itemsOf closed.whole within).bind fun items _ first closed fine => .get ?_
    refine (Sorting.frames_sortUpTo items.length closed closed.bindings fine).adds.bind
      fun sorted _ second closed fromItems => ?_
    refine (adds_makeList closed fun t member => ?_).mono fun _ _ made => ⟨made.1, made.2.mono ?_⟩
    · exact second.within (fine t (fromItems t member))
    · exact (first.trans second).store.size_le
  · refine (Meaning.adds_itemsOf closed.whole within).bind fun items _ grows closed fine => ?_
    refine (adds_makeList closed fun t member => ?_).mono fun _ _ made => ⟨made.1, made.2.mono ?_⟩
    · exact fine t (List.mem_of_mem_drop member)
    · exact grows.store.size_le

/-- An assignment of a sorted list or of the rest of a list binds its variable to a new list. -/
theorem commits_copy {f : Builtin} (copies : f = .sort ∨ f = .tail) (closed : w.Closed) (id source : String) :
    Commits w (do
        let t ← (Phrase.alone (.builtin f (.name source))).evaluate s
        Meaning.assign s id t
        pure (Parse.Outcome.accepted (Meaning.done none))) fun after _ =>
      ∃ t, t.New w.store.size after.store ∧ after.bindings = w.bindings.insert id t ∧
        w.store.Extends after.store := by
  have made : Adds w ((Phrase.alone (.builtin f (.name source))).evaluate s) fun store t =>
      t.New w.store.size store := by
    refine (Meaning.adds_name closed.whole).bind fun t _ grows closed within => ?_
    exact (Builtin.adds_new copies closed within).mono fun _ _ made => ⟨made.1, made.2.mono grows.store.size_le⟩
  refine made.commits fun t middle grows closed new => ?_
  refine ((Meaning.commits_assign closed new.within).map fun _ => _).mono ?_
  rintro after _ ⟨_, -, bound, grown⟩
  exact ⟨t, new.grow grown, bound.trans (congrArg _ grows.bindings_eq), grows.store.trans grown⟩

namespace Session

/-! ## Variables that stand apart -/

/-- A variable stands for a list that there was not before, and all else that there was is as it was. -/
structure Detached (before : Session) (id : String) (after : Session) : Prop where
  closed : after.Closed
  list : ∃ cell, after.bindings.find? id = some (.list cell) ∧ before.store.size ≤ cell
  others : ∀ other, other ≠ id → after.bindings.find? other = before.bindings.find? other
  items_eq : ∀ cell < before.store.size, after.store.items cell = before.store.items cell

namespace Detached

variable {before after : Session} {id : String}

/-- What there was is shown as it was. -/
theorem words (detached : before.Detached id after) (closed : before.Closed) {t : Term}
    (within : t.Within before.store.size) (depth : Nat) : before.store.Words after.store depth t :=
  Store.words_of_same (fun cell _ => closed.store cell) detached.items_eq depth within

/-- What there was does not reach the list. -/
theorem lt_of_reaches (detached : before.Detached id after) (closed : before.Closed) {t : Term}
    (within : t.Within before.store.size) {cell : Nat} (reaches : after.store.Reaches t cell) :
    cell < before.store.size := by
  induction reaches with
  | here holds => exact within.cells _ holds
  | @inside t item between cell holds member onward ih =>
    rw [detached.items_eq between (within.cells between holds)] at member
    exact ih (closed.store between item member)
  | referred refers onward ih => simp [within.plain] at refers

/-- Appending to the variable leaves it apart, whether it succeeds or fails. -/
theorem step (detached : before.Detached id after) (s : Settings) {line : String}
    (sentence : Sentence ((Scan.ofText line).tokens.map Token.kind))
    (appends : Command.ofTokens (Scan.ofText line).tokens = some (.append id)) :
    before.Detached id (after.step s line).2 := by
  have closed := detached.closed.step s line
  obtain ⟨failed, succeeded⟩ := detached.closed.step_effects s sentence
  obtain ⟨cell, bound, outside⟩ := detached.list
  have inside : cell < after.store.size :=
    (detached.closed.bindings id _ bound).cells cell (List.mem_singleton_self cell)
  -- either way the bindings are the same, and so are all lists but the one that is new
  suffices unchanged : (after.step s line).2.bindings = after.bindings ∧
      ∀ other < after.store.size, other ≠ cell → (after.step s line).2.store.items other = after.store.items other by
    refine ⟨closed, ⟨cell, ?_, outside⟩, fun other different => ?_, fun other known => ?_⟩
    · rw [unchanged.1, bound]
    · rw [unchanged.1, detached.others other different]
    · rw [unchanged.2 other (by omega) (by omega), detached.items_eq other known]
  cases ended : (after.step s line).1.result with
  | error e =>
    have kept := failed e ended
    exact ⟨kept.bindings_eq, fun other known _ => kept.store.items_eq other known⟩
  | ok result =>
    obtain ⟨command, given, effect⟩ := succeeded result ended
    cases appends.symm.trans given
    obtain ⟨same, target, item, found, appended, -⟩ := effect
    cases bound.symm.trans found
    exact ⟨same, appended.items_eq⟩

/-- So do any number of such lines. -/
theorem steps (detached : before.Detached id after) (s : Settings) {lines : List String}
    (appends : ∀ line ∈ lines, Sentence ((Scan.ofText line).tokens.map Token.kind) ∧
      Command.ofTokens (Scan.ofText line).tokens = some (.append id)) :
    ∀ later ∈ (Session.steps s after lines).map Prod.snd, before.Detached id later := by
  induction lines generalizing after with
  | nil => exact fun _ member => nomatch member
  | cons line rest ih =>
    obtain ⟨⟨sentence, command⟩, others⟩ := List.forall_mem_cons.1 appends
    have next := detached.step s sentence command
    exact List.forall_mem_cons.2 ⟨next, ih next others⟩

end Detached

variable {session : Session} {f : Builtin} {id source : String}

/-- A variable that is bound to a sorted list or to the rest of a list stands apart. -/
theorem detached_of_copy (closed : session.Closed) (s : Settings) (copies : f = .sort ∨ f = .tail) {line : String}
    (scanned : (Scan.ofText line).Of [.name id, .sign .assign ":=", f.word, .sign .dot ".", .name source])
    {result : Option Term} (succeeded : (session.step s line).1.result = .ok result) :
    session.Detached id (session.step s line).2 := by
  obtain ⟨tokens, items, spelled⟩ := scanned
  let w : World := ⟨session.bindings, session.store, #[]⟩
  have read := (Phrase.alone (.builtin f (.name source))).readable (s := s.untraced) rfl none (by decide)
  have copied := (@commits_copy w s.untraced f copies closed id source).map resultOf
  rw [← parse_assign read spelled, ← items] at copied
  cases ended : evaluation s line w with
  | error e after =>
    unfold Session.step Session.run at succeeded
    rw [ended] at succeeded
    cases succeeded
  | ok found after =>
    have stepped : (session.step s line).2 = after.session := congrArg Prod.snd (step_of_ok ended)
    -- the words have been read without tracing, which leaves variables and lists alone
    have quiet : evaluation s.untraced line w = .ok found after.untraced := traces_evaluation s line _ _ _ ended
    obtain ⟨still, _, _, _, ⟨cell, rfl, outside, -⟩, bound, grown⟩ := copied.of_ok quiet
    rw [stepped]
    refine ⟨still, ⟨cell, ?_, outside⟩, fun other different => ?_, grown.items_eq⟩
    · exact (congrArg (·.find? id) bound).trans (Bindings.find?_insert_self ..)
    · exact (congrArg (·.find? other) bound).trans (Bindings.find?_insert_of_ne _ _ different)

end Session

/-- After a variable has been bound to the items of a list in order or to all but the first of them, and after each
line that then appends to it, all other variables stand for what they stood for and are shown as they were, and none
of them reaches the list of that variable. -/
theorem copy_stands_apart {session : Session} (reachable : session.Reachable) (s : Settings) {f : Builtin}
    (copies : f = .sort ∨ f = .tail) {a b line : String}
    (scanned : (Scan.ofText line).Of [.name b, .sign .assign ":=", f.word, .sign .dot ".", .name a])
    {result : Option Term} (succeeded : (session.step s line).1.result = .ok result) {lines : List String}
    (appends : ∀ line ∈ lines, Sentence ((Scan.ofText line).tokens.map Token.kind) ∧
      Command.ofTokens (Scan.ofText line).tokens = some (.append b)) :
    ∀ later ∈ (session.step s line :: Session.steps s (session.step s line).2 lines).map Prod.snd,
      ∃ cell, later.bindings.find? b = some (.list cell) ∧
        ∀ id, id ≠ b → later.bindings.find? id = session.bindings.find? id ∧
          ∀ t, session.bindings.find? id = some t →
            (∀ depth, session.store.Words later.store depth t) ∧ ¬ later.store.Reaches t cell := by
  have closed := reachable.closed
  have first := Session.detached_of_copy closed s copies scanned succeeded
  intro later among
  have detached : session.Detached b later := List.forall_mem_cons.2 ⟨first, first.steps s appends⟩ later among
  obtain ⟨cell, bound, outside⟩ := detached.list
  refine ⟨cell, bound, fun id different => ⟨detached.others id different, fun t found => ?_⟩⟩
  have within := closed.bindings id t found
  refine ⟨fun depth => detached.words closed within depth, fun reaches => ?_⟩
  exact Nat.not_lt_of_le outside (detached.lt_of_reaches closed within reaches)

/-- The rest of a list of lists, which still holds one of them, is appended to itself. -/
theorem copy_stands_apart_of_rest : ∃ session : Session,
    session = (Session.fresh.step ⟨false, Session.usualDepth⟩ "a := [[1], [2]]").2 ∧ session.Reachable ∧
    ∃ later, later = ((session.step ⟨false, Session.usualDepth⟩ "b := tail . a").2.step ⟨false, Session.usualDepth⟩
        "append . b . b").2 ∧
      ∃ cell, later.bindings.find? "b" = some (.list cell) ∧
        ∀ id, id ≠ "b" → later.bindings.find? id = session.bindings.find? id ∧
          ∀ t, session.bindings.find? id = some t →
            (∀ depth, session.store.Words later.store depth t) ∧ ¬ later.store.Reaches t cell := by
  let s : Settings := ⟨false, Session.usualDepth⟩
  have reachable := Session.Reachable.step .fresh s "a := [[1], [2]]"
  have succeeds : (((Session.fresh.step s "a := [[1], [2]]").2.step s "b := tail . a").1.result.toOption).isSome =
      true := by
    decide +kernel
  generalize (Session.fresh.step s "a := [[1], [2]]").2 = session at reachable succeeds
  have scanned : (Scan.ofText "b := tail . a").Of
      [.name "b", .sign .assign ":=", Builtin.tail.word, .sign .dot ".", .name "a"] := by decide +kernel
  have kinds : (Scan.ofText "append . b . b").tokens.map Token.kind =
      [.appendWord, .dot, .identifier, .dot, .identifier] := by decide +kernel
  have command : Command.ofTokens (Scan.ofText "append . b . b").tokens = some (.append "b") := rfl
  let front : List Symbol :=
    [.terminal .appendWord, .terminal .dot, .terminal .identifier, .terminal .dot]
  have sentence : Sentence ((Scan.ofText "append . b . b").tokens.map Token.kind) := by
    rw [kinds]
    exact .head (.step [] .append []) (.head (.step front .termExpr [])
      (.head (.step front .factorTerm []) (.head (.step front .name []) .refl)))
  refine ⟨session, rfl, reachable, _, rfl, ?_⟩
  cases ended : (session.step s "b := tail . a").1.result with
  | error e =>
    rw [ended] at succeeds
    exact nomatch succeeds
  | ok result =>
    have apart := copy_stands_apart reachable s (.inr rfl) scanned ended
      (List.forall_mem_singleton.2 ⟨sentence, command⟩)
    exact (List.forall_mem_cons.1 (List.forall_mem_cons.1 apart).2).1

end DotLambda
