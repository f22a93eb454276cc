import DotLambda.Proofs.Honesty
import DotLambda.Proofs.Lockstep

/-!
The names that evaluation depends on. A name concerns terms if it stands in them, or in what a name is bound to that
concerns them. Main statement: simplification under two lookups that bind the names which concern a term to terms
equal in structure ends in results equal in structure or in the same failure, and so does replacement.
-/

namespace DotLambda

open Eval

open Simplify (Lookup)

variable {l : Likeness} {store store' : Store} {names : String → Prop} {t t' : Term}

/-! ## All that is equal in structure -/

/-- The likeness of two stores in which everything is alike that is equal in structure. -/
def Likeness.widest (store store' : Store) : Likeness where
  names _ := True
  data d := ∃ l : Likeness, l.Relates store store' ∧ l.data d
  cells cell cell' := ∃ l : Likeness, l.Relates store store' ∧ l.cells cell cell'

theorem Likeness.Relates.le_widest (relates : l.Relates store store') : l.Le (.widest store store') where
  names _ _ := trivial
  data _ fits := ⟨l, relates, fits⟩
  cells _ _ paired := ⟨l, relates, paired⟩

theorem Likeness.widest_relates (store store' : Store) : (widest store store').Relates store store' where
  here := by
    rintro cell cell' ⟨l, relates, paired⟩
    exact relates.here cell cell' paired
  there := by
    rintro cell cell' ⟨l, relates, paired⟩
    exact relates.there cell cell' paired
  items := by
    rintro cell cell' ⟨l, relates, paired⟩
    exact (relates.items cell cell' paired).imp fun _ _ alike => alike.mono relates.le_widest
  referred := by
    rintro d ⟨l, relates, fits⟩ cell refers
    obtain ⟨old, old', alike⟩ := relates.referred d fits cell refers
    exact ⟨old, old', alike.mono relates.le_widest⟩

theorem Likeness.widest_data_of_plain {d : Datum} (plain : d.references = []) : (widest store store').data d := by
  refine ⟨⟨fun _ => False, fun d => d.references = [], fun _ _ => False⟩, ?_, plain⟩
  refine ⟨fun _ _ => False.elim, fun _ _ => False.elim, fun _ _ => False.elim, fun d plain cell refers => ?_⟩
  rw [plain] at refers
  cases refers

theorem Store.Equal.alike (equal : store.Equal store' t t') : Term.Alike (.widest store store') t t' := by
  obtain ⟨l, relates, alike⟩ := equal
  exact alike.mono relates.le_widest

theorem Term.Of.equal_self (known : t.Of store) (sound : store.Sound) : store.Equal store t t :=
  ⟨store.own, sound.coherent, known.owns⟩

/-! ## Where no other names stand -/

/-- A term in which no other names stand. -/
def Store.Confines (store : Store) (names : String → Prop) (t : Term) : Prop :=
  ∀ id, store.Leads t (.name id) → names id

namespace Store.Confines

theorem part {part : Term} (confines : store.Confines names t) (member : part ∈ store.parts t) :
    store.Confines names part :=
  fun id stands => confines id (.part member stands)

theorem referred {cell : Nat} (confines : store.Confines names t) (refers : cell ∈ t.references) :
    store.Confines names (store.term cell) :=
  fun id stands => confines id (.referred refers stands)

theorem rest {first : Term} {rest : List Term} (confines : store.Confines names (.chain (first :: rest))) :
    store.Confines names (.chain rest) := by
  intro id stands
  cases stands with
  | part member onward => exact confines id (.part (List.mem_cons_of_mem first member) onward)
  | referred refers onward => exact confines id (.referred (List.mem_append_right _ refers) onward)

end Store.Confines

/-- What is alike and has no other names in it. -/
def Likeness.within (l : Likeness) (store : Store) (names : String → Prop) : Likeness where
  names := names
  data d := l.data d ∧ ∀ cell ∈ d.references, store.Confines names (store.term cell)
  cells cell cell' := l.cells cell cell' ∧ ∀ t ∈ store.items cell, store.Confines names t

theorem Term.Alike.within (alike : Alike l t t') (confines : store.Confines names t) :
    Alike (l.within store names) t t' := by
  induction alike with
  | int fits => exact .int ⟨fits, fun _ refers => confines.referred refers⟩
  | bool fits => exact .bool ⟨fits, fun _ refers => confines.referred refers⟩
  | string fits => exact .string ⟨fits, fun _ refers => confines.referred refers⟩
  | name => exact .name (confines _ (.self _))
  | nameless fits => exact .nameless ⟨fits, fun _ refers => confines.referred refers⟩
  | function fits _ inner =>
    refine .function ⟨fits, fun _ refers => ?_⟩ (inner (confines.part List.mem_cons_self))
    exact confines.referred (List.mem_append_left _ refers)
  | operation _ fits _ left right =>
    refine .operation (left (confines.part List.mem_cons_self)) ⟨fits, fun _ refers => ?_⟩
      (right (confines.part (by simp [Store.parts])))
    exact confines.referred (List.mem_append_left _ (List.mem_append_right _ refers))
  | conditional _ _ _ decides first second =>
    exact .conditional (decides (confines.part List.mem_cons_self)) (first (confines.part (by simp [Store.parts])))
      (second (confines.part (by simp [Store.parts])))
  | nil => exact .nil
  | cons _ _ first others => exact .cons (first (confines.part List.mem_cons_self)) (others confines.rest)
  | list paired => exact .list ⟨paired, fun _ member => confines.part member⟩
  | wrapped _ inner => exact .wrapped (inner (confines.part List.mem_cons_self))
  | itemless => exact .itemless
  | unknown => exact .unknown
  | datum fits => exact .datum ⟨fits, fun _ refers => confines.referred refers⟩

theorem Likeness.Relates.within (relates : l.Relates store store') :
    (l.within store names).Relates store store' where
  here cell cell' is := relates.here cell cell' is.1
  there cell cell' is := relates.there cell cell' is.1
  items cell cell' is := by
    obtain ⟨paired, confined⟩ := is
    refine List.forall₂_iff_zip.2 ⟨(relates.items cell cell' paired).length_eq, fun {item item'} member => ?_⟩
    exact (List.forall₂_zip (relates.items cell cell' paired) member).within
      (confined item (List.of_mem_zip member).1)
  referred d is cell refers := by
    obtain ⟨old, old', alike⟩ := relates.referred d is.1 cell refers
    exact ⟨old, old', alike.within (is.2 cell refers)⟩

/-! ## Names that concern terms -/

/-- The names that concern terms: those that stand in them, and those that stand in what a name is bound to which
concerns them. -/
inductive Simplify.Concerns (store : Store) (lookup : Lookup) (roots : List Term) : String → Prop where
  | root {t : Term} {id : String} (member : t ∈ roots) (stands : store.Leads t (.name id)) :
      Concerns store lookup roots id
  | onward {upper id : String} {t : Term} (concerns : Concerns store lookup roots upper)
      (bound : lookup.find? upper = some t) (stands : store.Leads t (.name id)) : Concerns store lookup roots id

open Simplify (Concerns)

/-- Two lookups agree on the names that concern terms: these are bound to terms that are equal in structure, or are
bound in neither. -/
def Simplify.Coincide (store store' : Store) (lookup lookup' : Lookup) (roots : List Term) : Prop :=
  ∀ id, Concerns store lookup roots id → Option.Rel (store.Equal store') (lookup.find? id) (lookup'.find? id)

open Simplify (Coincide)

/-- What is equal in structure and has only names in it that concern terms. -/
def Likeness.concerning (store store' : Store) (lookup : Lookup) (roots : List Term) : Likeness :=
  (widest store store').within store (Concerns store lookup roots)

variable {lookup lookup' : Lookup} {roots : List Term} {w w' : World}

theorem Store.Equal.concerning (equal : store.Equal store' t t') (member : t ∈ roots) :
    Term.Alike (.concerning store store' lookup roots) t t' :=
  equal.alike.within fun _ stands => .root member stands

/-- Where two lookups agree on the names that concern terms, evaluations of these may go together. -/
theorem Simplify.Coincide.meets (coincide : Coincide w.store w'.store lookup lookup' roots)
    (even : w'.store.terms.size = w.store.terms.size) :
    Meets lookup lookup' (.concerning w.store w'.store lookup roots) w w' where
  relates := (Likeness.widest_relates _ _).within
  even := even
  plain d none := ⟨Likeness.widest_data_of_plain none, by rw [none]; exact List.forall_mem_nil _⟩
  lookups id concerns := by
    have agree := coincide id concerns
    have onward {t : Term} (bound : lookup.find? id = some t) :
        w.store.Confines (Concerns w.store lookup roots) t :=
      fun _ stands => .onward concerns bound stands
    generalize lookup.find? id = here at agree onward ⊢
    generalize lookup'.find? id = there at agree ⊢
    cases agree with
    | some equal => exact .some (equal.alike.within (onward rfl))
    | none => exact .none

theorem Meets.flip (meets : Meets lookup lookup' l w w') : Meets lookup' lookup l.flip w' w where
  relates := meets.relates.flip
  even := meets.even.symm
  plain := meets.plain
  lookups id named := by
    have found := meets.lookups id named
    generalize lookup.find? id = here at found ⊢
    generalize lookup'.find? id = there at found ⊢
    cases found with
    | some alike => exact .some alike.symm
    | none => exact .none

/-! ## Evaluations that end alike -/

/-- Evaluations that end alike: with results that are equal in structure, or with the same failure. -/
def Eval.Concur : EStateM.Result Error World Term → EStateM.Result Error World Term → Prop
  | .ok t after, .ok t' after' => after.store.Equal after'.store t t'
  | .error e _, .error e' _ => e' = e
  | _, _ => False

/-- Evaluations that go together whichever comes first both succeed or both fail, also where they run out of depth. -/
theorem Eval.Tandem.ends {α β : Type} {x : Eval α} {x' : Eval β} {good : Likeness → Store → Store → α → β → Prop}
    {good' : Likeness → Store → Store → β → α → Prop} (forth : Tandem lookup lookup' l w w' x x' good)
    (back : Tandem lookup' lookup l.flip w' w x' x good') :
    (∃ a after b after' more, x w = .ok a after ∧ x' w' = .ok b after' ∧
      Advances lookup lookup' l w w' more after after' ∧ good more after.store after'.store a b) ∨
    ∃ e after after', x w = .error e after ∧ x' w' = .error e after' := by
  rcases forth with ⟨after, ended⟩ | both
  · rcases back with ⟨after', ended'⟩ | ⟨_, _, _, _, _, _, succeeded, _⟩ | ⟨e, after', _, ended', failed⟩
    · exact .inr ⟨_, after, after', ended, ended'⟩
    · rw [ended] at succeeded
      cases succeeded
    · exact .inr ⟨e, _, after', failed, ended'⟩
  · exact both

theorem Eval.Tandem.concur {x x' : Eval Term} (forth : TandemTerm lookup lookup' l w w' x x')
    (back : TandemTerm lookup' lookup l.flip w' w x' x) : Concur (x w) (x' w') := by
  rcases forth.ends back with ⟨_, _, _, _, more, ended, ended', advances, alike⟩ | ⟨_, _, _, ended, ended'⟩
  · rw [ended, ended']
    exact ⟨more, advances.meets.relates, alike⟩
  · rw [ended, ended']
    rfl

namespace Simplify

variable {s : Settings} {depth : Nat}

/-- Simplification depends only on the names that concern the term. -/
theorem Coincide.concur_simplify (coincide : Coincide w.store w.store lookup lookup' [t]) (sound : w.store.Sound)
    (known : t.Of w.store) : Concur (simplify s lookup depth t w) (simplify s lookup' depth t w) := by
  have meets := coincide.meets rfl
  have alike : Term.Alike (.concerning w.store w.store lookup [t]) t t :=
    (known.equal_self sound).concerning List.mem_cons_self
  have le : s.Le s := ⟨rfl, Nat.le_refl _⟩
  exact ((accords_simplify_replace le (Nat.le_refl depth)).1 meets alike).concur
    ((accords_simplify_replace le (Nat.le_refl depth)).1 meets.flip alike.symm)

/-- To replace a name by an argument depends only on the names that concern the two terms. -/
theorem Coincide.concur_replace {x : String} {value : Term}
    (coincide : Coincide w.store w.store lookup lookup' [t, value]) (sound : w.store.Sound) (known : t.Of w.store)
    (given : value.Of w.store) (argument : value.isArgument = true) :
    Concur (replace s lookup depth (.text x) value t w) (replace s lookup' depth (.text x) value t w) := by
  have meets := coincide.meets rfl
  have alike : Term.Alike (.concerning w.store w.store lookup [t, value]) t t :=
    (known.equal_self sound).concerning List.mem_cons_self
  have alike' : Term.Alike (.concerning w.store w.store lookup [t, value]) value value :=
    (given.equal_self sound).concerning (List.mem_cons_of_mem t List.mem_cons_self)
  have le : s.Le s := ⟨rfl, Nat.le_refl _⟩
  exact ((accords_simplify_replace le (Nat.le_refl depth)).2 meets (meets.plain _ rfl) argument alike' alike).concur
    ((accords_simplify_replace le (Nat.le_refl depth)).2 meets.flip (meets.plain _ rfl) argument alike'.symm
      alike.symm)

end Simplify

end DotLambda
