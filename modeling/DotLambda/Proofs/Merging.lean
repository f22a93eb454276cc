import DotLambda.Proofs.Growth

/-!
Merging step by step. Two lists are merged from their fronts, whatever order their items are in, and any comparison
may fail. Each step takes one item from one of the lists, when the first terms of both have come to numbers. Main
statement: no item is lost and none is made up, also when merging fails. What has been taken from the two lists and
what is left of them make up what they were; all that has been taken came to numbers, and where merging fails it is
because the first two of those that are left cannot be compared.
-/

namespace DotLambda

open Eval

open Simplify (Lookup)

/-- A list of the items of two lists: each of them once, and those of either list in their order. -/
inductive Interleaves {α : Type} : (left right merged : List α) → Prop where
  | nil : Interleaves [] [] []
  | left {a : α} {left right merged : List α} (rest : Interleaves left right merged) :
      Interleaves (a :: left) right (a :: merged)
  | right {b : α} {left right merged : List α} (rest : Interleaves left right merged) :
      Interleaves left (b :: right) (b :: merged)

namespace Interleaves

variable {α : Type} {left right merged left' right' merged' : List α}

theorem append (first : Interleaves left right merged) (second : Interleaves left' right' merged') :
    Interleaves (left ++ left') (right ++ right') (merged ++ merged') := by
  induction first with
  | nil => exact second
  | left _ ih => exact ih.left
  | right _ ih => exact ih.right

theorem concat (left right : List α) : Interleaves left right (left ++ right) := by
  induction left with
  | nil =>
    induction right with
    | nil => exact .nil
    | cons b right ih => exact ih.right
  | cons a left ih => exact ih.left

end Interleaves

namespace Sorting

variable {α : Type} {s : Settings} {lookup : Lookup} {term : α → Term}

/-! ## Comparisons -/

/-- Two terms come to numbers, one after the other, which stand in order or do not. -/
inductive Compares (s : Settings) (lookup : Lookup) (w after : World) (a b : Term) (inOrder : Bool) : Prop where
  | intro {m n : Datum} {between : World} (first : simplify s lookup s.depth a w = .ok (.int m) between)
      (second : simplify s lookup s.depth b between = .ok (.int n) after)
      (holds : Operator.le.holds m n = .ok inOrder)

/-- Two terms cannot be compared: one of them cannot be simplified, or does not come to a number, or the data that they
hold as numbers have no order. -/
inductive Incomparable (s : Settings) (lookup : Lookup) (w after : World) (a b : Term) : Error → Prop where
  | first {e : Error} (failed : simplify s lookup s.depth a w = .error e after) : Incomparable s lookup w after a b e
  | second {l : Term} {between : World} {e : Error} (first : simplify s lookup s.depth a w = .ok l between)
      (failed : simplify s lookup s.depth b between = .error e after) : Incomparable s lookup w after a b e
  | kinds {l r : Term} {between : World} (first : simplify s lookup s.depth a w = .ok l between)
      (second : simplify s lookup s.depth b between = .ok r after)
      (different : (∀ m, l ≠ .int m) ∨ ∀ n, r ≠ .int n) : Incomparable s lookup w after a b .unsortable
  | order {m n : Datum} {between : World} {x y : String}
      (first : simplify s lookup s.depth a w = .ok (.int m) between)
      (second : simplify s lookup s.depth b between = .ok (.int n) after) (unordered : m.order n = .error (x, y)) :
      Incomparable s lookup w after a b (.unordered "<=" x y)

variable {w after : World} {a b : Term}

theorem compares_of_precedes {inOrder : Bool} (ended : precedes s lookup a b w = .ok inOrder after) :
    Compares s lookup w after a b inOrder := by
  obtain ⟨l, between, first, rest⟩ := ok_of_bind ended
  obtain ⟨r, last, second, decided⟩ := ok_of_bind rest
  split at decided
  · obtain ⟨holds, rfl⟩ := ok_of_ofExcept decided
    exact ⟨first, second, holds⟩
  · cases decided

theorem order_of_holds {m n : Datum} {e : Error} (failed : Operator.le.holds m n = .error e) :
    ∃ x y, m.order n = .error (x, y) ∧ e = .unordered "<=" x y := by
  unfold Operator.holds at failed
  split at failed
  · cases failed
  · rename_i x y unordered
    cases failed
    exact ⟨x, y, unordered, rfl⟩

theorem incomparable_of_precedes {e : Error} (failed : precedes s lookup a b w = .error e after) :
    Incomparable s lookup w after a b e := by
  rcases error_of_bind failed with failed | ⟨l, between, first, rest⟩
  · exact .first failed
  rcases error_of_bind rest with failed | ⟨r, last, second, decided⟩
  · exact .second first failed
  split at decided
  · obtain ⟨notHeld, rfl⟩ := error_of_ofExcept decided
    obtain ⟨x, y, unordered, rfl⟩ := order_of_holds notHeld
    exact .order first second unordered
  · rename_i different
    cases decided
    refine .kinds first second ?_
    by_cases number : ∃ m, l = .int m
    · obtain ⟨m, is⟩ := number
      exact .inr fun n is' => different m n is is'
    · exact .inl fun m is => number ⟨m, is⟩

theorem Compares.continues {inOrder : Bool} (compares : Compares s lookup w after a b inOrder) : w.Continues after := by
  have simplified := Simplify.continues_simplify s lookup s.depth
  obtain ⟨first, second, -⟩ := compares
  exact ((simplified a).of_ok first).trans ((simplified b).of_ok second)

theorem Incomparable.continues {e : Error} (incomparable : Incomparable s lookup w after a b e) :
    w.Continues after := by
  have simplified := Simplify.continues_simplify s lookup s.depth
  cases incomparable with
  | first failed => exact (simplified a).of_error failed
  | second first failed => exact ((simplified a).of_ok first).trans ((simplified b).of_error failed)
  | kinds first second => exact ((simplified a).of_ok first).trans ((simplified b).of_ok second)
  | order first second => exact ((simplified a).of_ok first).trans ((simplified b).of_ok second)

/-! ## Steps -/

/-- Where merging has come to: the world, and what is left of the two lists. -/
structure Stage (α : Type) where
  world : World
  left : List α
  right : List α

/-- A step takes an item from one of the lists. -/
inductive Step (s : Settings) (lookup : Lookup) (term : α → Term) : Stage α → α → Stage α → Prop where
  | left {w after : World} {a b : α} {left right : List α}
      (compares : Compares s lookup w after (term a) (term b) true) :
      Step s lookup term ⟨w, a :: left, b :: right⟩ a ⟨after, left, b :: right⟩
  | right {w after : World} {a b : α} {left right : List α}
      (compares : Compares s lookup w after (term a) (term b) false) :
      Step s lookup term ⟨w, a :: left, b :: right⟩ b ⟨after, a :: left, right⟩

/-- Steps in a row, with the items that they take. -/
inductive Run (s : Settings) (lookup : Lookup) (term : α → Term) : Stage α → List α → Stage α → Prop where
  | refl (stage : Stage α) : Run s lookup term stage [] stage
  | head {start next stage : Stage α} {a : α} {items : List α} (step : Step s lookup term start a next)
      (rest : Run s lookup term next items stage) : Run s lookup term start (a :: items) stage

/-- The merge that comes of a stage and the items taken before it, if no step can follow. -/
inductive Stops (s : Settings) (lookup : Lookup) (term : α → Term) (items : List α) :
    Stage α → Merge α → World → Prop where
  | usedUp {w : World} {left right : List α} (empty : left = [] ∨ right = []) :
      Stops s lookup term items ⟨w, left, right⟩ ⟨left, right, .ok (items ++ (left ++ right))⟩ w
  | failed {w after : World} {a b : α} {left right : List α} {e : Error}
      (incomparable : Incomparable s lookup w after (term a) (term b) e) :
      Stops s lookup term items ⟨w, a :: left, b :: right⟩ ⟨a :: left, b :: right, .error e⟩ after

theorem Stops.cons {items : List α} {stage : Stage α} {m : Merge α}
    (stops : Stops s lookup term items stage m after) (a : α) :
    Stops s lookup term (a :: items) stage (m.cons a) after := by
  cases stops with
  | usedUp empty => exact .usedUp empty
  | failed incomparable => exact .failed incomparable

/-- Merging takes steps until it stops. It compares at most as often as there are items. -/
theorem exists_run_mergeUpTo (s : Settings) (lookup : Lookup) (term : α → Term) {count : Nat} (left right : List α)
    (w : World) (enough : left.length + right.length ≤ count) :
    ∃ m after items stage, mergeUpTo s lookup term count left right w = .ok m after ∧
      Run s lookup term ⟨w, left, right⟩ items stage ∧ Stops s lookup term items stage m after := by
  induction count generalizing left right w with
  | zero =>
    have empty : left = [] := List.eq_nil_of_length_eq_zero (by omega)
    exact ⟨_, w, [], _, rfl, .refl _, .usedUp (.inl empty)⟩
  | succ count ih =>
    rcases left with _ | ⟨a, left⟩
    · exact ⟨_, w, [], _, rfl, .refl _, .usedUp (.inl rfl)⟩
    rcases right with _ | ⟨b, right⟩
    · exact ⟨_, w, [], _, rfl, .refl _, .usedUp (.inr rfl)⟩
    simp only [List.length_cons] at enough
    rw [mergeUpTo]
    -- what is left is merged in the world that the comparison leaves, with one comparison less to go
    cases compared : precedes s lookup (term a) (term b) w with
    | error e after =>
      exact ⟨_, after, [], _, bind_of_ok (attempt_of_error compared), .refl _,
        .failed (incomparable_of_precedes compared)⟩
    | ok inOrder between =>
      have compares := compares_of_precedes compared
      rw [bind_of_ok (attempt_of_ok compared)]
      cases inOrder with
      | true =>
        obtain ⟨m, after, items, stage, ended, run, stops⟩ :=
          ih left (b :: right) between (by simp only [List.length_cons]; omega)
        exact ⟨m.cons a, after, a :: items, stage, bind_of_ok ended, .head (.left compares) run, stops.cons a⟩
      | false =>
        obtain ⟨m, after, items, stage, ended, run, stops⟩ :=
          ih (a :: left) right between (by simp only [List.length_cons]; omega)
        exact ⟨m.cons b, after, b :: items, stage, bind_of_ok ended, .head (.right compares) run, stops.cons b⟩

/-! ## What steps take -/

/-- A term came to a number at some time between two worlds. -/
def CameToNumber (s : Settings) (lookup : Lookup) (before after : World) (t : Term) : Prop :=
  ∃ (d : Datum) (start stop : World), before.Continues start ∧ simplify s lookup s.depth t start = .ok (.int d) stop ∧
    stop.Continues after

theorem CameToNumber.mono {before after early late : World} {t : Term}
    (number : CameToNumber s lookup before after t) (earlier : early.Continues before) (later : after.Continues late) :
    CameToNumber s lookup early late t := by
  obtain ⟨d, start, stop, started, ended, stopped⟩ := number
  exact ⟨d, start, stop, earlier.trans started, ended, stopped.trans later⟩

/-- From one stage to another, merging has taken the fronts of the two lists and nothing else. All that it has taken
came to numbers on the way. -/
structure Takes (s : Settings) (lookup : Lookup) (term : α → Term) (start : Stage α) (items : List α) (stage : Stage α)
    (fromLeft fromRight : List α) : Prop where
  left_eq : fromLeft ++ stage.left = start.left
  right_eq : fromRight ++ stage.right = start.right
  interleaves : Interleaves fromLeft fromRight items
  continues : start.world.Continues stage.world
  numbers : ∀ c ∈ fromLeft ++ fromRight, CameToNumber s lookup start.world stage.world (term c)

namespace Takes

variable {start between stage : Stage α} {items items' fromLeft fromRight fromLeft' fromRight' : List α}

theorem refl (stage : Stage α) : Takes s lookup term stage [] stage [] [] :=
  ⟨rfl, rfl, .nil, .refl _, List.forall_mem_nil _⟩

theorem trans (first : Takes s lookup term start items between fromLeft fromRight)
    (second : Takes s lookup term between items' stage fromLeft' fromRight') :
    Takes s lookup term start (items ++ items') stage (fromLeft ++ fromLeft') (fromRight ++ fromRight') where
  left_eq := by rw [List.append_assoc, second.left_eq, first.left_eq]
  right_eq := by rw [List.append_assoc, second.right_eq, first.right_eq]
  interleaves := first.interleaves.append second.interleaves
  continues := first.continues.trans second.continues
  numbers := by
    have early c member := (first.numbers c member).mono (.refl _) second.continues
    have late c member := (second.numbers c member).mono first.continues (.refl _)
    simp only [List.forall_mem_append] at early late ⊢
    exact ⟨⟨early.1, late.1⟩, early.2, late.2⟩

end Takes

/-- A step takes the first item of one of the lists. -/
theorem Step.takes {start next : Stage α} {a : α} (step : Step s lookup term start a next) :
    ∃ fromLeft fromRight, Takes s lookup term start [a] next fromLeft fromRight := by
  have simplified := Simplify.continues_simplify s lookup s.depth
  cases step with
  | left compares =>
    refine ⟨[a], [], rfl, rfl, .left .nil, compares.continues, List.forall_mem_singleton.2 ?_⟩
    obtain ⟨first, second, -⟩ := compares
    exact ⟨_, _, _, .refl _, first, (simplified _).of_ok second⟩
  | right compares =>
    refine ⟨[], [a], rfl, rfl, .right .nil, compares.continues, List.forall_mem_singleton.2 ?_⟩
    obtain ⟨first, second, -⟩ := compares
    exact ⟨_, _, _, (simplified _).of_ok first, second, .refl _⟩

theorem Run.takes {start stage : Stage α} {items : List α} (run : Run s lookup term start items stage) :
    ∃ fromLeft fromRight, Takes s lookup term start items stage fromLeft fromRight := by
  induction run with
  | refl stage => exact ⟨[], [], .refl stage⟩
  | head step rest ih =>
    obtain ⟨_, _, first⟩ := step.takes
    obtain ⟨_, _, others⟩ := ih
    exact ⟨_, _, first.trans others⟩

end Sorting

/-- Merging accounts for every item of two lists, whatever they are and whatever names stand for. What it takes it takes
from the fronts of the lists, and all of that came to numbers. If it succeeds, the merged list has each item once, those
of either list in their order, and one of the lists is used up. If it fails, something is left of both lists, and the
first items that are left are those that it failed to compare. -/
theorem merge_accounts_for_items {α : Type} (s : Settings) (lookup : Lookup) (term : α → Term) (left right : List α)
    (w : World) :
    ∃ m after last fromLeft fromRight, Sorting.merge s lookup term left right w = .ok m after ∧
      fromLeft ++ m.left = left ∧ fromRight ++ m.right = right ∧ w.Continues last ∧ last.Continues after ∧
      (∀ c ∈ fromLeft ++ fromRight, Sorting.CameToNumber s lookup w last (term c)) ∧
      (∀ merged, m.outcome = .ok merged → Interleaves left right merged ∧ (m.left = [] ∨ m.right = [])) ∧
      ∀ e, m.outcome = .error e → ∃ a b leftRest rightRest, m.left = a :: leftRest ∧ m.right = b :: rightRest ∧
        Sorting.Incomparable s lookup last after (term a) (term b) e := by
  obtain ⟨m, after, items, stage, ended, run, stops⟩ :=
    Sorting.exists_run_mergeUpTo s lookup term left right w (Nat.le_refl _)
  obtain ⟨fromLeft, fromRight, takes⟩ := run.takes
  refine ⟨m, after, stage.world, fromLeft, fromRight, ended, ?_⟩
  cases stops with
  | @usedUp last l r empty =>
    refine ⟨takes.left_eq, takes.right_eq, takes.continues, .refl _, takes.numbers, ?_, fun _ failed => ?_⟩
    · rintro _ ⟨⟩
      have all := takes.interleaves.append (.concat l r)
      rw [takes.left_eq, takes.right_eq] at all
      exact ⟨all, empty⟩
    · cases failed
  | failed incomparable =>
    refine ⟨takes.left_eq, takes.right_eq, takes.continues, incomparable.continues, takes.numbers,
      fun _ succeeded => ?_, ?_⟩
    · cases succeeded
    · rintro _ ⟨⟩
      exact ⟨_, _, _, _, rfl, rfl, incomparable⟩

/-- A text is met when one item has been taken from either list: it stays, and so does the number beside it. -/
theorem merge_accounts_for_items_of_text :
    let named : Nat × Term := (1, .name "k")
    let text : Nat × Term := (2, .string (.text "a"))
    let least : Nat × Term := (3, .int (.int 0))
    let other : Nat × Term := (4, .int (.int 5))
    let lookup : Lookup := [("k", .int (.int 1))]
    let w : World := ⟨[], .empty, #[]⟩
    Sorting.merge ⟨false, 9⟩ lookup Prod.snd [named, text] [least, other] w =
        .ok ⟨[text], [other], .error .unsortable⟩ w ∧
      ∃ last, w.Continues last ∧ last.Continues w ∧
        (∀ c ∈ [named, least], Sorting.CameToNumber ⟨false, 9⟩ lookup w last c.2) ∧
        Sorting.Incomparable ⟨false, 9⟩ lookup last w text.2 other.2 .unsortable := by
  intro named text least other lookup w
  have computed : Sorting.merge ⟨false, 9⟩ lookup Prod.snd [named, text] [least, other] w =
      .ok ⟨[text], [other], .error .unsortable⟩ w := rfl
  obtain ⟨m, after, last, fromLeft, fromRight, ended, leftEq, rightEq, early, late, numbers, -, failed⟩ :=
    merge_accounts_for_items ⟨false, 9⟩ lookup Prod.snd [named, text] [least, other] w
  rw [computed] at ended
  cases ended
  obtain rfl : fromLeft = [named] := List.append_cancel_right (leftEq : fromLeft ++ [text] = [named] ++ [text])
  obtain rfl : fromRight = [least] := List.append_cancel_right (rightEq : fromRight ++ [other] = [least] ++ [other])
  obtain ⟨_, _, _, _, ⟨⟩, ⟨⟩, incomparable⟩ := failed _ rfl
  exact ⟨computed, last, early, late, numbers, incomparable⟩

end DotLambda
