import DotLambda.Proofs.Effects
import DotLambda.Proofs.Lockstep
import DotLambda.Proofs.ParallelRules
import Mathlib.Data.List.Sort

/-!
Sorting. Items are compared by what their terms simplify to, and every comparison simplifies them anew, in a store
that has grown since the last one. Main statement: items whose terms can be simplified are put in the order of
their numbers, and those with one number stay in the order in which they came; if there are two items or more and
one has no number, sorting fails. Variables and lists are left as they were either way.
-/

namespace DotLambda

open Eval

open Simplify (Lookup)

/-! ## Evaluations with a known outcome -/

namespace Eval

/-- An evaluation that has an outcome and leaves all that there was as it was. -/
def Concludes {α : Type} (w : World) (x : Eval α) : Except Error α → Prop
  | .ok a => ∃ after, x w = .ok a after ∧ w.Grows after ∧ after.Closed
  | .error e => ∃ after, x w = .error e after ∧ w.Grows after ∧ after.Closed

namespace Concludes

variable {α β : Type} {w : World} {x : Eval α}

theorem pure {a : α} (closed : w.Closed) : Concludes w (pure a) (.ok a) := ⟨w, rfl, .refl _, closed⟩

theorem throw {e : Error} (closed : w.Closed) : Concludes w (throw e : Eval α) (.error e) :=
  ⟨w, rfl, .refl _, closed⟩

theorem after {a : α} {f : α → Eval β} {o : Except Error β} {between : World} (ended : x w = .ok a between)
    (grows : w.Grows between) (next : Concludes between (f a) o) : Concludes w (x >>= f) o := by
  cases o with
  | ok b =>
    obtain ⟨last, finished, later, closed⟩ := next
    exact ⟨last, (bind_of_ok ended).trans finished, grows.trans later, closed⟩
  | error e =>
    obtain ⟨last, finished, later, closed⟩ := next
    exact ⟨last, (bind_of_ok ended).trans finished, grows.trans later, closed⟩

theorem bind {a : α} {f : α → Eval β} {o : Except Error β} (first : Concludes w x (.ok a))
    (next : ∀ after, w.Grows after → after.Closed → Concludes after (f a) o) : Concludes w (x >>= f) o := by
  obtain ⟨between, ended, grows, closed⟩ := first
  exact .after ended grows (next between grows closed)

theorem fail {e : Error} {f : α → Eval β} (first : Concludes w x (.error e)) : Concludes w (x >>= f) (.error e) := by
  obtain ⟨after, ended, grows, closed⟩ := first
  exact ⟨after, bind_of_error ended, grows, closed⟩

end Concludes

end Eval

/-! ## Weights -/

/-- A number has its value as its weight, and what is no number has none. -/
inductive Term.Weighs : Term → Option Int → Prop where
  | number (n : Int) : Weighs (.int (.int n)) (some n)
  | other {t : Term} (different : ∀ d, t ≠ .int d) : Weighs t none

theorem Term.Weighs.alike {l : Likeness} {t t' : Term} {weight : Option Int} (weighs : t.Weighs weight)
    (alike : Alike l t t') : t'.Weighs weight := by
  cases weighs with
  | number n =>
    cases alike
    exact .number n
  | other different =>
    refine .other ?_
    rintro d rfl
    cases alike
    exact different d rfl

namespace Sorting

variable {α : Type} {s : Settings} {lookup : Lookup} {term : α → Term} {weight : α → Option Int}
  {items left right l r : List α} {w : World}

/-- What is found of the weights of two items: whether the first is not the greater. -/
def verdict : Option Int → Option Int → Except Error Bool
  | some m, some n => .ok (decide (m ≤ n))
  | _, _ => .error .unsortable

theorem holds_le (m n : Int) : Operator.le.holds (.int m) (.int n) = .ok (decide (m ≤ n)) := by
  have accepts : (compare m n != .gt) = decide (m ≤ n) := by
    by_cases le : m ≤ n
    · simpa [le] using (Int.compare_ne_gt (a := m) (b := n)).2 le
    · simpa [le] using (Int.compare_eq_gt (a := m) (b := n)).2 (Int.not_le.1 le)
  exact congrArg Except.ok accepts

/-- Items whose terms can be simplified in a world, and what they weigh there. -/
structure Weighed (s : Settings) (lookup : Lookup) (term : α → Term) (weight : α → Option Int) (w : World)
    (items : List α) : Prop where
  closed : w.Closed
  known : lookup.Within w.store.size
  within : ∀ a ∈ items, (term a).Within w.store.size
  weighs : ∀ a ∈ items, ∃ t after, simplify s lookup s.depth (term a) w = .ok t after ∧ t.Weighs (weight a)

namespace Weighed

theorem mono (weighed : Weighed s lookup term weight w items) (fewer : ∀ a ∈ left, a ∈ items) :
    Weighed s lookup term weight w left where
  closed := weighed.closed
  known := weighed.known
  within a member := weighed.within a (fewer a member)
  weighs a member := weighed.weighs a (fewer a member)

/-- When the store has grown, the terms come to what is alike, so the items weigh what they did. -/
theorem grow {after : World} (weighed : Weighed s lookup term weight w items) (grows : w.Grows after)
    (closed : after.Closed) : Weighed s lookup term weight after items where
  closed := closed
  known := grows.lookup weighed.known
  within a member := grows.within (weighed.within a member)
  weighs a member := by
    obtain ⟨t, last, ended, weighs⟩ := weighed.weighs a member
    have start : Meets lookup lookup w.store.bare.own w w :=
      { relates := weighed.closed.store.bare_coherent.grow w.store.bare_continues w.store.bare_continues
        even := rfl
        plain := fun _ none => Store.own_data_of_plain none
        lookups := fun id _ => by
          cases found : lookup.find? id with
          | some u => exact .some (weighed.known id u found).bare_owns
          | none => exact .none }
    have simplifies : Simplify.Accords lookup lookup (simplify s lookup s.depth) (simplify s lookup s.depth) :=
      (Simplify.accords_simplify_replace ⟨rfl, Nat.le_refl _⟩ (Nat.le_refl _)).1
    obtain ⟨t', last', _, ended', _, alike⟩ :=
      (simplifies (start.grow (.refl w.session) grows) (weighed.within a member).bare_owns).exists_ok ended
    exact ⟨t', last', ended', weighs.alike alike⟩

/-- Items are compared by their weights. -/
theorem concludes_precedes (weighed : Weighed s lookup term weight w items) {a b : α} (first : a ∈ items)
    (second : b ∈ items) : Concludes w (precedes s lookup (term a) (term b)) (verdict (weight a) (weight b)) := by
  have simplified {w : World} (weighed : Weighed s lookup term weight w items) {a : α} (member : a ∈ items) :
      ∃ t, t.Weighs (weight a) ∧ Concludes w (simplify s lookup s.depth (term a)) (.ok t) := by
    obtain ⟨t, after, ended, weighs⟩ := weighed.weighs a member
    obtain ⟨closed, grows, -⟩ :=
      (Simplify.frames_simplify weighed.closed weighed.known (weighed.within a member)).of_ok ended
    exact ⟨t, weighs, after, ended, grows, closed⟩
  obtain ⟨t, weighs, concludes⟩ := simplified weighed first
  refine concludes.bind fun between grows closed => ?_
  obtain ⟨u, weighs', concludes'⟩ := simplified (weighed.grow grows closed) second
  refine concludes'.bind fun after _ closed => ?_
  generalize weight a = v at weighs ⊢
  generalize weight b = v' at weighs' ⊢
  cases weighs with
  | number m =>
    cases weighs' with
    | number n =>
      simp only [holds_le]
      exact .pure closed
    | other different =>
      cases u with
      | int d => exact absurd rfl (different d)
      | bool | string | name | nameless | function | operation | conditional | chain | list | wrapped | itemless
      | unknown | datum => exact .throw closed
  | other different =>
    cases t with
    | int d => exact absurd rfl (different d)
    | bool | string | name | nameless | function | operation | conditional | chain | list | wrapped | itemless
    | unknown | datum => exact .throw closed

end Weighed

/-! ## Merging -/

/-- Items in the order of their weights, those of one weight in the order in which they were given. -/
structure Arranges (weight : α → Option Int) (items sorted : List α) : Prop where
  perm : sorted.Perm items
  ordered : sorted.Pairwise fun a b => ∀ m n, weight a = some m → weight b = some n → m ≤ n
  stable : ∀ n, sorted.filter (fun a => weight a = some n) = items.filter fun a => weight a = some n

/-- Whether an item weighs no more than another one. -/
def lighter (weight : α → Option Int) (a b : α) : Bool := decide ((weight a).getD 0 ≤ (weight b).getD 0)

theorem Arranges.self (few : items.length ≤ 1) : Arranges weight items items := by
  refine ⟨.refl _, ?_, fun _ => rfl⟩
  rcases items with _ | ⟨a, _ | ⟨b, rest⟩⟩
  · exact .nil
  · exact List.pairwise_singleton _ _
  · simp at few

/-- Of the items with one weight those on the left come first: they are in order, so that an item is taken from the
right only where all that are left on the left weigh more. -/
theorem filter_merge (ordered : l.Pairwise fun a b => lighter weight a b = true) (n : Int) :
    (l.merge r (lighter weight)).filter (fun a => weight a = some n) =
      l.filter (fun a => weight a = some n) ++ r.filter fun a => weight a = some n := by
  induction l generalizing r with
  | nil => simp
  | cons a l ihl =>
    induction r with
    | nil => simp
    | cons b r ihr =>
      rw [List.cons_merge_cons]
      cases light : lighter weight a b with
      | true =>
        rw [if_pos rfl, List.filter_cons, List.filter_cons, ihl ordered.tail]
        split <;> rfl
      | false =>
        rw [if_neg (by simp), List.filter_cons, ihr]
        by_cases weighs : weight b = some n
        · have heavier : (a :: l).filter (fun c => weight c = some n) = [] := by
            rw [List.filter_eq_nil_iff]
            intro c member same
            simp only [decide_eq_true_eq] at same
            have least : (weight a).getD 0 ≤ (weight c).getD 0 := by
              rcases List.mem_cons.1 member with rfl | later
              · exact Int.le_refl _
              · simpa [lighter] using List.rel_of_pairwise_cons ordered later
            simp only [lighter, decide_eq_false_iff_not] at light
            rw [same] at least
            rw [weighs] at light
            exact light least
          simp only [heavier, List.filter_cons, weighs, decide_true, if_true, List.nil_append]
        · simp only [List.filter_cons, weighs, decide_false, Bool.false_eq_true, if_false]

/-- To merge what has been put in order puts all in order, where all items have weights. -/
theorem Arranges.merge (first : Arranges weight left l) (second : Arranges weight right r)
    (numbers : ∀ a ∈ left ++ right, weight a ≠ none) :
    Arranges weight (left ++ right) (l.merge r (lighter weight)) := by
  have light {items sorted : List α} (arranges : Arranges weight items sorted)
      (numbers : ∀ a ∈ items, weight a ≠ none) : sorted.Pairwise fun a b => lighter weight a b = true := by
    refine arranges.ordered.imp_of_mem fun {a b} here there le => ?_
    obtain ⟨m, weighs⟩ := Option.ne_none_iff_exists'.1 (numbers a (arranges.perm.mem_iff.1 here))
    obtain ⟨n, weighs'⟩ := Option.ne_none_iff_exists'.1 (numbers b (arranges.perm.mem_iff.1 there))
    simpa [lighter, weighs, weighs'] using le m n weighs weighs'
  rw [List.forall_mem_append] at numbers
  have lightLeft := light first numbers.1
  refine ⟨(List.merge_perm_append _).trans (first.perm.append second.perm), ?_, fun n => ?_⟩
  · have trans (a b c : α) : lighter weight a b = true → lighter weight b c = true → lighter weight a c = true := by
      simp only [lighter, decide_eq_true_eq]
      exact Int.le_trans
    have total (a b : α) : (lighter weight a b || lighter weight b a) = true := by
      simp only [lighter, Bool.or_eq_true, decide_eq_true_eq]
      exact Int.le_total _ _
    have sorted := List.pairwise_merge trans total l r lightLeft (light second numbers.2)
    refine sorted.imp fun {a b} le m n weighs weighs' => ?_
    simpa [lighter, weighs, weighs'] using le
  · rw [filter_merge lightLeft, first.stable, second.stable, List.filter_append]

/-- Items that all have weights are merged. -/
theorem Weighed.concludes_joinUpTo {count : Nat} (weighed : Weighed s lookup term weight w (l ++ r))
    (numbers : ∀ a ∈ l ++ r, weight a ≠ none) (enough : l.length + r.length ≤ count) :
    Concludes w (joinUpTo s lookup term count l r) (.ok (l.merge r (lighter weight))) := by
  induction count generalizing w l r with
  | zero =>
    obtain rfl : l = [] := List.eq_nil_of_length_eq_zero (by omega)
    rw [List.nil_merge]
    exact .pure weighed.closed
  | succ count ih =>
    rcases l with _ | ⟨a, l⟩
    · rw [List.nil_merge]
      exact .pure weighed.closed
    rcases r with _ | ⟨b, r⟩
    · have same : joinUpTo s lookup term (count + 1) (a :: l) [] = pure (a :: l ++ []) := rfl
      rw [List.merge_right, same, List.append_nil]
      exact .pure weighed.closed
    have first : a ∈ a :: l ++ b :: r := List.mem_append_left _ List.mem_cons_self
    have second : b ∈ a :: l ++ b :: r := List.mem_append_right _ List.mem_cons_self
    have fromLeft : ∀ c ∈ l ++ b :: r, c ∈ a :: l ++ b :: r := fun c member => List.mem_cons_of_mem a member
    have fromRight : ∀ c ∈ a :: l ++ r, c ∈ a :: l ++ b :: r := fun c member =>
      List.mem_append.2 ((List.mem_append.1 member).imp_right (List.mem_cons_of_mem b))
    obtain ⟨m, weighs⟩ := Option.ne_none_iff_exists'.1 (numbers a first)
    obtain ⟨n, weighs'⟩ := Option.ne_none_iff_exists'.1 (numbers b second)
    have compared := weighed.concludes_precedes first second
    rw [weighs, weighs', verdict] at compared
    have light : lighter weight a b = decide (m ≤ n) := by rw [lighter, weighs, weighs']; rfl
    rw [List.cons_merge_cons, light, joinUpTo]
    refine compared.bind fun between grows closed => ?_
    have weighed := weighed.grow grows closed
    cases decide (m ≤ n) with
    | true =>
      have others := ih (weighed.mono fromLeft) (fun c member => numbers c (fromLeft c member))
        (by simp only [List.length_cons] at enough ⊢; omega)
      exact others.bind fun _ _ closed => .pure closed
    | false =>
      have others := ih (weighed.mono fromRight) (fun c member => numbers c (fromRight c member))
        (by simp only [List.length_cons] at enough ⊢; omega)
      exact others.bind fun _ _ closed => .pure closed

/-- The first comparison fails if one of the items has no weight. -/
theorem Weighed.concludes_joinUpTo_of_none {count : Nat} {a b : α}
    (weighed : Weighed s lookup term weight w (a :: l ++ b :: r)) (unfit : weight a = none ∨ weight b = none) :
    Concludes w (joinUpTo s lookup term (count + 1) (a :: l) (b :: r)) (.error .unsortable) := by
  have compared := weighed.concludes_precedes (List.mem_append_left _ List.mem_cons_self)
    (List.mem_append_right _ List.mem_cons_self)
  have failed : verdict (weight a) (weight b) = .error .unsortable := by
    rcases unfit with none | none
    · rw [none]
      rfl
    · rw [none]
      cases weight a <;> rfl
  rw [failed] at compared
  exact compared.fail

/-! ## Sorting -/

/-- What comes of sorting items: all of them in order, if each has a weight or there is only one, or else a
failure. -/
inductive Outcome (weight : α → Option Int) (items : List α) : Except Error (List α) → Prop where
  | arranged {sorted : List α} (fit : items.length ≤ 1 ∨ ∀ a ∈ items, weight a ≠ none)
      (arranges : Arranges weight items sorted) : Outcome weight items (.ok sorted)
  | unfit (several : 2 ≤ items.length) {a : α} (member : a ∈ items) (unfit : weight a = none) :
      Outcome weight items (.error .unsortable)

/-- A half that is in order although an item in it has no weight holds nothing else. -/
theorem Arranges.eq_singleton {a : α} (arranges : Arranges weight items l) (member : a ∈ items)
    (unfit : weight a = none) (fit : items.length ≤ 1 ∨ ∀ a ∈ items, weight a ≠ none) : l = [a] := by
  rcases fit with few | all
  · rcases items with _ | ⟨b, _ | ⟨c, rest⟩⟩
    · cases member
    · cases List.mem_singleton.1 member
      exact List.perm_singleton.1 arranges.perm
    · simp at few
  · exact absurd unfit (all a member)

/-- To merge two halves that have been sorted is to sort the whole. If an item has no weight, it is alone in its
half, and so the first that is compared. -/
theorem Weighed.concludes_join (weighed : Weighed s lookup term weight w (left ++ right)) (here : 0 < left.length)
    (there : 0 < right.length) (first : Outcome weight left (.ok l)) (second : Outcome weight right (.ok r)) :
    ∃ o, Concludes w (joinUpTo s lookup term (l.length + r.length) l r) o ∧ Outcome weight (left ++ right) o := by
  obtain ⟨fitLeft, first⟩ := first
  obtain ⟨fitRight, second⟩ := second
  have weighed : Weighed s lookup term weight w (l ++ r) :=
    weighed.mono fun a => (first.perm.append second.perm).mem_iff.1
  by_cases all : ∀ a ∈ left ++ right, weight a ≠ none
  · have numbers : ∀ a ∈ l ++ r, weight a ≠ none := fun a member =>
      all a ((first.perm.append second.perm).mem_iff.1 member)
    exact ⟨_, weighed.concludes_joinUpTo numbers (Nat.le_refl _), .arranged (.inr all) (first.merge second all)⟩
  · obtain ⟨a, member, unfit⟩ : ∃ a ∈ left ++ right, weight a = none := by
      simpa using all
    have several : 2 ≤ (left ++ right).length := by
      rw [List.length_append]
      omega
    refine ⟨_, ?_, .unfit several member unfit⟩
    rw [← first.perm.length_eq] at here
    rw [← second.perm.length_eq] at there
    obtain ⟨x, l', rfl⟩ := List.exists_cons_of_length_pos here
    obtain ⟨y, r', rfl⟩ := List.exists_cons_of_length_pos there
    refine weighed.concludes_joinUpTo_of_none ?_
    rcases List.mem_append.1 member with member | member
    · have alone := first.eq_singleton member unfit fitLeft
      rw [List.cons.injEq] at alone
      exact .inl (alone.1 ▸ unfit)
    · have alone := second.eq_singleton member unfit fitRight
      rw [List.cons.injEq] at alone
      exact .inr (alone.1 ▸ unfit)

theorem Weighed.concludes_sortUpTo {depth : Nat} (weighed : Weighed s lookup term weight w items)
    (enough : items.length ≤ depth) :
    ∃ o, Concludes w (sortUpTo s lookup term depth items) o ∧ Outcome weight items o := by
  induction depth generalizing w items with
  | zero => exact ⟨_, .pure weighed.closed, .arranged (.inl (by omega)) (.self (by omega))⟩
  | succ depth ih =>
    unfold sortUpTo
    split
    · rename_i few
      exact ⟨_, .pure weighed.closed, .arranged (.inl few) (.self few)⟩
    · rename_i many
      have halves := List.take_append_drop (items.length / 2) items
      have lengthLeft : (items.take (items.length / 2)).length = items.length / 2 := by
        rw [List.length_take]
        omega
      have lengthRight : (items.drop (items.length / 2)).length = items.length - items.length / 2 :=
        List.length_drop
      have weighedLeft : Weighed s lookup term weight w (items.take (items.length / 2)) :=
        weighed.mono fun a => List.mem_of_mem_take
      obtain ⟨first, sortsLeft, left⟩ := ih weighedLeft (by omega)
      cases first with
      | error e =>
        cases left with
        | unfit _ member unfit => exact ⟨_, sortsLeft.fail, .unfit (by omega) (List.mem_of_mem_take member) unfit⟩
      | ok l =>
        obtain ⟨between, ended, grows, closed⟩ := sortsLeft
        -- the right half is sorted in a store that has grown, and the halves are merged in one that has grown more
        have weighed := weighed.grow grows closed
        have weighedRight : Weighed s lookup term weight between (items.drop (items.length / 2)) :=
          weighed.mono fun a => List.mem_of_mem_drop
        obtain ⟨second, sortsRight, right⟩ := ih weighedRight (by omega)
        cases second with
        | error e =>
          cases right with
          | unfit _ member unfit =>
            exact ⟨_, .after ended grows sortsRight.fail, .unfit (by omega) (List.mem_of_mem_drop member) unfit⟩
        | ok r =>
          obtain ⟨after, ended', grows', closed'⟩ := sortsRight
          have weighed := weighed.grow grows' closed'
          rw [← halves] at weighed
          obtain ⟨o, joins, whole⟩ := weighed.concludes_join (by omega) (by omega) left right
          rw [halves] at whole
          refine ⟨o, .after ended grows (.after ended' grows' ?_), whole⟩
          rwa [merge, outcome_mergeUpTo]

end Sorting

/-- Items whose terms can be simplified are sorted by their numbers: the same items, in the order of their numbers, and
those with one number in the order in which they were given. If there are two or more and one has no number, sorting
fails, whichever it is. Either way variables and lists are as they were. -/
theorem sort_arranges_or_fails {α : Type} {s : Settings} {lookup : Lookup} {term : α → Term} {weight : α → Option Int}
    {items : List α} {w : World} (weighed : Sorting.Weighed s lookup term weight w items) :
    (2 ≤ items.length ∧ (∃ a ∈ items, weight a = none) →
      ∃ after, Sorting.sort s lookup term items w = .error .unsortable after ∧ w.Grows after ∧
        Error.unsortable.message = "Sorting is only supported for integer lists") ∧
      (¬ (2 ≤ items.length ∧ ∃ a ∈ items, weight a = none) →
        ∃ sorted after, Sorting.sort s lookup term items w = .ok sorted after ∧ w.Grows after ∧
          Sorting.Arranges weight items sorted) := by
  obtain ⟨o, concludes, outcome⟩ := weighed.concludes_sortUpTo (Nat.le_refl _)
  cases outcome with
  | @arranged sorted fit arranges =>
    obtain ⟨after, ended, grows, -⟩ := concludes
    refine ⟨?_, fun _ => ⟨sorted, after, ended, grows, arranges⟩⟩
    rintro ⟨several, a, member, unfit⟩
    rcases fit with few | all
    · omega
    · exact absurd unfit (all a member)
  | unfit several member unfit =>
    obtain ⟨after, ended, grows, -⟩ := concludes
    exact ⟨fun _ => ⟨after, ended, grows, rfl⟩, fun fit => absurd ⟨several, _, member, unfit⟩ fit⟩

/-- A bound name, a sum and a number, of which two have one number, and then a text besides. -/
theorem sort_arranges_or_fails_of_sum :
    let sums : List (Term × Option Int) :=
      [(.name "k", some 5), (.operation (.int (.int 2)) .add (.int (.int 1)), some 3), (.int (.int 3), some 3)]
    let mixed := sums ++ [(.string (.text "a"), none)]
    let w : World := ⟨[], .empty, #[]⟩
    Sorting.Weighed ⟨false, 9⟩ [("k", .int (.int 5))] Prod.fst Prod.snd w mixed ∧
      (∃ sorted after, Sorting.sort ⟨false, 9⟩ [("k", .int (.int 5))] Prod.fst sums w = .ok sorted after ∧
        w.Grows after ∧ Sorting.Arranges Prod.snd sums sorted) ∧
      ∃ after, Sorting.sort ⟨false, 9⟩ [("k", .int (.int 5))] Prod.fst mixed w = .error .unsortable after ∧
        w.Grows after := by
  intro sums mixed w
  have plain : ∀ a ∈ mixed, ∀ size, a.1.Within size := by simp [mixed, sums, Datum.references, Operator.sign]
  have weighs : ∀ a ∈ mixed, ∃ t after,
      simplify ⟨false, 9⟩ [("k", .int (.int 5))] 9 a.1 w = .ok t after ∧ t.Weighs a.2 := by
    simp only [mixed, sums, List.cons_append, List.nil_append, List.forall_mem_cons]
    exact ⟨⟨_, _, rfl, .number 5⟩, ⟨_, _, rfl, .number 3⟩, ⟨_, _, rfl, .number 3⟩, ⟨_, _, rfl, .other (by simp)⟩,
      List.forall_mem_nil _⟩
  have known : Bindings.Within w.store.size [("k", .int (.int 5))] := by
    intro id t found
    simp only [Bindings.find?, List.lookup_cons, List.lookup_nil] at found
    split at found
    · cases found
      exact ⟨List.forall_mem_nil _, rfl⟩
    · cases found
  have weighed : Sorting.Weighed ⟨false, 9⟩ [("k", .int (.int 5))] Prod.fst Prod.snd w mixed :=
    ⟨⟨fun cell t member => (by cases cell <;> cases member), fun _ _ found => (by cases found)⟩, known,
      fun a member => plain a member _, weighs⟩
  have fewer : ∀ a ∈ sums, a ∈ mixed := fun a => List.mem_append_left _
  refine ⟨weighed, (sort_arranges_or_fails (weighed.mono fewer)).2 ?_, ?_⟩
  · rintro ⟨-, a, member, unfit⟩
    simp only [sums, List.mem_cons, List.not_mem_nil, or_false] at member
    obtain rfl | rfl | rfl := member <;> cases unfit
  · obtain ⟨after, ended, grows, -⟩ := (sort_arranges_or_fails weighed).1
      ⟨by decide, _, List.mem_append_right _ (List.mem_singleton_self _), rfl⟩
    exact ⟨after, ended, grows⟩

end DotLambda
