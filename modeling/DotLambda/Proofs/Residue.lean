import DotLambda.Proofs.Idempotence

/-!
What simplification leaves behind. Two of its steps look a name up again in what has been simplified already: an
item of a chain may name a function, and an operand may be a name that is bound. Main statement: wherever
simplification comes to a result, no operation, no bound name, no chain of one item and no decided conditional is
left in it outside the clauses of conditionals, and so neither of the two steps is ever taken: whatever else were
done in their place, simplification would run as it does.
-/

namespace DotLambda

namespace Simplify

open Eval

/-! ## What is left -/

/-- A term on which simplification has nothing left to do, its parts apart. -/
def Finished (lookup : Lookup) : Term → Prop
  | .operation _ _ _ => False
  | .name id => id ≠ "true" ∧ id ≠ "false" ∧ lookup.find? id = none
  | .chain items => items.length ≠ 1
  | .conditional condition _ _ => ∀ d, condition ≠ .bool d
  | _ => True

variable {lookup : Lookup} {store : Store} {height : Nat} {t u : Term}

theorem Normal.finished (normal : Normal lookup store height t) : Finished lookup t := by
  cases height with
  | zero => exact normal.elim
  | succ height =>
    cases t with
    | name => exact normal
    | chain => exact normal.1
    | conditional => exact normal.2
    | operation => exact normal.elim
    | int | bool | string | nameless | function | list | wrapped | itemless | unknown | datum => trivial

theorem Normal.parts (normal : Normal lookup store (height + 1) t) :
    ∀ u ∈ store.activeParts t, Normal lookup store height u := by
  intro u member
  cases t with
  | function parameter body =>
    cases List.mem_singleton.1 member
    exact normal.2
  | conditional condition yes no =>
    cases List.mem_singleton.1 member
    exact normal.1
  | chain | list => exact normal.2 u member
  | operation | wrapped => exact normal.elim
  | int | bool | string | name | nameless | itemless | unknown | datum => cases member

theorem Normal.active (active : store.Active t u) (normal : Normal lookup store height t) :
    ∃ less, Normal lookup store less u := by
  induction active generalizing height with
  | self => exact ⟨height, normal⟩
  | part member _ ih =>
    cases height with
    | zero => exact normal.elim
    | succ height => exact ih (normal.parts _ member)

/-! ## Simplification with other steps in place of two -/

/-- What may be done in place of two steps of simplification: to apply the function that an item of a chain
names to the argument after it, and to simplify a name that is bound, where an operand has been simplified to it. -/
structure Detour where
  apply : (id : String) → (argument : Term) → Eval Term
  operand : (id : String) → Eval Term

namespace Detour

/-- Applies the first term of a chain to the next one and so on, with a detour where it is a name. -/
def contract (detour : Detour) (lookup : Lookup) (apply : Datum → Term → Term → Eval Term) :
    Term → List Term → Eval (List Term)
  | first, [] => pure [first]
  | first, next :: rest =>
    match first, functionOf? lookup first, next.isArgument with
    | .name id, some _, true => do
      let result ← detour.apply id next
      contract detour lookup apply result rest
    | _, some (parameter, body), true => do
      let result ← apply parameter next body
      contract detour lookup apply result rest
    | _, _, _ => do
      let others ← contract detour lookup apply next rest
      pure (first :: others)

def contractAll (detour : Detour) (lookup : Lookup) (apply : Datum → Term → Term → Eval Term) :
    List Term → Eval (List Term)
  | [] => pure []
  | first :: rest => detour.contract lookup apply first rest

/-- A name that is bound is left to the detour. -/
def resolve (detour : Detour) (lookup : Lookup) : Term → Eval Term
  | .name id =>
    match lookup.find? id with
    | some _ => detour.operand id
    | none => pure (.name id)
  | t => pure t

/-- Simplifies a term with a detour. -/
def simplified (detour : Detour) (s : Settings) (lookup : Lookup) (simplify : Term → Eval Term)
    (replace : Datum → Term → Term → Eval Term) : Term → Eval Term
  | .operation lhs op rhs => do
    let l ← simplify lhs
    let r ← simplify rhs
    let l ← detour.resolve lookup l
    let r ← detour.resolve lookup r
    compute s op l r
  | .chain items => do
    let items ← items.mapM simplify
    let items ← detour.contractAll lookup replace items
    match items with
    | [t] => simplify t
    | items => Eval.make s (.chain items)
  | t => Simplify.simplified s lookup simplify replace t

mutual

/-- Simplifies a term, with a detour wherever one may be made. -/
def simplify (detour : Detour) (s : Settings) (lookup : Lookup) : (depth : Nat) → Term → Eval Term
  | 0, _ => throw .endless
  | _ + 1, .datum d => throw (.noPart d.typeName "simplify")
  | depth + 1, t => do
    Eval.trace s .yellow fun store => do
      let shown ← t.dumped store s.depth
      pure ("Simplifying " ++ shown)
    let result ← detour.simplified s lookup (simplify detour s lookup depth) (replace detour s lookup depth) t
    Eval.trace s .yellow fun store => do
      let before ← t.dumped store s.depth
      let after ← result.dumped store s.depth
      pure ("Simplified " ++ before ++ " to " ++ after)
    pure result

/-- Replaces a name by a term in another term, with a detour wherever one may be made. -/
def replace (detour : Detour) (s : Settings) (lookup : Lookup) :
    (depth : Nat) → (x : Datum) → (value : Term) → Term → Eval Term
  | 0, _, _, _ => throw .endless
  | _ + 1, x, value, .datum d => throw (replacementFailure x value d)
  | depth + 1, x, value, t => do
    let result ←
      replaced s (simplify detour s lookup depth) x value (replace detour s lookup depth x value) t
    traceReplacement s x value t result
    pure result

end

end Detour

/-! ## No detour is ever made -/

variable {w : World} {s : Settings} {depth : Nat} {f f' : Term → Eval Term} {x : Datum} {value : Term}
  {g g' : Datum → Term → Term → Eval Term} {detour : Detour}

/-- Two ways to evaluate terms of a store that come to the same where something is ready for them. -/
def Agree (ready : Store → Prop) (f' f : Term → Eval Term) : Prop :=
  ∀ {w : World} {t : Term}, w.store.Coherent → ready w.store → w.store.Owns t → f' t w = f t w

/-- What names stand for and a term to put in place of one are there. -/
def OwnedGiven (lookup : Lookup) (value : Term) (store : Store) : Prop := Owned lookup store ∧ store.Owns value

theorem OwnedGiven.grow {after : Store} (ready : OwnedGiven lookup value store) (grown : store.Continues after) :
    OwnedGiven lookup value after :=
  ⟨ready.1.grow grown, ready.2.mono grown.own_le⟩

/-- Evaluations that start with the same come to the same if they go on alike from what the start can give. -/
theorem bind_congr {α β : Type} {y y' : Eval α} {h h' : α → Eval β} {good : Store → α → Prop}
    (first : Yields w y good) (same : y' w = y w)
    (next : ∀ a after, w.store.Continues after.store → after.store.Coherent → good after.store a →
      h' a after = h a after) : (y' >>= h') w = (y >>= h) w := by
  cases started : y w with
  | ok a after =>
    obtain ⟨grown, coherent, fine⟩ := first a after started
    rw [bind_of_ok started, bind_of_ok (same.trans started)]
    exact next a after grown coherent fine
  | error e after => rw [bind_of_error started, bind_of_error (same.trans started)]

theorem get_congr {β : Type} {h h' : World → Eval β} (same : h' w w = h w w) :
    (get >>= h') w = (get >>= h) w := same

theorem mapM_congr {ready : Store → Prop} {good : World → Term → Store → Term → Prop} {items : List Term}
    (grow : ∀ {before after : Store}, ready before → before.Continues after → ready after)
    (yields : ∀ {w : World} {t : Term}, w.store.Coherent → ready w.store → w.store.Owns t →
      Yields w (f t) (good w t))
    (same : Agree ready f' f) (coherent : w.store.Coherent) (known : ready w.store)
    (each : ∀ t ∈ items, w.store.Owns t) : items.mapM f' w = items.mapM f w := by
  induction items generalizing w with
  | nil => rfl
  | cons t rest ih =>
    rw [List.forall_mem_cons] at each
    rw [List.mapM_cons, List.mapM_cons]
    refine bind_congr (yields coherent known each.1) (same coherent known each.1) fun r between grown coherent _ => ?_
    have others := ih coherent (grow known grown) fun u member => (each.2 u member).mono grown.own_le
    cases ended : rest.mapM f between with
    | ok out after => rw [bind_of_ok ended, bind_of_ok (others.trans ended)]
    | error e after => rw [bind_of_error ended, bind_of_error (others.trans ended)]

/-- An item in normal form is no name that is bound, so there is no detour for it. -/
theorem Detour.contract_cons {first next : Term} {rest : List Term} (normal : Normal lookup store height first) :
    detour.contract lookup g first (next :: rest) =
      (match functionOf? lookup first, next.isArgument with
      | some (parameter, body), true => do
        let result ← g parameter next body
        detour.contract lookup g result rest
      | _, _ => do
        let others ← detour.contract lookup g next rest
        pure (first :: others)) := by
  cases first with
  | name id =>
    have unbound := normal.finished.2.2
    simp only [Detour.contract, functionOf?, unbound]
  | function parameter body =>
    cases argument : next.isArgument with
    | true => simp only [Detour.contract, functionOf?, argument]
    | false => simp only [Detour.contract, functionOf?, argument]
  | int | bool | string | nameless | operation | conditional | chain | list | wrapped | itemless | unknown
  | datum => simp only [Detour.contract, functionOf?]

theorem Detour.contract_eq
    (replace : ∀ x value, value.isArgument = true → KeepsNormal lookup depth value (g x value))
    (same : ∀ x value, value.isArgument = true → Agree (OwnedGiven lookup value) (g' x value) (g x value))
    {rest : List Term} {first : Term} (coherent : w.store.Coherent) (known : Owned lookup w.store)
    (here : Settled lookup w.store depth first) (others : ∀ t ∈ rest, Settled lookup w.store depth t) :
    detour.contract lookup g' first rest w = Simplify.contract lookup g first rest w := by
  induction rest generalizing w first with
  | nil => rfl
  | cons next rest ih =>
    rw [List.forall_mem_cons] at others
    rw [Detour.contract_cons here.normal, Simplify.contract]
    have kept : (do let out ← detour.contract lookup g' next rest; pure (first :: out)) w =
        (do let out ← Simplify.contract lookup g next rest; pure (first :: out)) w :=
      bind_congr (yields_contract replace coherent known others.1 others.2) (ih coherent known others.1 others.2)
        fun _ _ _ _ _ => rfl
    cases found : functionOf? lookup first with
    | none => exact kept
    | some function =>
      cases argument : next.isArgument with
      | false => exact kept
      | true =>
        have inner := here.body found
        refine bind_congr (replace function.1 next argument coherent known others.1.owned inner.owned)
          (same function.1 next argument coherent ⟨known, others.1.owned⟩ inner.owned) ?_
        rintro result after grown coherent ⟨owned, normal⟩
        refine ih coherent (known.grow grown) ⟨owned, normal inner.normal⟩ fun t member => ?_
        exact (others.2 t member).mono (Nat.le_refl _) grown

theorem Detour.contractAll_eq
    (replace : ∀ x value, value.isArgument = true → KeepsNormal lookup depth value (g x value))
    (same : ∀ x value, value.isArgument = true → Agree (OwnedGiven lookup value) (g' x value) (g x value))
    {items : List Term} (coherent : w.store.Coherent) (known : Owned lookup w.store)
    (each : ∀ t ∈ items, Settled lookup w.store depth t) :
    detour.contractAll lookup g' items w = Simplify.contractAll lookup g items w := by
  cases items with
  | nil => rfl
  | cons first rest =>
    rw [List.forall_mem_cons] at each
    exact Detour.contract_eq replace same coherent known each.1 each.2

/-- An operand in normal form is taken as it is, with and without a detour. -/
theorem resolve_of_normal (normal : Normal lookup store height t) : Simplify.resolve lookup f t = pure t := by
  cases t with
  | name id =>
    have unbound := normal.finished.2.2
    simp only [Simplify.resolve, unbound]
  | int | bool | string | nameless | function | operation | conditional | chain | list | wrapped | itemless
  | unknown | datum => rfl

theorem Detour.resolve_of_normal (normal : Normal lookup store height t) : detour.resolve lookup t = pure t := by
  cases t with
  | name id =>
    have unbound := normal.finished.2.2
    simp only [Detour.resolve, unbound]
  | int | bool | string | nameless | function | operation | conditional | chain | list | wrapped | itemless
  | unknown | datum => rfl

theorem Detour.agree_simplified (simplify : Normalizes lookup depth f)
    (replace : ∀ x value, value.isArgument = true → KeepsNormal lookup depth value (g x value))
    (same : Agree (Owned lookup) f' f)
    (same' : ∀ x value, value.isArgument = true → Agree (OwnedGiven lookup value) (g' x value) (g x value)) :
    Agree (Owned lookup) (detour.simplified s lookup f' g') (Simplify.simplified s lookup f g) := by
  intro w t coherent known owned
  cases t with
  | int | bool | string | nameless | itemless | unknown | datum => rfl
  | name id =>
    simp only [Detour.simplified, Simplify.simplified]
    cases bound : lookup.find? id with
    | some value =>
      split
      · rfl
      · split
        · rfl
        · exact same coherent known (known id value bound)
    | none => rfl
  | function parameter body =>
    have inner : w.store.Owns body := by
      cases owned with
      | function _ inner => exact inner
    refine bind_congr (Yields.look coherent) rfl fun x between grown coherent _ => ?_
    have known := known.grow grown
    have inner := inner.mono grown.own_le
    exact bind_congr (simplify coherent known inner) (same coherent known inner) fun _ _ _ _ _ => rfl
  | operation lhs op rhs =>
    obtain ⟨left, right⟩ : w.store.Owns lhs ∧ w.store.Owns rhs := by
      cases owned with
      | operation left _ right => exact ⟨left, right⟩
    refine bind_congr (simplify coherent known left) (same coherent known left)
      fun l first grown coherent settled => ?_
    have known := known.grow grown
    have right := right.mono grown.own_le
    refine bind_congr (simplify coherent known right) (same coherent known right)
      fun r second _ _ settled' => ?_
    rw [Detour.resolve_of_normal settled.normal, Detour.resolve_of_normal settled'.normal,
      Simplify.resolve_of_normal settled.normal, Simplify.resolve_of_normal settled'.normal]
  | conditional condition yes no =>
    obtain ⟨decides, first, second⟩ : w.store.Owns condition ∧ w.store.Owns yes ∧ w.store.Owns no := by
      cases owned with
      | conditional decides first second => exact ⟨decides, first, second⟩
    refine bind_congr (simplify coherent known decides) (same coherent known decides)
      fun c after grown coherent _ => ?_
    have known := known.grow grown
    cases c with
    | bool value =>
      cases truth : value.truth with
      | true =>
        simp only [truth, if_pos]
        exact same coherent known (first.mono grown.own_le)
      | false =>
        simp only [truth, Bool.false_eq_true, if_false]
        exact same coherent known (second.mono grown.own_le)
    | int | string | name | nameless | function | operation | conditional | chain | list | wrapped | itemless
    | unknown | datum => rfl
  | chain items =>
    have each := Store.Owns.items owned
    refine bind_congr (yields_items simplify coherent known each)
      (mapM_congr Owned.grow simplify same coherent known each) fun out between grown coherent settled => ?_
    have known := known.grow grown
    refine bind_congr (yields_contractAll replace coherent known settled)
      (Detour.contractAll_eq replace same' coherent known settled) fun out after grown coherent settled => ?_
    have known := known.grow grown
    rcases out with _ | ⟨only, _ | ⟨next, rest⟩⟩
    · rfl
    · exact same coherent known (settled only (List.mem_singleton_self only)).owned
    · rfl
  | list cell =>
    have old : cell < w.store.size := by
      cases owned with
      | list paired => exact paired.2
    have each := coherent.owns_items old
    refine get_congr ?_
    exact bind_congr (yields_items simplify coherent known each)
      (mapM_congr Owned.grow simplify same coherent known each) fun _ _ _ _ _ => rfl
  | wrapped inner =>
    have inside : w.store.Owns inner := by
      cases owned with
      | wrapped inside => exact inside
    exact bind_congr (simplify coherent known inside) (same coherent known inside) fun _ _ _ _ _ => rfl

theorem agree_replaced {g g' : Term → Eval Term} (simplify : Normalizes lookup depth f)
    (replace : KeepsNormal lookup depth value g) (same : Agree (Owned lookup) f' f)
    (same' : Agree (OwnedGiven lookup value) g' g) :
    Agree (OwnedGiven lookup value) (replaced s f' x value g') (replaced s f x value g) := by
  intro w t coherent ready owned
  obtain ⟨known, given⟩ := ready
  have row {items : List Term} (each : ∀ t ∈ items, w.store.Owns t) : items.mapM g' w = items.mapM g w :=
    mapM_congr OwnedGiven.grow (fun coherent ready owned => replace coherent ready.1 ready.2 owned) same' coherent
      ⟨known, given⟩ each
  cases t with
  | int | bool | string | name | nameless | wrapped | itemless | unknown | datum => rfl
  | function parameter body =>
    have inner : w.store.Owns body := by
      cases owned with
      | function _ inner => exact inner
    refine bind_congr (Yields.look coherent) rfl fun y between grown coherent _ => ?_
    have ready := OwnedGiven.grow ⟨known, given⟩ grown
    have inner := inner.mono grown.own_le
    exact bind_congr (replace coherent ready.1 ready.2 inner) (same' coherent ready inner) fun _ _ _ _ _ => rfl
  | operation lhs op rhs =>
    obtain ⟨left, right⟩ : w.store.Owns lhs ∧ w.store.Owns rhs := by
      cases owned with
      | operation left _ right => exact ⟨left, right⟩
    refine bind_congr (replace coherent known given left) (same' coherent ⟨known, given⟩ left)
      fun l between grown coherent _ => ?_
    have ready := OwnedGiven.grow ⟨known, given⟩ grown
    have right := right.mono grown.own_le
    exact bind_congr (replace coherent ready.1 ready.2 right) (same' coherent ready right) fun _ _ _ _ _ => rfl
  | conditional condition yes no =>
    obtain ⟨decides, first, second⟩ : w.store.Owns condition ∧ w.store.Owns yes ∧ w.store.Owns no := by
      cases owned with
      | conditional decides first second => exact ⟨decides, first, second⟩
    refine bind_congr (replace coherent known given decides) (same' coherent ⟨known, given⟩ decides) ?_
    rintro c one grown coherent ⟨ownedCondition, -⟩
    have ready := OwnedGiven.grow ⟨known, given⟩ grown
    refine bind_congr (simplify coherent ready.1 ownedCondition) (same coherent ready.1 ownedCondition)
      fun c two later coherent _ => ?_
    have ready := ready.grow later
    have wider := (grown.trans later).own_le
    have chosen {clause : Term} (owned : w.store.Owns clause) :
        (do let t ← g' clause; f' t) two = (do let t ← g clause; f t) two := by
      have owned := owned.mono wider
      refine bind_congr (replace coherent ready.1 ready.2 owned) (same' coherent ready owned) ?_
      rintro t three grown coherent ⟨owned, -⟩
      exact same coherent (ready.1.grow grown) owned
    have undecided : (do let y ← g' yes; let n ← g' no; Eval.make s (.conditional c y n)) two =
        (do let y ← g yes; let n ← g no; Eval.make s (.conditional c y n)) two := by
      have first := first.mono wider
      refine bind_congr (replace coherent ready.1 ready.2 first) (same' coherent ready first)
        fun y three grown coherent _ => ?_
      have ready := ready.grow grown
      have second := (second.mono wider).mono grown.own_le
      exact bind_congr (replace coherent ready.1 ready.2 second) (same' coherent ready second) fun _ _ _ _ _ => rfl
    cases c with
    | bool v =>
      cases truth : v.truth with
      | true =>
        simp only [truth, if_pos]
        exact chosen first
      | false =>
        simp only [truth, Bool.false_eq_true, if_false]
        exact chosen second
    | int | string | name | nameless | function | operation | conditional | chain | list | wrapped | itemless
    | unknown | datum => exact undecided
  | chain items =>
    have each := Store.Owns.items owned
    exact bind_congr (yields_replacedItems replace coherent known given each) (row each) fun _ _ _ _ _ => rfl
  | list cell =>
    have old : cell < w.store.size := by
      cases owned with
      | list paired => exact paired.2
    have each := coherent.owns_items old
    refine get_congr ?_
    exact bind_congr (yields_replacedItems replace coherent known given each) (row each) fun _ _ _ _ _ => rfl

/-- Simplification and replacement run as they do whatever a detour would do. -/
theorem Detour.agree_simplify_replace (detour : Detour) (s : Settings) (lookup : Lookup) (depth : Nat) :
    Agree (Owned lookup) (detour.simplify s lookup depth) (DotLambda.simplify s lookup depth) ∧
      ∀ x value, value.isArgument = true → Agree (OwnedGiven lookup value) (detour.replace s lookup depth x value)
        (DotLambda.replace s lookup depth x value) := by
  induction depth with
  | zero => exact ⟨fun _ _ _ => rfl, fun _ _ _ _ _ _ _ _ => rfl⟩
  | succ depth ih =>
    obtain ⟨normalizes, keeps⟩ := normalizes_simplify_replace s lookup depth
    constructor
    · intro w t coherent known owned
      cases t with
      | datum d => rfl
      | int | bool | string | name | nameless | function | operation | conditional | chain | list | wrapped
      | itemless | unknown =>
        refine bind_congr (Yields.trace coherent) rfl fun _ between grown coherent _ => ?_
        have known := known.grow grown
        have owned := owned.mono grown.own_le
        exact bind_congr (normalizes_simplified normalizes keeps coherent known owned)
          (Detour.agree_simplified normalizes keeps ih.1 ih.2 coherent known owned) fun _ _ _ _ _ => rfl
    · intro x value argument w t coherent ready owned
      cases t with
      | datum d => rfl
      | int | bool | string | name | nameless | function | operation | conditional | chain | list | wrapped
      | itemless | unknown =>
        exact bind_congr
          (keepsNormal_replaced argument normalizes (keeps x value argument) coherent ready.1 ready.2 owned)
          (agree_replaced normalizes (keeps x value argument) ih.1 (ih.2 x value argument) coherent ready owned)
          fun _ _ _ _ _ => rfl

end Simplify

/-- What comes out of simplification has no operation, no name that is bound or a truth value, no chain of one item
and no conditional on a truth value in it outside the clauses of conditionals. The steps of simplification that
look a name up in what has been simplified already are never taken: with anything else in their place it would run
as it does. -/
theorem simplify_leaves_finished {s : Settings} {lookup : Simplify.Lookup} {depth : Nat} {v : Term} {w : World}
    (sound : w.store.Sound) (known : ∀ id u, lookup.find? id = some u → u.Of w.store) (given : v.Of w.store) :
    (∀ t after, simplify s lookup depth v w = .ok t after →
      ∀ u, after.store.Active t u → Simplify.Finished lookup u) ∧
      ∀ detour : Simplify.Detour, detour.simplify s lookup depth v w = simplify s lookup depth v w := by
  have owned : Simplify.Owned lookup w.store := fun id u found => (known id u found).owns
  constructor
  · intro t after ended u active
    obtain ⟨-, -, settled⟩ :=
      (Simplify.normalizes_simplify_replace s lookup depth).1 sound.coherent owned given.owns t after ended
    obtain ⟨less, normal⟩ := settled.normal.active active
    exact normal.finished
  · intro detour
    exact (detour.agree_simplify_replace s lookup depth).1 sound.coherent owned given.owns

/-- A bound name is an operand, and another one that stands for a function comes before an argument: both are
gone before the two steps would look them up. -/
theorem simplify_leaves_finished_sum :
    ∃ t after, simplify ⟨false, 9⟩ [("f", .function (.text "x") (.name "x")), ("k", .int (.int 4))] 9
        (.chain [.list 0, .name "z"])
        ⟨[], ⟨#[[.operation (.name "k") .add (.chain [.name "f", .int (.int 2)])]], #[]⟩, #[]⟩ = .ok t after ∧
      (∀ u, after.store.Active t u →
        Simplify.Finished [("f", .function (.text "x") (.name "x")), ("k", .int (.int 4))] u) ∧
      ∀ detour : Simplify.Detour,
        detour.simplify ⟨false, 9⟩ [("f", .function (.text "x") (.name "x")), ("k", .int (.int 4))] 9
          (.chain [.list 0, .name "z"])
          ⟨[], ⟨#[[.operation (.name "k") .add (.chain [.name "f", .int (.int 2)])]], #[]⟩, #[]⟩ = .ok t after := by
  have sound : Store.Sound ⟨#[[.operation (.name "k") .add (.chain [.name "f", .int (.int 2)])]], #[]⟩ := by
    constructor
    · intro cell t member
      cases cell with
      | zero =>
        cases List.mem_singleton.1 member
        exact ⟨List.forall_mem_nil _, List.forall_mem_nil _⟩
      | succ cell => cases member
    · intro cell old
      cases old
  have known : ∀ id u,
      Bindings.find? [("f", Term.function (.text "x") (.name "x")), ("k", .int (.int 4))] id = some u →
        u.Of ⟨#[[.operation (.name "k") .add (.chain [.name "f", .int (.int 2)])]], #[]⟩ := by
    intro id u found
    obtain ⟨front, back, listed, -⟩ := List.lookup_eq_some_iff.1 found
    have member : (id, u) ∈ front ++ (id, u) :: back := List.mem_append_right _ List.mem_cons_self
    rw [← listed] at member
    rcases List.mem_cons.1 member with is | is
    · cases is
      exact ⟨List.forall_mem_nil _, List.forall_mem_nil _⟩
    · cases List.mem_singleton.1 is
      exact ⟨List.forall_mem_nil _, List.forall_mem_nil _⟩
  have given : Term.Of ⟨#[[.operation (.name "k") .add (.chain [.name "f", .int (.int 2)])]], #[]⟩
      (.chain [.list 0, .name "z"]) := ⟨by decide, by decide⟩
  have ended : simplify ⟨false, 9⟩ [("f", .function (.text "x") (.name "x")), ("k", .int (.int 4))] 9
      (.chain [.list 0, .name "z"])
      ⟨[], ⟨#[[.operation (.name "k") .add (.chain [.name "f", .int (.int 2)])]], #[]⟩, #[]⟩ =
        .ok (.chain [.list 1, .name "z"])
          ⟨[], ⟨#[[.operation (.name "k") .add (.chain [.name "f", .int (.int 2)])], [.int (.int 6)]], #[]⟩, #[]⟩ :=
    rfl
  exact ⟨_, _, ended, (simplify_leaves_finished sound known given).1 _ _ ended, fun detour =>
    ((simplify_leaves_finished sound known given).2 detour).trans ended⟩

end DotLambda
