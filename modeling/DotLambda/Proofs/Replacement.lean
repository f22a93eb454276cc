import DotLambda.Proofs.Parallel

/-!
Terms in which nothing is left to simplify. Main statements: to replace a name by a number in such a term is to
fill the number in wherever the name stands, and what is filled in that way is left as it is by simplification
and has one printed form.
-/

namespace DotLambda

open Eval

namespace Simplify

/-- Two terms of a chain of which the first is not applied to the second, nor is once a name has been replaced
by an argument. -/
def Unapplied (lookup : Lookup) (x : String) (first next : Term) : Prop :=
  functionOf? lookup first = none ∨ next.isArgument = false ∧ next ≠ .name x

/-- A finite term without strings in which nothing is left to simplify, and nothing will be once a name has been
replaced by an argument. In the clauses of a conditional that is not decided, which are not active, operations,
bound names and functions with their arguments may be left. -/
def Inert (lookup : Lookup) (store : Store) (x : String) : (active : Bool) → (height : Nat) → Term → Prop
  | _, 0, _ => False
  | active, height + 1, t =>
    match t with
    | .int d | .bool d => d.references = []
    | .name id => active = true → id ≠ "true" ∧ id ≠ "false" ∧ lookup.find? id = none
    | .function parameter body => (∃ y, parameter = .text y) ∧ Inert lookup store x active height body
    | .operation lhs _ rhs =>
      active = false ∧ Inert lookup store x false height lhs ∧ Inert lookup store x false height rhs
    | .conditional condition yes no =>
      (Inert lookup store x true height condition ∧ ∀ d, condition ≠ .bool d) ∧
        Inert lookup store x false height yes ∧ Inert lookup store x false height no
    | .chain items =>
      (∀ t ∈ items, Inert lookup store x active height t) ∧
        (active = true → 2 ≤ items.length ∧ items.IsChain (Unapplied lookup x))
    | .list cell => cell < store.size ∧ ∀ t ∈ store.items cell, Inert lookup store x active height t
    | _ => False

/-- A term of a store, and what it is in another store with a number in the place of a name. -/
def Filled (x : String) (n : Nat) (store store' : Store) : (height : Nat) → Term → Term → Prop
  | 0, _, _ => False
  | height + 1, t, t' =>
    match t with
    | .int d => d.references = [] ∧ t' = .int d
    | .bool d => d.references = [] ∧ t' = .bool d
    | .name id => t' = if id = x then .int (.int n) else .name id
    | .function parameter body => ∃ y body', parameter = .text y ∧ t' = .function (.text y) body' ∧
      Filled x n store store' height body body'
    | .operation lhs op rhs => ∃ lhs' rhs', t' = .operation lhs' op rhs' ∧
      Filled x n store store' height lhs lhs' ∧ Filled x n store store' height rhs rhs'
    | .conditional condition yes no => ∃ condition' yes' no', t' = .conditional condition' yes' no' ∧
      Filled x n store store' height condition condition' ∧ Filled x n store store' height yes yes' ∧
        Filled x n store store' height no no'
    | .chain items => ∃ items', t' = .chain items' ∧ List.Forall₂ (Filled x n store store' height) items items'
    | .list cell => ∃ cell', t' = .list cell' ∧ cell' < store'.size ∧
      List.Forall₂ (Filled x n store store' height) (store.items cell) (store'.items cell')
    | _ => False

variable {lookup : Lookup} {store store' : Store} {x : String} {n : Nat} {height : Nat}

theorem Inert.inactive {active : Bool} {t : Term} (inert : Inert lookup store x active height t) :
    Inert lookup store x false height t := by
  induction height generalizing active t with
  | zero => exact inert
  | succ height ih =>
    cases t with
    | int d | bool d => exact inert
    | name id => exact nofun
    | function parameter body => exact ⟨inert.1, ih inert.2⟩
    | operation lhs op rhs => exact ⟨rfl, inert.2⟩
    | conditional condition yes no => exact inert
    | chain items => exact ⟨fun t member => ih (inert.1 t member), nofun⟩
    | list cell => exact ⟨inert.1, fun t member => ih (inert.2 t member)⟩
    | string | nameless | wrapped | itemless | unknown | datum => exact inert

namespace Filled

theorem grow {after : Store} (grown : store'.Extends after) {t t' : Term}
    (filled : Filled x n store store' height t t') : Filled x n store after height t t' := by
  induction height generalizing t t' with
  | zero => exact filled
  | succ height ih =>
    cases t with
    | int d | bool d | name id => exact filled
    | function parameter body =>
      obtain ⟨y, body', named, same, inner⟩ := filled
      exact ⟨y, body', named, same, ih inner⟩
    | operation lhs op rhs =>
      obtain ⟨lhs', rhs', same, left, right⟩ := filled
      exact ⟨lhs', rhs', same, ih left, ih right⟩
    | conditional condition yes no =>
      obtain ⟨condition', yes', no', same, decides, first, second⟩ := filled
      exact ⟨condition', yes', no', same, ih decides, ih first, ih second⟩
    | chain items =>
      obtain ⟨items', same, each⟩ := filled
      exact ⟨items', same, each.imp fun _ _ filled => ih filled⟩
    | list cell =>
      obtain ⟨cell', same, old, each⟩ := filled
      refine ⟨cell', same, Nat.lt_of_lt_of_le old grown.size_le, ?_⟩
      rw [grown.items_eq cell' old]
      exact each.imp fun _ _ filled => ih filled
    | string | nameless | wrapped | itemless | unknown | datum => exact filled

/-- What is filled in has one printed form. -/
theorem printed_eq {after : Store} {t u v : Term} (first : Filled x n store store' height t u)
    (second : Filled x n store after height t v) (depth : Nat) :
    u.printed store' depth = v.printed after depth := by
  induction depth generalizing height t u v with
  | zero => rfl
  | succ depth ih =>
    cases height with
    | zero => exact first.elim
    | succ height =>
      have plain {d : Datum} (none : d.references = []) :=
        Datum.plain_congr (Term.wording store' depth) (Term.wording after depth) none
      simp only [Term.wording] at plain
      have row {items us vs : List Term} (here : List.Forall₂ (Filled x n store store' height) items us)
          (there : List.Forall₂ (Filled x n store after height) items vs) :
          us.mapM (Term.printed store' depth) = vs.mapM (Term.printed after depth) := by
        induction here generalizing vs with
        | nil =>
          cases there
          rfl
        | cons head _ others =>
          cases there with
          | cons head' others' => rw [List.mapM_cons, List.mapM_cons, ih head head', others others']
      cases t with
      | int d | bool d =>
        obtain ⟨none, rfl⟩ := first
        obtain ⟨-, rfl⟩ := second
        simp only [Term.printed, plain none]
      | name id =>
        rw [show u = v from first.trans second.symm]
        by_cases same : id = x
        · rw [second.trans (if_pos same)]
          rfl
        · rw [second.trans (if_neg same)]
          rfl
      | function parameter body =>
        obtain ⟨y, body', rfl, rfl, inner⟩ := first
        obtain ⟨_, body'', same, rfl, inner'⟩ := second
        cases same
        simp only [Term.printed, ih inner inner']
        rfl
      | operation lhs op rhs =>
        obtain ⟨_, _, rfl, left, right⟩ := first
        obtain ⟨_, _, rfl, left', right'⟩ := second
        simp only [Term.printed, ih left left', ih right right']
      | conditional condition yes no =>
        obtain ⟨_, _, _, rfl, decides, yes, no⟩ := first
        obtain ⟨_, _, _, rfl, decides', yes', no'⟩ := second
        simp only [Term.printed, ih decides decides', ih yes yes', ih no no']
      | chain items =>
        obtain ⟨_, rfl, each⟩ := first
        obtain ⟨_, rfl, each'⟩ := second
        simp only [Term.printed, row each each']
      | list cell =>
        obtain ⟨_, rfl, -, each⟩ := first
        obtain ⟨_, rfl, -, each'⟩ := second
        simp only [Term.printed, row each each']
      | string | nameless | wrapped | itemless | unknown | datum => exact first.elim

end Filled

end Simplify

/-! ## Evaluations that succeed -/

namespace Eval

/-- An evaluation that succeeds, leaves all that there was as it was and writes nothing. -/
def Finds {α : Type} (w : World) (x : Eval α) (good : Store → α → Prop) : Prop :=
  ∃ a after, x w = .ok a after ∧ w.Grows after ∧ after.output = w.output ∧ good after.store a

namespace Finds

variable {α β : Type} {w : World} {x : Eval α} {good : Store → α → Prop}

theorem pure {a : α} (fine : good w.store a) : Finds w (pure a) good := ⟨a, w, rfl, .refl _, rfl, fine⟩

theorem mono {best : Store → α → Prop} (finds : Finds w x good) (weaker : ∀ after a, good after a → best after a) :
    Finds w x best := by
  obtain ⟨a, after, ended, grown, quiet, fine⟩ := finds
  exact ⟨a, after, ended, grown, quiet, weaker _ a fine⟩

theorem bind {f : α → Eval β} {best : Store → β → Prop} (first : Finds w x good)
    (next : ∀ a after, w.Grows after → good after.store a → Finds after (f a) best) :
    Finds w (x >>= f) best := by
  obtain ⟨a, between, ended, grown, quiet, fine⟩ := first
  obtain ⟨b, after, ended', grown', quiet', best⟩ := next a between grown fine
  refine ⟨b, after, ?_, grown.trans grown', quiet'.trans quiet, best⟩
  rw [bind_of_ok ended, ended']

theorem get {f : World → Eval β} {best : Store → β → Prop} (next : Finds w (f w) best) :
    Finds w (MonadState.get >>= f) best := next

/-- Terms found one by one for items, each from one that is given for it. -/
theorem mapM {ι : Type} (given : Store → ι → Term → Prop) {best : Store → ι → Term → Prop} {f : Term → Eval Term}
    {items : List ι} {inputs : List Term}
    (grows : ∀ {before after t u}, before.Extends after → given before t u → given after t u)
    (grows' : ∀ {before after t u}, before.Extends after → best before t u → best after t u)
    (all : List.Forall₂ (given w.store) items inputs)
    (each : ∀ after, w.Grows after → ∀ t ∈ items, ∀ u, given after.store t u →
      Finds after (f u) fun last v => best last t v) :
    Finds w (inputs.mapM f) fun after out => List.Forall₂ (best after) items out := by
  induction items generalizing w inputs with
  | nil =>
    cases all
    exact .pure .nil
  | cons t rest ih =>
    cases all with
    | @cons _ u _ inputs first others =>
      rw [List.mapM_cons]
      refine (each w (.refl _) t List.mem_cons_self u first).bind fun v after grown found => ?_
      have later : List.Forall₂ (given after.store) rest inputs :=
        others.imp fun _ _ given => grows grown.store given
      refine (ih later fun last grown' t member u given => ?_).bind fun vs last grown' found' => ?_
      · exact each last (grown.trans grown') t (List.mem_cons_of_mem _ member) u given
      · exact .pure (.cons (grows' grown'.store found) found')

section
variable {s : Settings} (untraced : s.tracing = false)
include untraced

theorem make {t : Term} {good : Store → Term → Prop} (fine : good w.store t) : Finds w (Eval.make s t) good := by
  rw [Eval.make_untraced untraced]
  exact .pure fine

theorem makeList {items : List Term} {good : Store → Term → Prop}
    (fine : ∀ after cell, w.store.Extends after → cell < after.size → after.items cell = items →
      good after (.list cell)) : Finds w (Eval.makeList s items) good := by
  have grown := Store.Extends.allocate w.store items
  simp only [Eval.makeList, Eval.announce, Eval.announceResult, Eval.trace_untraced untraced, pure_bind, bind_pure]
  refine ⟨_, _, rfl, ⟨rfl, grown⟩, rfl, fine _ _ grown ?_ (Store.items_allocate_self _ _)⟩
  rw [Store.size_allocate]
  exact Nat.lt_succ_self _

end

end Finds

end Eval

/-! ## Simplifying and replacing -/

namespace Simplify

variable {lookup : Lookup} {store : Store} {x : String} {n height : Nat} {s : Settings} {w : World}

/-- Where no function meets an argument, none is applied. -/
theorem contract_eq_self {apply : Datum → Term → Term → Eval Term} {first : Term} {rest : List Term}
    (apart : (first :: rest).IsChain fun t next => functionOf? lookup t = none ∨ next.isArgument = false) :
    contract lookup apply first rest = pure (first :: rest) := by
  induction rest generalizing first with
  | nil => rfl
  | cons next rest ih =>
    rw [List.isChain_cons_cons] at apart
    have others := ih apart.2
    unfold contract
    rcases apart.1 with none | closed
    · rw [none, others]
      rfl
    · rw [closed, others]
      cases functionOf? lookup first <;> rfl

section
variable {store' : Store} {t t' next next' : Term}

/-- A number filled in decides nothing. -/
theorem Filled.undecided (filled : Filled x n store store' height t t') (undecided : ∀ d, t ≠ .bool d) :
    ∀ d, t' ≠ .bool d := by
  rintro d rfl
  cases height with
  | zero => exact filled.elim
  | succ height =>
    cases t with
    | bool d => exact undecided d rfl
    | name id =>
      by_cases same : id = x
      · cases filled.trans (if_pos same)
      · cases filled.trans (if_neg same)
    | int | function | operation | conditional | chain | list => simp [Filled] at filled
    | string | nameless | wrapped | itemless | unknown | datum => exact filled.elim

/-- A number filled in makes no function. -/
theorem Filled.functionOf?_eq_none (filled : Filled x n store store' height t t')
    (none : functionOf? lookup t = none) :
    functionOf? lookup t' = .none := by
  cases height with
  | zero => exact filled.elim
  | succ height =>
    cases t with
    | name id =>
      by_cases same : id = x
      · rw [filled.trans (if_pos same)]
        rfl
      · rw [filled.trans (if_neg same)]
        exact none
    | function => cases none
    | int | bool =>
      obtain ⟨-, rfl⟩ := filled
      rfl
    | operation =>
      obtain ⟨_, _, rfl, -⟩ := filled
      rfl
    | conditional =>
      obtain ⟨_, _, _, rfl, -⟩ := filled
      rfl
    | chain | list =>
      obtain ⟨_, rfl, -⟩ := filled
      rfl
    | string | nameless | wrapped | itemless | unknown | datum => exact filled.elim

/-- A number filled in makes an argument of nothing but the name in whose place it stands. -/
theorem Filled.isArgument_eq_false (filled : Filled x n store store' height t t') (closed : t.isArgument = false)
    (other : t ≠ .name x) : t'.isArgument = false := by
  cases height with
  | zero => exact filled.elim
  | succ height =>
    cases t with
    | name id =>
      have different : id ≠ x := fun same => other (congrArg Term.name same)
      rw [filled.trans (if_neg different)]
      rfl
    | int | bool => cases closed
    | function =>
      obtain ⟨_, _, -, rfl, -⟩ := filled
      rfl
    | operation =>
      obtain ⟨_, _, rfl, -⟩ := filled
      rfl
    | conditional =>
      obtain ⟨_, _, _, rfl, -⟩ := filled
      rfl
    | chain | list =>
      obtain ⟨_, rfl, -⟩ := filled
      rfl
    | string | nameless | wrapped | itemless | unknown | datum => exact filled.elim

/-- Where no function meets an argument, none does after a number has been filled in. -/
theorem Filled.apart {items out : List Term} (filled : List.Forall₂ (Filled x n store store' height) items out)
    (apart : items.IsChain (Unapplied lookup x)) :
    out.IsChain fun t next => functionOf? lookup t = none ∨ next.isArgument = false := by
  induction filled with
  | nil => exact .nil
  | cons first others ih =>
    cases others with
    | nil => exact .singleton _
    | cons second rest =>
      rw [List.isChain_cons_cons] at apart ⊢
      refine ⟨?_, ih apart.2⟩
      rcases apart.1 with none | ⟨closed, other⟩
      · exact .inl (first.functionOf?_eq_none none)
      · exact .inr (second.isArgument_eq_false closed other)

end

variable (untraced : s.tracing = false)
include untraced

/-- Simplification leaves a term as it is in which nothing is left to simplify, with a number filled in. -/
theorem Inert.finds_simplify {depth : Nat} (enough : height ≤ depth) {t u : Term}
    (inert : Inert lookup store x true height t) (filled : Filled x n store w.store height t u) :
    Finds w (simplify s lookup depth u) fun after v => Filled x n store after height t v := by
  induction height generalizing depth t u w with
  | zero => exact inert.elim
  | succ height ih =>
    obtain ⟨depth, rfl⟩ : ∃ below, depth = below + 1 := ⟨depth - 1, by omega⟩
    have enough : height ≤ depth := by omega
    rw [simplify_untraced untraced]
    have row {items us : List Term} (each : ∀ t ∈ items, Inert lookup store x true height t)
        (filled : List.Forall₂ (Filled x n store w.store height) items us) :
        Finds w (us.mapM (simplify s lookup depth)) fun after out =>
          List.Forall₂ (Filled x n store after height) items out :=
      .mapM (fun after => Filled x n store after height) (fun grown filled => filled.grow grown)
        (fun grown filled => filled.grow grown) filled fun after _ t member u given => ih enough (each t member) given
    cases t with
    | int d | bool d =>
      obtain ⟨plain, rfl⟩ := filled
      exact .make untraced ⟨plain, rfl⟩
    | name id =>
      obtain ⟨notTrue, notFalse, unbound⟩ := inert rfl
      by_cases same : id = x
      · rw [show u = .int (.int n) from filled.trans (if_pos same)]
        exact .make untraced (if_pos same).symm
      · rw [show u = .name id from filled.trans (if_neg same)]
        simp only [simplified, if_neg notTrue, if_neg notFalse, unbound]
        exact .make untraced (if_neg same).symm
    | function parameter body =>
      obtain ⟨y, body', rfl, rfl, inner⟩ := filled
      refine Finds.bind (.pure rfl : Finds w (Eval.plain s (.text y)) fun _ text => text = y) ?_
      rintro _ after grown rfl
      refine (ih enough inert.2 (inner.grow grown.store)).bind fun b after grown found => ?_
      exact .make untraced ⟨_, b, rfl, rfl, found⟩
    | operation => cases inert.1
    | conditional condition yes no =>
      obtain ⟨condition', yes', no', rfl, decides, first, second⟩ := filled
      obtain ⟨⟨active, undecided⟩, -⟩ := inert
      refine (ih enough active decides).bind fun c after grown found => ?_
      have kept : Filled x n store after.store (height + 1) (.conditional condition yes no)
          (.conditional c yes' no') :=
        ⟨c, yes', no', rfl, found, first.grow grown.store, second.grow grown.store⟩
      have undecided' : ∀ d, c ≠ .bool d := found.undecided undecided
      cases c with
      | bool d => exact absurd rfl (undecided' d)
      | _ => exact .make untraced kept
    | chain items =>
      obtain ⟨items', rfl, each⟩ := filled
      obtain ⟨long, apart⟩ := inert.2 rfl
      refine (row inert.1 each).bind fun out after grown found => ?_
      have long' : 2 ≤ out.length := found.length_eq ▸ long
      have apart' := Filled.apart found apart
      cases out with
      | nil => simp at long'
      | cons first rest =>
        rw [contractAll, contract_eq_self apart', pure_bind]
        cases rest with
        | nil => simp at long'
        | cons second rest => exact .make untraced ⟨_, rfl, found⟩
    | list cell =>
      obtain ⟨cell', rfl, old, each⟩ := filled
      refine .get ((row inert.2 each).bind fun out after grown found => ?_)
      refine .makeList untraced fun last cell' grown' new same => ⟨cell', rfl, new, ?_⟩
      rw [same]
      exact found.imp fun _ _ filled => filled.grow grown'
    | string | nameless | wrapped | itemless | unknown | datum => exact inert.elim

/-- To replace a name by a number in a term in which nothing is left to simplify is to fill the number in. -/
theorem Inert.finds_replace {depth : Nat} (enough : height ≤ depth) (grown : store.Extends w.store) {t : Term}
    (inert : Inert lookup store x false height t) :
    Finds w (replace s lookup depth (.text x) (.int (.int n)) t) fun after v =>
      Filled x n store after height t v := by
  induction height generalizing depth t w with
  | zero => exact inert.elim
  | succ height ih =>
    obtain ⟨depth, rfl⟩ : ∃ below, depth = below + 1 := ⟨depth - 1, by omega⟩
    have enough : height ≤ depth := by omega
    have proper : ∀ d, t ≠ .datum d := by
      rintro d rfl
      exact inert
    rw [replace_untraced untraced lookup depth (.text x) (.int (.int n)) proper]
    have row {items : List Term} (each : ∀ t ∈ items, Inert lookup store x false height t) :
        Finds w (items.mapM (replace s lookup depth (.text x) (.int (.int n)))) fun after out =>
          List.Forall₂ (Filled x n store after height) items out := by
      refine .mapM (fun _ t u => u = t) (fun _ same => same) (fun grown filled => filled.grow grown)
        (List.forall₂_same.2 fun _ _ => rfl) ?_
      rintro after grown' t member _ rfl
      exact ih enough (grown.trans grown'.store) (each _ member)
    cases t with
    | int d | bool d => exact .make untraced ⟨inert, rfl⟩
    | name id =>
      simp only [replaced]
      by_cases same : id = x
      · rw [if_pos same]
        exact ⟨_, w, Eval.copy_eq_self rfl, .refl _, rfl, (if_pos same).symm⟩
      · rw [if_neg same]
        exact .make untraced (if_neg same).symm
    | function parameter body =>
      obtain ⟨⟨y, rfl⟩, inner⟩ := inert
      refine Finds.bind (.pure rfl : Finds w (Eval.plain s (.text y)) fun _ text => text = y) ?_
      rintro _ after grown' rfl
      refine (ih enough (grown.trans grown'.store) inner).bind fun b after _ found => ?_
      exact .make untraced ⟨_, b, rfl, rfl, found⟩
    | operation lhs op rhs =>
      obtain ⟨-, left, right⟩ := inert
      refine (ih enough grown left).bind fun l after grown' found => ?_
      refine (ih enough (grown.trans grown'.store) right).bind fun r last grown'' found' => ?_
      exact .make untraced ⟨l, r, rfl, found.grow grown''.store, found'⟩
    | conditional condition yes no =>
      obtain ⟨⟨active, undecided⟩, first, second⟩ := inert
      refine (ih enough grown active.inactive).bind fun c after grown' filled => ?_
      refine (active.finds_simplify untraced enough filled).bind fun c after' grown'' decided => ?_
      have later := (grown.trans grown'.store).trans grown''.store
      have kept : Finds after' (do
          let y ← replace s lookup depth (.text x) (.int (.int n)) yes
          let n ← replace s lookup depth (.text x) (.int (.int n)) no
          Eval.make s (.conditional c y n)) fun last v =>
            Filled x n store last (height + 1) (.conditional condition yes no) v := by
        refine (ih enough later first).bind fun y middle grown' found => ?_
        refine (ih enough (later.trans grown'.store) second).bind fun n last grown'' found' => ?_
        have first := found.grow grown''.store
        exact .make untraced
          ⟨c, y, n, rfl, decided.grow (grown'.store.trans grown''.store), first, found'⟩
      have undecided' : ∀ d, c ≠ .bool d := decided.undecided undecided
      cases c with
      | bool d => exact absurd rfl (undecided' d)
      | _ => exact kept
    | chain items => exact (row inert.1).bind fun out after _ found => .make untraced ⟨out, rfl, found⟩
    | list cell =>
      refine .get ?_
      rw [grown.items_eq cell inert.1]
      refine (row inert.2).bind fun out after _ found => ?_
      refine .makeList untraced fun last cell' grown' new same => ⟨cell', rfl, new, ?_⟩
      rw [same]
      exact found.imp fun _ _ filled => filled.grow grown'
    | string | nameless | wrapped | itemless | unknown | datum => exact inert.elim

end Simplify

end DotLambda
