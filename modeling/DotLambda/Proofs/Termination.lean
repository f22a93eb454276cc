import DotLambda.Proofs.Frame
import Mathlib.Logic.Relation
import Mathlib.Order.WellFoundedSet

/-!
When evaluation comes to an end. A term is written out by putting for its bound names what they stand for,
and for its lists their items. Neither simplification nor the replacement of a name by a number or a boolean
makes the written out term nest deeper, and each goes on only with terms that nest less deeply. Main
statement: where definitions do not go round in circles and no list holds itself, both come to an end.
-/

namespace DotLambda

open Simplify

namespace Term

mutual

/-- The names that stand in a term. What stands in its lists is not looked at. -/
def names : Term → List String
  | name id => [id]
  | function _ body => body.names
  | operation lhs _ rhs => lhs.names ++ rhs.names
  | conditional condition yes no => condition.names ++ yes.names ++ no.names
  | chain items => namesAll items
  | wrapped inner => inner.names
  | int _ | bool _ | string _ | nameless _ | list _ | itemless _ _ | unknown _ | datum _ => []

/-- The names that stand in several terms. -/
def namesAll : List Term → List String
  | [] => []
  | t :: rest => t.names ++ namesAll rest

end

end Term

namespace Store

/-- A name stands somewhere inside a term: in the term itself, or inside an item of a list that it holds. -/
inductive Mentions (store : Store) : Term → String → Prop where
  | here {t : Term} {id : String} (stands : id ∈ t.names) : Mentions store t id
  | inside {t item : Term} {cell : Nat} {id : String} (holds : cell ∈ t.cells)
      (member : item ∈ store.items cell) (onward : Mentions store item id) : Mentions store t id

/-- A finite term: its literals hold no terms, and the lists that it holds are lists of the store whose items
are finite. A list that holds itself, directly or not, is not finite. -/
inductive Finite (store : Store) : Term → Prop where
  | mk {t : Term} (plain : t.references = []) (known : ∀ cell ∈ t.cells, cell < store.size)
      (items : ∀ cell ∈ t.cells, ∀ item ∈ store.items cell, Finite store item) : Finite store t

theorem Reaches.passes {store : Store} {t item : Term} {between cell : Nat} (reaches : store.Reaches t between)
    (member : item ∈ store.items between) (onward : store.Reaches item cell) : store.Reaches t cell := by
  induction reaches with
  | here holds => exact .inside holds member onward
  | inside holds inner _ ih => exact .inside holds inner (ih member)
  | referred refers _ ih => exact .referred refers (ih member)

/-- A term that reaches no list which holds itself, directly or not. -/
def Untied (store : Store) (t : Term) : Prop :=
  ∀ cell, store.Reaches t cell → ∀ item ∈ store.items cell, ¬ store.Reaches item cell

theorem finite_of_untied {store : Store} (closed : store.Closed) {t : Term} (within : t.Within store.size)
    (untied : store.Untied t) : store.Finite t := by
  -- The lists that the term reaches, each above those that its items reach.
  let under (cell upper : Nat) : Prop :=
    store.Reaches t upper ∧ ∃ item ∈ store.items upper, store.Reaches item cell
  have strict : IsStrictOrder Nat under :=
    { irrefl := fun cell ⟨reaches, item, member, circle⟩ => untied cell reaches item member circle
      trans := fun _ _ _ ⟨_, _, member, onward⟩ ⟨reaches, item, upper, between⟩ =>
        ⟨reaches, item, upper, between.passes member onward⟩ }
  have order : {cell | cell < store.size}.WellFoundedOn under :=
    (Set.finite_lt_nat store.size).wellFoundedOn
  have items : ∀ cell < store.size, store.Reaches t cell → ∀ item ∈ store.items cell, store.Finite item := by
    intro cell old
    refine order.induction (P := fun cell => store.Reaches t cell → ∀ item ∈ store.items cell,
      store.Finite item) old ?_
    intro cell _ ih reaches item member
    have inside := closed cell item member
    refine .mk inside.plain inside.cells fun lower holds => ?_
    have onward : store.Reaches t lower := reaches.passes member (.here holds)
    exact ih lower (inside.cells lower holds) ⟨reaches, item, member, .here holds⟩ onward
  exact .mk within.plain within.cells fun cell holds => items cell (within.cells cell holds) (.here holds)

end Store

/-! ## How deeply terms nest -/

/-- A term that nests at most to a height when it is written out. -/
def Nests (lookup : Lookup) (store : Store) : (height : Nat) → Term → Prop
  | 0, _ => False
  | height + 1, t =>
    match t with
    | .int d | .bool d | .string d | .nameless d | .datum d => d.references = []
    | .name id => ∀ value, lookup.find? id = some value → Nests lookup store height value
    | .function parameter body => parameter.references = [] ∧ Nests lookup store height body
    | .operation lhs op rhs =>
      Nests lookup store height lhs ∧ op.sign.references = [] ∧ Nests lookup store height rhs
    | .conditional condition yes no =>
      Nests lookup store height condition ∧ Nests lookup store height yes ∧ Nests lookup store height no
    | .chain items => ∀ t ∈ items, Nests lookup store height t
    | .list cell => cell < store.size ∧ ∀ t ∈ store.items cell, Nests lookup store height t
    | .wrapped inner => Nests lookup store height inner
    | .itemless _ _ | .unknown _ => True

namespace Nests

variable {lookup : Lookup} {store : Store} {height : Nat}

theorem pos {t : Term} (nests : Nests lookup store height t) : 0 < height := by
  cases height with
  | zero => exact nests.elim
  | succ height => exact Nat.succ_pos height

/-- A greater height does as well, and so do more lists. -/
theorem mono {after : Store} {more : Nat} (le : height ≤ more) (grown : store.Extends after) {t : Term}
    (nests : Nests lookup store height t) : Nests lookup after more t := by
  induction height generalizing more t with
  | zero => exact nests.elim
  | succ height ih =>
    obtain ⟨more, rfl⟩ : ∃ m, more = m + 1 := ⟨more - 1, by omega⟩
    have step {u : Term} (nests : Nests lookup store height u) : Nests lookup after more u := ih (by omega) nests
    cases t with
    | int d | bool d | string d | nameless d | datum d => exact nests
    | name id => exact fun value found => step (nests value found)
    | function parameter body => exact ⟨nests.1, step nests.2⟩
    | operation lhs op rhs => exact ⟨step nests.1, nests.2.1, step nests.2.2⟩
    | conditional condition yes no => exact ⟨step nests.1, step nests.2.1, step nests.2.2⟩
    | chain items => exact fun t member => step (nests t member)
    | list cell =>
      refine ⟨Nat.lt_of_lt_of_le nests.1 grown.size_le, fun t member => step (nests.2 t ?_)⟩
      rwa [grown.items_eq cell nests.1] at member
    | wrapped inner => exact step nests
    | itemless kind owner | unknown kind => trivial

theorem succ {t : Term} (nests : Nests lookup store height t) : Nests lookup store (height + 1) t :=
  nests.mono (Nat.le_succ height) (.refl store)

theorem grow {after : Store} (grown : store.Extends after) {t : Term}
    (nests : Nests lookup store height t) : Nests lookup after height t :=
  nests.mono (Nat.le_refl height) grown

theorem ofArgument {t : Term} (argument : t.isArgument) (plain : t.references = []) :
    Nests lookup store (height + 1) t := by
  cases t with
  | int d | bool d => exact plain
  | _ => simp [Term.isArgument] at argument

theorem references_eq_nil {t : Term} (argument : t.isArgument) (nests : Nests lookup store height t) :
    t.references = [] := by
  obtain ⟨height, rfl⟩ : ∃ h, height = h + 1 := ⟨height - 1, by have := nests.pos; omega⟩
  cases t with
  | int d | bool d => exact nests
  | _ => simp [Term.isArgument] at argument

theorem of_functionOf? {t body : Term} {parameter : Datum} (nests : Nests lookup store height t)
    (found : functionOf? lookup t = some (parameter, body)) :
    parameter.references = [] ∧ Nests lookup store height body := by
  obtain ⟨height, rfl⟩ : ∃ h, height = h + 1 := ⟨height - 1, by have := nests.pos; omega⟩
  unfold functionOf? at found
  split at found
  · cases found
    exact ⟨nests.1, nests.2.succ⟩
  · split at found
    · rename_i bound
      cases found
      have value := nests _ bound
      obtain ⟨height, rfl⟩ : ∃ h, height = h + 1 := ⟨height - 1, by have := value.pos; omega⟩
      exact ⟨value.1, value.2.succ.succ⟩
    · cases found
  · cases found

end Nests

/-! ## Texts -/

/-- A computation that does not nest too deeply. -/
def Ending {α : Type} (x : Except Error α) : Prop := x ≠ .error .endless

namespace Ending

variable {α β : Type}

theorem pure (a : α) : Ending (Pure.pure a) := nofun

theorem throw {e : Error} (other : e ≠ .endless) : Ending (MonadExcept.throw e : Except Error α) := by
  intro endless
  cases endless
  exact other rfl

theorem bind {x : Except Error α} {f : α → Except Error β} (first : Ending x) (next : ∀ a, Ending (f a)) :
    Ending (x >>= f) := by
  cases x with
  | ok a => exact next a
  | error e =>
    intro endless
    cases endless
    exact first rfl

theorem mapM {f : α → Except Error β} {items : List α} (each : ∀ a ∈ items, Ending (f a)) :
    Ending (items.mapM f) := by
  induction items with
  | nil => exact .pure []
  | cons a rest ih =>
    rw [List.mapM_cons]
    refine .bind (each a List.mem_cons_self) fun _ => ?_
    exact .bind (ih fun b member => each b (List.mem_cons_of_mem a member)) fun _ => .pure _

end Ending

namespace Datum

theorem ending_decimal (n : Int) : Ending (decimal n) := by
  unfold decimal
  split <;> nofun

mutual

theorem ending_quoted (w : Wording) : (d : Datum) → d.references = [] → Ending (d.quoted w)
  | none, _ | bool _, _ | text _, _ => nofun
  | int n, _ => ending_decimal n
  | list items, plain => (ending_quotedAll w items plain).bind fun _ => .pure _
  | term _, plain => nomatch plain

theorem ending_quotedAll (w : Wording) :
    (items : List Datum) → referencesAll items = [] → Ending (quotedAll w items)
  | [], _ => nofun
  | d :: rest, plain => by
    rw [referencesAll, List.append_eq_nil_iff] at plain
    exact (ending_quoted w d plain.1).bind fun _ => (ending_quotedAll w rest plain.2).bind fun _ => .pure _

end

theorem ending_plain (w : Wording) {d : Datum} (plain : d.references = []) : Ending (d.plain w) := by
  cases d with
  | text s => exact .pure s
  | term _ => cases plain
  | none | bool _ | int _ | list _ => exact ending_quoted w _ plain

end Datum

/-- A term has its texts within any depth to which it nests. -/
theorem Nests.ending_texts {lookup : Lookup} {store : Store} {height depth : Nat} {t : Term}
    (nests : Nests lookup store height t) (le : height ≤ depth) :
    Ending (t.printed store depth) ∧ Ending (t.dumped store depth) := by
  induction height generalizing depth t with
  | zero => exact nests.elim
  | succ height ih =>
    obtain ⟨depth, rfl⟩ : ∃ d, depth = d + 1 := ⟨depth - 1, by omega⟩
    have printed {u : Term} (nests : Nests lookup store height u) : Ending (u.printed store depth) :=
      (ih nests (by omega)).1
    have dumped {u : Term} (nests : Nests lookup store height u) : Ending (u.dumped store depth) :=
      (ih nests (by omega)).2
    cases t with
    | int d | bool d | string d =>
      have shown := fun w => Datum.ending_plain w (d := d) nests
      simp only [Term.printed, Term.dumped]
      exact ⟨(shown _).bind fun _ => .pure _, (shown _).bind fun _ => .pure _⟩
    | datum d =>
      simp only [Term.printed, Term.dumped]
      exact ⟨(Datum.ending_plain _ nests).bind fun _ => .pure _, Datum.ending_quoted _ d nests⟩
    | name id =>
      simp only [Term.printed, Term.dumped]
      exact ⟨.pure _, .pure _⟩
    | nameless d =>
      simp only [Term.printed, Term.dumped]
      exact ⟨.throw (by simp), (Datum.ending_plain _ nests).bind fun _ => .pure _⟩
    | function parameter body =>
      have shown := fun w => Datum.ending_plain w nests.1
      simp only [Term.printed, Term.dumped]
      exact ⟨(shown _).bind fun _ => (printed nests.2).bind fun _ => .pure _,
        (shown _).bind fun _ => (dumped nests.2).bind fun _ => .pure _⟩
    | operation lhs op rhs =>
      have shown := fun w => Datum.ending_plain w nests.2.1
      simp only [Term.printed, Term.dumped]
      refine ⟨(printed nests.1).bind fun _ => (printed nests.2.2).bind fun _ => ?_,
        (dumped nests.1).bind fun _ => (shown _).bind fun _ => (dumped nests.2.2).bind fun _ => .pure _⟩
      split
      · exact .pure _
      · exact .throw (by simp)
    | conditional condition yes no =>
      simp only [Term.printed, Term.dumped]
      constructor
      · exact (printed nests.1).bind fun _ => (printed nests.2.1).bind fun _ => (printed nests.2.2).bind fun _ => .pure _
      · exact (dumped nests.1).bind fun _ => (dumped nests.2.1).bind fun _ => (dumped nests.2.2).bind fun _ => .pure _
    | chain items =>
      simp only [Term.printed, Term.dumped]
      exact ⟨(Ending.mapM fun t member => printed (nests t member)).bind fun _ => .pure _,
        (Ending.mapM fun t member => dumped (nests t member)).bind fun _ => .pure _⟩
    | list cell =>
      simp only [Term.printed, Term.dumped]
      exact ⟨(Ending.mapM fun t member => printed (nests.2 t member)).bind fun _ => .pure _,
        (Ending.mapM fun t member => dumped (nests.2 t member)).bind fun _ => .pure _⟩
    | wrapped inner | itemless kind owner | unknown kind =>
      simp only [Term.printed, Term.dumped]
      exact ⟨.throw (by simp), .throw (by simp)⟩

/-- Components from which a term that nests to a height can be made. -/
def Component.Nests (lookup : Lookup) (store : Store) (height : Nat) : Component → Prop
  | .datum d => d.references = []
  | .term t => DotLambda.Nests lookup store height t
  | .terms items => ∀ t ∈ items, DotLambda.Nests lookup store height t

theorem Component.ending_dumpedBindings {lookup : Lookup} {store : Store} {height depth : Nat}
    {components : Bindings Component} (nest : ∀ entry ∈ components, entry.2.Nests lookup store height)
    (le : height ≤ depth) : Ending (Component.dumpedBindings store depth components) := by
  unfold Component.dumpedBindings
  refine .bind (.mapM fun entry member => ?_) nofun
  have nests := nest entry member
  obtain ⟨key, component⟩ := entry
  refine .bind ?_ nofun
  cases component with
  | datum d => exact Datum.ending_quoted _ d nests
  | term t => exact (DotLambda.Nests.ending_texts nests le).2
  | terms items =>
    unfold Component.dumped
    exact .bind (.mapM fun t inside => ((nests t inside).ending_texts le).2) nofun

theorem Nests.components {lookup : Lookup} {store : Store} {height : Nat} {t : Term}
    (nests : Nests lookup store height t) : ∀ entry ∈ t.components, entry.2.Nests lookup store height := by
  obtain ⟨height, rfl⟩ : ∃ h, height = h + 1 := ⟨height - 1, by have := nests.pos; omega⟩
  cases t with
  | int d | bool d | string d | nameless d =>
    simp only [Term.components, List.forall_mem_singleton]
    exact nests
  | name id => simp [Term.components, Component.Nests, Datum.references]
  | function parameter body =>
    simpa [Term.components, Component.Nests] using ⟨nests.1, nests.2.succ⟩
  | operation lhs op rhs =>
    simpa [Term.components, Component.Nests] using ⟨nests.1.succ, nests.2.1, nests.2.2.succ⟩
  | conditional condition yes no =>
    simpa [Term.components, Component.Nests] using ⟨nests.1.succ, nests.2.1.succ, nests.2.2.succ⟩
  | chain items =>
    simpa [Term.components, Component.Nests] using fun t member => (nests t member).succ
  | wrapped inner =>
    simp only [Term.components, List.forall_mem_singleton]
    exact Nests.succ (t := inner) nests
  | list cell | itemless kind owner | unknown kind | datum d => simp [Term.components]

/-! ## Operators -/

namespace Operator

theorem ending_arithmetic (op : Operator) (m n : Int) : Ending (op.arithmetic m n) := by
  cases op with
  | div =>
    simp only [arithmetic]
    split <;> nofun
  | _ => nofun

theorem ending_holds (op : Operator) (lhs rhs : Datum) : Ending (op.holds lhs rhs) := by
  unfold holds
  split <;> nofun

theorem ending_apply {w : Wording} (op : Operator) {lhs rhs : Datum} (left : lhs.references = [])
    (right : rhs.references = []) : Ending (op.apply w lhs rhs) := by
  have complains {α : Type} {complaint : String → String → Except Error α}
      (other : ∀ l r, Ending (complaint l r)) :
      Ending (do let l ← lhs.plain w; let r ← rhs.plain w; complaint l r) :=
    (Datum.ending_plain w left).bind fun l => (Datum.ending_plain w right).bind fun r => other l r
  cases op with
  | other sign => exact .pure _
  | eq | ne =>
    simp only [apply, comparison]
    split
    · exact complains fun _ _ => .throw (by simp)
    · exact .pure _
  | lt | le | gt | ge =>
    simp only [apply, comparison]
    split
    · exact complains fun _ _ => .throw (by simp)
    · exact (ending_holds _ lhs rhs).bind fun _ => .pure _
  | sub | mul | div =>
    simp only [apply]
    split
    · exact ending_arithmetic _ _ _
    · exact complains fun _ _ => .throw (by simp)
  | add =>
    simp only [apply]
    split
    · exact .pure _
    · split
      · exact ending_arithmetic _ _ _
      · exact complains fun _ _ => .throw (by simp)

end Operator

/-! ## Evaluations -/

namespace Eval

/-- An evaluation that comes to an end: it fails for a reason of its own, or it has a good result and leaves
the lists that there were as they were. -/
def Ends {α : Type} (w : World) (x : Eval α) (good : Store → α → Prop) : Prop :=
  match x w with
  | .ok a after => w.store.Extends after.store ∧ good after.store a
  | .error e _ => e ≠ .endless

theorem ends_iff {α : Type} {w : World} {x : Eval α} {good : Store → α → Prop} : Ends w x good ↔
    Finishes w x (fun after a => w.store.Extends after.store ∧ good after.store a) fun _ e => e ≠ .endless :=
  Iff.rfl

namespace Ends

variable {α β : Type} {w : World} {x : Eval α} {good : Store → α → Prop} {lookup : Lookup} {s : Settings}
  {height : Nat}

theorem pure {a : α} (fine : good w.store a) : Ends w (pure a) good := ⟨.refl _, fine⟩

theorem throw {e : Error} (other : e ≠ .endless) : Ends w (throw e) good := other

theorem bind {f : α → Eval β} {best : Store → β → Prop} (first : Ends w x good)
    (next : ∀ a after, w.store.Extends after.store → good after.store a → Ends after (f a) best) :
    Ends w (x >>= f) best := by
  refine ends_iff.2 ((ends_iff.1 first).bind fun a after _ done => ?_)
  have rest := ends_iff.1 (next a after done.1 done.2)
  exact rest.mono (fun _ _ last => ⟨done.1.trans last.1, last.2⟩) fun _ _ other => other

theorem mono {wider : Store → α → Prop} (ends : Ends w x good)
    (widens : ∀ store a, good store a → wider store a) : Ends w x wider :=
  (ends_iff.1 ends).mono (fun _ a done => ⟨done.1, widens _ a done.2⟩) fun _ _ other => other

theorem get {f : World → Eval β} {best : Store → β → Prop} (next : Ends w (f w) best) :
    Ends w (MonadState.get >>= f) best := next

theorem examine {f : Store → Except Error α} (ending : Ending (f w.store))
    (fine : ∀ a, f w.store = .ok a → good w.store a) : Ends w (Eval.examine f) good := by
  unfold Ends
  change match ofExcept (f w.store) w with
    | .ok a after => w.store.Extends after.store ∧ good after.store a
    | .error e _ => e ≠ .endless
  cases computed : f w.store with
  | ok a => exact ⟨.refl _, fine a computed⟩
  | error e =>
    rintro rfl
    exact ending computed

theorem look {f : Store → Except Error α} (ending : Ending (f w.store)) :
    Ends w (Eval.examine f) fun _ _ => True :=
  examine ending fun _ _ => trivial

theorem emit {e : Event} : Ends w (Eval.emit e) fun _ _ => True := ⟨.refl _, trivial⟩

theorem trace {color : Color} {text : Store → Except Error String} (ending : Ending (text w.store)) :
    Ends w (Eval.trace s color text) fun _ _ => True := by
  unfold Eval.trace
  split
  · exact (look ending).bind fun _ _ _ _ => .emit
  · exact .pure trivial

theorem announceResult {t : Term} (nests : Nests lookup w.store height t) (le : height ≤ s.depth) :
    Ends w (Eval.announceResult s t) fun _ _ => True :=
  .trace ((nests.ending_texts le).2.bind nofun)

theorem make {t : Term} (nests : Nests lookup w.store height t) (le : height ≤ s.depth) :
    Ends w (Eval.make s t) fun store u => Nests lookup store height u := by
  refine (trace ((Component.ending_dumpedBindings nests.components le).bind fun _ => .pure _)).bind
    fun _ _ grown _ => ?_
  exact (announceResult (nests.grow grown) le).bind fun _ _ more _ => .pure ((nests.grow grown).grow more)

theorem makeList {items : List Term} (nest : ∀ t ∈ items, Nests lookup w.store height t)
    (lt : height < s.depth) :
    Ends w (Eval.makeList s items) fun store u => Nests lookup store (height + 1) u := by
  have shown : ∀ entry ∈ [("elements", Component.terms items)], entry.2.Nests lookup w.store height := by
    simpa [Component.Nests] using nest
  refine (trace ((Component.ending_dumpedBindings shown (Nat.le_of_lt lt)).bind fun _ => .pure _)).bind
    fun _ w grown _ => ?_
  have made : Ends w (Eval.newList items) fun store u => Nests lookup store (height + 1) u := by
    have more := Store.Extends.allocate w.store items
    refine ⟨more, by rw [Store.size_allocate]; exact Nat.lt_succ_self _, fun t member => ?_⟩
    rw [Store.items_allocate_self] at member
    exact ((nest t member).grow grown).grow more
  refine made.bind fun u _ _ nests => ?_
  exact (announceResult nests lt).bind fun _ _ more _ => .pure (nests.grow more)

theorem copy {t : Term} (plain : t.references = []) (nests : Nests lookup w.store height t) :
    Ends w (Eval.copy t) fun store u => Nests lookup store height u := by
  have copied : Eval.copy t w = .ok t w := by
    change EStateM.Result.ok (w.store.copy t).1 { w with store := (w.store.copy t).2 } = _
    rw [w.store.copy_eq_self t plain]
  unfold Ends
  rw [copied]
  exact ⟨.refl _, nests⟩

theorem mapM {f : Term → Eval Term} {items : List Term}
    (each : ∀ after, w.store.Extends after.store → ∀ t ∈ items,
      Ends after (f t) fun store u => Nests lookup store height u) :
    Ends w (items.mapM f) fun store out => ∀ u ∈ out, Nests lookup store height u := by
  induction items generalizing w with
  | nil => exact .pure (by simp)
  | cons t rest ih =>
    rw [List.mapM_cons]
    refine (each w (.refl _) t List.mem_cons_self).bind fun first _ grown nests => ?_
    refine (ih fun after more u member =>
      each after (grown.trans more) u (List.mem_cons_of_mem t member)).bind fun others _ more nestOthers => ?_
    exact .pure (List.forall_mem_cons.2 ⟨nests.grow more, nestOthers⟩)

end Ends

end Eval

/-! ## Simplification -/

open Eval

namespace Simplify

/-- A way to evaluate terms that comes to an end on those that nest to a height, and makes none that nests
deeper. -/
def Settles (lookup : Lookup) (height : Nat) (f : Term → Eval Term) : Prop :=
  ∀ {w : World} {t : Term}, Nests lookup w.store height t →
    Ends w (f t) fun store u => Nests lookup store height u

/-- A way to replace names by numbers and booleans that comes to an end on terms that nest to a height. -/
def SettlesGiven (lookup : Lookup) (height : Nat) (f : Datum → Term → Term → Eval Term) : Prop :=
  ∀ x value, x.references = [] → value.isArgument → value.references = [] →
    Settles lookup height (f x value)

variable {w : World} {lookup : Lookup} {s : Settings} {height : Nat}

theorem ends_contract {f : Datum → Term → Term → Eval Term} (apply : SettlesGiven lookup height f)
    {rest : List Term} {first : Term} (nests : Nests lookup w.store height first)
    (others : ∀ t ∈ rest, Nests lookup w.store height t) :
    Ends w (contract lookup f first rest) fun store out => ∀ t ∈ out, Nests lookup store height t := by
  induction rest generalizing w first with
  | nil => exact .pure (by simpa using nests)
  | cons next rest ih =>
    rw [List.forall_mem_cons] at others
    unfold contract
    split
    · rename_i parameter body found argument
      obtain ⟨plain, inner⟩ := nests.of_functionOf? found
      refine (apply parameter next plain argument (others.1.references_eq_nil argument) inner).bind
        fun result _ grown fine => ?_
      exact ih fine fun t member => (others.2 t member).grow grown
    · refine (ih others.1 others.2).bind fun out _ grown fine => ?_
      exact .pure (List.forall_mem_cons.2 ⟨nests.grow grown, fine⟩)

theorem ends_contractAll {f : Datum → Term → Term → Eval Term} (apply : SettlesGiven lookup height f)
    {items : List Term} (nest : ∀ t ∈ items, Nests lookup w.store height t) :
    Ends w (contractAll lookup f items) fun store out => ∀ t ∈ out, Nests lookup store height t := by
  cases items with
  | nil => exact .pure nest
  | cons first rest =>
    rw [List.forall_mem_cons] at nest
    exact ends_contract apply nest.1 nest.2

theorem settles_resolve {f : Term → Eval Term} (simplify : Settles lookup height f) :
    Settles lookup height (resolve lookup f) := by
  intro w t nests
  unfold resolve
  split
  · split
    · rename_i bound
      obtain ⟨height, rfl⟩ : ∃ h, height = h + 1 := ⟨height - 1, by have := nests.pos; omega⟩
      exact simplify (nests _ bound).succ
    · exact .pure nests
  · exact .pure nests

theorem ends_apply {op : Operator} {lhs rhs : Datum} (left : lhs.references = [])
    (right : rhs.references = []) :
    Ends w (Eval.apply s op lhs rhs) fun _ result => result.references = [] :=
  .examine (op.ending_apply left right) fun _ computed => Operator.references_of_apply computed

theorem ends_compute {op : Operator} {lhs rhs : Term} (plain : op.sign.references = [])
    (left : Nests lookup w.store height lhs) (right : Nests lookup w.store height rhs) (le : height ≤ s.depth) :
    Ends w (compute s op lhs rhs) fun store u => Nests lookup store height u := by
  obtain ⟨height, rfl⟩ : ∃ h, height = h + 1 := ⟨height - 1, by have := left.pos; omega⟩
  have literal {l r : Datum} {wrap : Datum → Term} (left : l.references = []) (right : r.references = [])
      (nest : ∀ d : Datum, d.references = [] → ∀ store, Nests lookup store (height + 1) (wrap d)) :
      Ends w (do let result ← Eval.apply s op l r; Eval.make s (wrap result))
        fun store u => Nests lookup store (height + 1) u :=
    (ends_apply left right).bind fun result _ _ computed => .make (nest result computed _) le
  unfold compute
  split
  · refine literal left right fun d computed store => ?_
    unfold Simplify.literal
    split <;> exact computed
  · refine literal left right fun d computed store => ?_
    unfold Simplify.literal
    split <;> exact computed
  · refine literal left right fun d computed store => ?_
    unfold stringLiteral Simplify.literal
    repeat' split
    all_goals exact computed
  · exact (Ends.look (Datum.ending_plain _ plain)).bind fun _ _ _ _ => .throw (by simp)

theorem settles_simplified {f : Term → Eval Term} {g : Datum → Term → Term → Eval Term}
    (simplify : Settles lookup height f) (replace : SettlesGiven lookup height g) (lt : height < s.depth) :
    Settles lookup (height + 1) (simplified s lookup f g) := by
  have up {w : World} {x : Eval Term} (ends : Ends w x fun store u => Nests lookup store height u) :
      Ends w x fun store u => Nests lookup store (height + 1) u := ends.mono fun _ _ nests => nests.succ
  intro w t nests
  cases t with
  | int d | bool d | string d => exact .make nests lt
  | name id =>
    simp only [simplified]
    repeat' split
    · exact .make (t := .bool (.bool true)) rfl lt
    · exact .make (t := .bool (.bool false)) rfl lt
    · rename_i bound
      exact up (simplify (nests _ bound))
    · exact .make nests lt
  | nameless id =>
    simp only [simplified]
    split
    · exact .throw (by simp)
    · exact .make nests lt
  | function parameter body =>
    refine (Ends.look (Datum.ending_plain _ nests.1)).bind fun x _ grown _ => ?_
    refine (simplify (nests.2.grow grown)).bind fun b _ _ fine => ?_
    exact .make (t := .function (.text x) b) ⟨rfl, fine⟩ lt
  | operation lhs op rhs =>
    obtain ⟨left, plain, right⟩ := nests
    refine (simplify left).bind fun l _ first fineLeft => ?_
    refine (simplify (right.grow first)).bind fun r _ second fineRight => ?_
    refine (settles_resolve simplify (fineLeft.grow second)).bind fun l _ third fineLeft => ?_
    refine (settles_resolve simplify (fineRight.grow third)).bind fun r _ fourth fineRight => ?_
    exact up (ends_compute plain (fineLeft.grow fourth) fineRight (Nat.le_of_lt lt))
  | conditional condition yes no =>
    obtain ⟨first, second, third⟩ := nests
    refine (simplify first).bind fun c _ grown fine => ?_
    have second := second.grow grown
    have third := third.grow grown
    split
    · split
      · exact up (simplify second)
      · exact up (simplify third)
    · exact .make (t := .conditional _ yes no) ⟨fine, second, third⟩ lt
  | chain items =>
    refine (Ends.mapM fun after grown t member => simplify ((nests t member).grow grown)).bind
      fun items _ _ fine => ?_
    refine (ends_contractAll replace fine).bind fun items _ _ fine => ?_
    split
    · exact up (simplify (fine _ List.mem_cons_self))
    · exact .make (t := .chain _) fine lt
  | list cell =>
    have all := Ends.mapM (w := w) fun after grown t member => simplify ((nests.2 t member).grow grown)
    exact .get (all.bind fun items _ _ fine => .makeList fine lt)
  | wrapped inner =>
    refine (simplify nests).bind fun u after _ fine => ?_
    have shown : ∀ entry ∈ [("expr", Component.term u)], entry.2.Nests lookup after.store height := by
      simpa [Component.Nests] using fine
    refine (Ends.trace ((Component.ending_dumpedBindings shown (Nat.le_of_lt lt)).bind fun _ => .pure _)).bind
      fun _ _ _ _ => ?_
    exact .throw (by simp)
  | itemless kind owner => exact .throw (by simp)
  | unknown kind => exact Ends.emit.bind fun _ _ _ _ => .throw (by simp)
  | datum d => exact .throw (by simp)

theorem settles_replaced {f g : Term → Eval Term} {x : Datum} {value : Term} (argument : value.isArgument)
    (plain : value.references = []) (simplify : Settles lookup height f) (replace : Settles lookup height g)
    (lt : height < s.depth) : Settles lookup (height + 1) (replaced s f x value g) := by
  have up {w : World} {x : Eval Term} (ends : Ends w x fun store u => Nests lookup store height u) :
      Ends w x fun store u => Nests lookup store (height + 1) u := ends.mono fun _ _ nests => nests.succ
  have copied {w : World} : Ends w (Eval.copy value) fun store u => Nests lookup store (height + 1) u :=
    .copy plain (.ofArgument argument plain)
  intro w t nests
  cases t with
  | int d | bool d => exact .make nests lt
  | name id =>
    simp only [replaced]
    repeat' split
    · exact copied
    · exact .make nests lt
    · exact .make nests lt
  | nameless id =>
    simp only [replaced]
    split
    · exact copied
    · exact .make nests lt
  | function parameter body =>
    refine (Ends.look (Datum.ending_plain _ nests.1)).bind fun y _ grown _ => ?_
    refine (replace (nests.2.grow grown)).bind fun b _ _ fine => ?_
    exact .make (t := .function (.text y) b) ⟨rfl, fine⟩ lt
  | operation lhs op rhs =>
    obtain ⟨left, plain, right⟩ := nests
    refine (replace left).bind fun l _ first fineLeft => ?_
    refine (replace (right.grow first)).bind fun r _ second fineRight => ?_
    exact .make (t := .operation l op r) ⟨fineLeft.grow second, plain, fineRight⟩ lt
  | conditional condition yes no =>
    obtain ⟨first, second, third⟩ := nests
    refine (replace first).bind fun c _ early fine => ?_
    refine (simplify fine).bind fun c _ late fine => ?_
    have second := (second.grow early).grow late
    have third := (third.grow early).grow late
    split
    · refine (replace (by split <;> assumption)).bind fun chosen _ _ fine => ?_
      exact up (simplify fine)
    · refine (replace second).bind fun y _ early fineYes => ?_
      refine (replace (third.grow early)).bind fun n _ late fineNo => ?_
      exact .make (t := .conditional _ y n) ⟨(fine.grow early).grow late, fineYes.grow late, fineNo⟩ lt
  | chain items =>
    refine (Ends.mapM fun after grown t member => replace ((nests t member).grow grown)).bind
      fun items _ _ fine => ?_
    exact .make (t := .chain items) fine lt
  | list cell =>
    have all := Ends.mapM (w := w) fun after grown t member => replace ((nests.2 t member).grow grown)
    exact .get (all.bind fun items _ _ fine => .makeList fine lt)
  | wrapped inner | itemless kind owner => exact .throw (by simp)
  | string d | unknown kind | datum d =>
    simp only [replaced]
    refine Ends.emit.bind fun _ _ grown _ => ?_
    split
    · exact (Ends.look ((nests.grow grown).ending_texts lt).1).bind fun _ _ _ _ => .throw (by simp)
    · exact .throw (by simp)

theorem ends_traceReplacement {x : Datum} {value before after : Term} (plain : x.references = [])
    (given : Nests lookup w.store height value) (old : Nests lookup w.store height before)
    (new : Nests lookup w.store height after) (le : height ≤ s.depth) :
    Ends w (traceReplacement s x value before after) fun _ _ => True := by
  unfold traceReplacement
  split
  · refine (Ends.look ((old.ending_texts le).1.bind fun _ => (new.ending_texts le).1.bind fun _ =>
      .pure _)).bind fun changed _ grown _ => ?_
    split
    · refine .trace ((Datum.ending_plain _ plain).bind fun _ => ?_)
      exact ((old.grow grown).ending_texts le).2.bind fun _ => ((given.grow grown).ending_texts le).2.bind
        fun _ => ((new.grow grown).ending_texts le).2.bind fun _ => .pure _
    · exact .pure trivial
  · exact .pure trivial

theorem replacementFailure_ne_endless (x : Datum) (value : Term) (d : Datum) :
    replacementFailure x value d ≠ .endless := by
  unfold replacementFailure
  intro endless
  repeat' split at endless
  all_goals cases endless

/-- Simplification and replacement come to an end within any depth to which a term nests, and make no term
that nests deeper. -/
theorem settles_simplify_replace (s : Settings) (lookup : Lookup) (depth : Nat) :
    ∀ height ≤ depth, height ≤ s.depth →
      Settles lookup height (simplify s lookup depth) ∧ SettlesGiven lookup height (replace s lookup depth) := by
  induction depth with
  | zero =>
    intro height le _
    obtain rfl : height = 0 := by omega
    exact ⟨fun nests => nests.elim, fun _ _ _ _ _ _ _ nests => nests.elim⟩
  | succ depth ih =>
    intro height le room
    cases height with
    | zero => exact ⟨fun nests => nests.elim, fun _ _ _ _ _ _ _ nests => nests.elim⟩
    | succ height =>
      obtain ⟨below, belowReplace⟩ := ih height (by omega) (by omega)
      constructor
      · intro w t nests
        by_cases isDatum : ∃ d, t = .datum d
        · obtain ⟨d, rfl⟩ := isDatum
          exact .throw (by simp)
        · rw [simplify.eq_3 s lookup t depth fun d same => isDatum ⟨d, same⟩]
          refine (Ends.trace ((nests.ending_texts room).2.bind fun _ => .pure _)).bind fun _ _ grown _ => ?_
          have nests := nests.grow grown
          refine (settles_simplified below belowReplace room nests).bind fun result _ grown fine => ?_
          refine (Ends.trace (((nests.grow grown).ending_texts room).2.bind fun _ =>
            (fine.ending_texts room).2.bind fun _ => .pure _)).bind fun _ _ grown _ => ?_
          exact .pure (fine.grow grown)
      · intro x value plain argument plainValue w t nests
        by_cases isDatum : ∃ d, t = .datum d
        · obtain ⟨d, rfl⟩ := isDatum
          exact .throw (replacementFailure_ne_endless x value d)
        · rw [replace.eq_3 s lookup x value t depth fun d same => isDatum ⟨d, same⟩]
          refine (settles_replaced argument plainValue below (belowReplace x value plain argument plainValue)
            room nests).bind fun result _ grown fine => ?_
          refine (ends_traceReplacement plain (.ofArgument argument plainValue) (nests.grow grown) fine room).bind
            fun _ _ grown _ => ?_
          exact .pure (fine.grow grown)

end Simplify

/-! ## Definitions that do not go round in circles -/

/-- A bound name stands somewhere inside what another name stands for. -/
def Uses (store : Store) (lookup : Lookup) (used user : String) : Prop :=
  (lookup.find? used).isSome ∧ ∃ t, lookup.find? user = some t ∧ store.Mentions t used

namespace Nests

variable {lookup : Lookup} {store : Store}

theorem exists_common {items : List Term} (each : ∀ t ∈ items, ∃ height, Nests lookup store height t) :
    ∃ height, ∀ t ∈ items, Nests lookup store height t := by
  induction items with
  | nil => exact ⟨0, by simp⟩
  | cons t rest ih =>
    rw [List.forall_mem_cons] at each
    obtain ⟨⟨height, nests⟩, others⟩ := each
    obtain ⟨more, nest⟩ := ih others
    refine ⟨height + more, List.forall_mem_cons.2 ⟨nests.mono (by omega) (.refl _), fun u member => ?_⟩⟩
    exact (nest u member).mono (by omega) (.refl _)

mutual

/-- A term nests to some height if the items of its lists and what its names stand for do. -/
theorem exists_of_parts : (t : Term) → t.references = [] →
    (∀ cell ∈ t.cells, cell < store.size ∧ ∀ item ∈ store.items cell, ∃ height, Nests lookup store height item) →
    (∀ id ∈ t.names, ∀ value, lookup.find? id = some value → ∃ height, Nests lookup store height value) →
    ∃ height, Nests lookup store height t
  | .int _, plain, _, _ | .bool _, plain, _, _ | .string _, plain, _, _ | .nameless _, plain, _, _
  | .datum _, plain, _, _ => ⟨1, plain⟩
  | .itemless _ _, _, _, _ | .unknown _, _, _, _ => ⟨1, trivial⟩
  | .name id, _, _, values => by
    cases found : lookup.find? id with
    | none => exact ⟨1, fun value bound => by simp [found] at bound⟩
    | some value =>
      obtain ⟨height, nests⟩ := values id (List.mem_singleton_self id) value found
      exact ⟨height + 1, fun other bound => by cases found.symm.trans bound; exact nests⟩
  | .list cell, _, lists, _ => by
    obtain ⟨known, items⟩ := lists cell (List.mem_singleton_self cell)
    obtain ⟨height, nest⟩ := exists_common items
    exact ⟨height + 1, known, nest⟩
  | .wrapped inner, plain, lists, values => by
    obtain ⟨height, nests⟩ := exists_of_parts inner plain lists values
    exact ⟨height + 1, nests⟩
  | .function parameter body, plain, lists, values => by
    rw [Term.references, List.append_eq_nil_iff] at plain
    obtain ⟨height, nests⟩ := exists_of_parts body plain.2 lists values
    exact ⟨height + 1, plain.1, nests⟩
  | .operation lhs op rhs, plain, lists, values => by
    simp only [Term.references, Term.cells, Term.names, List.append_eq_nil_iff, List.forall_mem_append]
      at plain lists values
    obtain ⟨first, left⟩ := exists_of_parts lhs plain.1.1 lists.1 values.1
    obtain ⟨second, right⟩ := exists_of_parts rhs plain.2 lists.2 values.2
    exact ⟨first + second + 1, left.mono (by omega) (.refl _), plain.1.2, right.mono (by omega) (.refl _)⟩
  | .conditional condition yes no, plain, lists, values => by
    simp only [Term.references, Term.cells, Term.names, List.append_eq_nil_iff, List.forall_mem_append]
      at plain lists values
    obtain ⟨first, nestsCondition⟩ := exists_of_parts condition plain.1.1 lists.1.1 values.1.1
    obtain ⟨second, nestsYes⟩ := exists_of_parts yes plain.1.2 lists.1.2 values.1.2
    obtain ⟨third, nestsNo⟩ := exists_of_parts no plain.2 lists.2 values.2
    exact ⟨first + second + third + 1, nestsCondition.mono (by omega) (.refl _),
      nestsYes.mono (by omega) (.refl _), nestsNo.mono (by omega) (.refl _)⟩
  | .chain items, plain, lists, values => by
    obtain ⟨height, nest⟩ := exists_common (exists_of_all items plain lists values)
    exact ⟨height + 1, nest⟩

theorem exists_of_all : (items : List Term) → Term.referencesAll items = [] →
    (∀ cell ∈ Term.cellsAll items,
      cell < store.size ∧ ∀ item ∈ store.items cell, ∃ height, Nests lookup store height item) →
    (∀ id ∈ Term.namesAll items, ∀ value, lookup.find? id = some value →
      ∃ height, Nests lookup store height value) →
    ∀ t ∈ items, ∃ height, Nests lookup store height t
  | [], _, _, _ => by simp
  | t :: rest, plain, lists, values => by
    simp only [Term.referencesAll, Term.cellsAll, Term.namesAll, List.append_eq_nil_iff,
      List.forall_mem_append] at plain lists values
    exact List.forall_mem_cons.2 ⟨exists_of_parts t plain.1 lists.1 values.1,
      exists_of_all rest plain.2 lists.2 values.2⟩

end

/-- A finite term nests to some height if what its names stand for does. -/
theorem exists_of_finite {t : Term} (finite : store.Finite t)
    (values : ∀ id, store.Mentions t id → ∀ value, lookup.find? id = some value →
      ∃ height, Nests lookup store height value) : ∃ height, Nests lookup store height t := by
  induction finite with
  | mk plain known items ih =>
    refine exists_of_parts _ plain (fun cell holds => ⟨known cell holds, fun item member => ?_⟩)
      fun id stands => values id (.here stands)
    exact ih cell holds item member fun id mentions => values id (.inside holds member mentions)

/-- Where definitions do not go round in circles, whatever a name stands for nests to some height. -/
theorem exists_of_acyclic (acyclic : ∀ id, ¬ Relation.TransGen (Uses store lookup) id id)
    (finite : ∀ id t, lookup.find? id = some t → store.Finite t) {id : String} {value : Term}
    (bound : lookup.find? id = some value) : ∃ height, Nests lookup store height value := by
  have strict : IsStrictOrder String (Relation.TransGen (Uses store lookup)) :=
    { irrefl := acyclic, trans := fun _ _ _ => Relation.TransGen.trans }
  have order : {id | id ∈ lookup.names}.WellFoundedOn (Relation.TransGen (Uses store lookup)) :=
    lookup.names.finite_toSet.wellFoundedOn
  have listed {id : String} {value : Term} (bound : lookup.find? id = some value) : id ∈ lookup.names := by
    obtain ⟨front, back, found, -⟩ := List.lookup_eq_some_iff.1 bound
    simp [Bindings.names, found]
  refine order.induction (P := fun id => ∀ value, lookup.find? id = some value →
    ∃ height, Nests lookup store height value) (listed bound) ?_ value bound
  intro user _ ih value bound
  refine exists_of_finite (finite user value bound) fun used mentions other found => ?_
  exact ih used (listed found) (.single ⟨by simp [found], value, bound, mentions⟩) other found

end Nests

/-- The end of an evaluation: it has a result, or it has failed, but not for going too deep. -/
def Eval.Ended {α : Type} : EStateM.Result Error World α → Prop
  | .ok _ _ => True
  | .error e _ => e ≠ .endless

theorem Eval.Ends.ended {α : Type} {w : World} {x : Eval α} {good : Store → α → Prop} (ends : Ends w x good) :
    Ended (x w) := by
  unfold Ends at ends
  cases ended : x w with
  | ok a after => trivial
  | error e after =>
    rw [ended] at ends
    exact ends

/-- Where bound names do not use each other in a circle and stand for terms that do not hold themselves, there
is a depth within which a finite term is simplified, and any name in it replaced by a number or a boolean:
going deeper is never needed. -/
theorem simplify_replace_end {w : World} {lookup : Lookup} (closed : w.store.Closed)
    (known : lookup.Within w.store.size) (acyclic : ∀ id, ¬ Relation.TransGen (Uses w.store lookup) id id)
    (untied : ∀ id t, lookup.find? id = some t → w.store.Untied t) {v : Term}
    (within : v.Within w.store.size) (finite : w.store.Untied v) :
    ∃ enough, ∀ (s : Settings) (depth : Nat), enough ≤ s.depth → enough ≤ depth →
      Ended (simplify s lookup depth v w) ∧
        ∀ (x : String) (n : Term), n.isArgument → n.references = [] →
          Ended (replace s lookup depth (.text x) n v w) := by
  have values : ∀ id t, lookup.find? id = some t → w.store.Finite t := fun id t bound =>
    Store.finite_of_untied closed (known id t bound) (untied id t bound)
  obtain ⟨height, nests⟩ := Nests.exists_of_finite (Store.finite_of_untied closed within finite)
    fun _ _ _ found => Nests.exists_of_acyclic acyclic values found
  refine ⟨height, fun s depth room le => ?_⟩
  obtain ⟨simplifies, replaces⟩ := settles_simplify_replace s lookup depth height le room
  exact ⟨(simplifies nests).ended, fun x n argument plain => (replaces _ n rfl argument plain nests).ended⟩

/-- A function that decides between a list, in which a name stands, and that name. -/
theorem simplify_replace_end_of_choice :
    let lookup : Lookup := [("low", .int (.int 1)),
      ("pick", .function (.text "c") (.conditional (.name "c") (.list 0) (.name "low")))]
    let w : World := ⟨[], ⟨#[[.name "low"]], #[]⟩, #[]⟩
    let v : Term := .chain [.name "pick", .bool (.bool true)]
    w.store.Closed ∧ lookup.Within w.store.size ∧ (∀ id, ¬ Relation.TransGen (Uses w.store lookup) id id) ∧
      (∀ id t, lookup.find? id = some t → w.store.Untied t) ∧ v.Within w.store.size ∧ w.store.Untied v ∧
      ∃ enough, ∀ (s : Settings) (depth : Nat), enough ≤ s.depth → enough ≤ depth →
        Ended (simplify s lookup depth v w) ∧
          ∀ (x : String) (n : Term), n.isArgument → n.references = [] →
            Ended (replace s lookup depth (.text x) n v w) := by
  intro lookup w v
  have items : ∀ cell, ∀ t ∈ w.store.items cell, t = .name "low" := by
    intro cell t member
    cases cell with
    | zero => simpa [w, Store.items] using member
    | succ cell => simp [w, Store.items] at member
  have bound : ∀ id t, lookup.find? id = some t → t = .int (.int 1) ∨
      id = "pick" ∧ t = .function (.text "c") (.conditional (.name "c") (.list 0) (.name "low")) := by
    intro id t found
    simp only [lookup, Bindings.find?, List.lookup_cons] at found
    split at found
    · exact .inl (Option.some.inj found).symm
    · split at found
      · rename_i same
        exact .inr ⟨by simpa using same, (Option.some.inj found).symm⟩
      · cases found
  have untied (t : Term) : w.store.Untied t := by
    intro cell _ item member circle
    cases items cell item member
    cases circle with
    | here holds => cases holds
    | inside holds => cases holds
    | referred refers => cases refers
  have uses : ∀ used user, Uses w.store lookup used user → used = "low" ∧ user = "pick" := by
    rintro used user ⟨known, t, found, mentions⟩
    obtain rfl | ⟨rfl, rfl⟩ := bound user t found
    · cases mentions with
      | here stands => cases stands
      | inside holds => cases holds
    · refine ⟨?_, rfl⟩
      cases mentions with
      | here stands =>
        obtain rfl | rfl : used = "c" ∨ used = "low" := by simpa [Term.names] using stands
        · exact absurd known (by decide)
        · rfl
      | inside holds member onward =>
        cases items _ _ member
        cases onward with
        | here stands => exact List.mem_singleton.1 stands
        | inside holds => cases holds
  have acyclic (id : String) : ¬ Relation.TransGen (Uses w.store lookup) id id := by
    intro circle
    obtain ⟨_, first, -⟩ := Relation.TransGen.head'_iff.1 circle
    obtain ⟨_, -, last⟩ := Relation.TransGen.tail'_iff.1 circle
    exact absurd ((uses _ _ first).1.symm.trans (uses _ _ last).2) (by decide)
  have closed : w.store.Closed := fun cell t member => items cell t member ▸ Term.among_name
  have known : lookup.Within w.store.size := by
    intro id t found
    obtain rfl | ⟨-, rfl⟩ := bound id t found
    · simp [Datum.references]
    · simp [Datum.references, w, Store.size]
  have within : v.Within w.store.size := by simp [v, Datum.references]
  exact ⟨closed, known, acyclic, fun _ t _ => untied t, within, untied v,
    simplify_replace_end closed known acyclic (fun _ t _ => untied t) within (untied v)⟩

end DotLambda
