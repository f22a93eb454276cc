import DotLambda.Eval

/-!
Which lists a term holds and how stores change. Lists are the only things that change: a term holds lists
directly, and reaches others through the items of those. Main statement: the texts of a term depend on no
list that it does not reach.
-/

namespace DotLambda

namespace Term

mutual

/-- The cells of the lists that a term holds. What stands in these lists is not looked at. -/
def cells : Term → List Nat
  | list cell => [cell]
  | function _ body => body.cells
  | operation lhs _ rhs => lhs.cells ++ rhs.cells
  | conditional condition yes no => condition.cells ++ yes.cells ++ no.cells
  | chain items => cellsAll items
  | wrapped inner => inner.cells
  | int _ | bool _ | string _ | name _ | nameless _ | itemless _ _ | unknown _ | datum _ => []

/-- The cells of the lists that several terms hold. -/
def cellsAll : List Term → List Nat
  | [] => []
  | t :: rest => t.cells ++ cellsAll rest

end

/-- A term that holds lists of some cells only, and whose data refer to no term. -/
structure Among (kept : Nat → Prop) (t : Term) : Prop where
  cells : ∀ cell ∈ t.cells, kept cell
  plain : t.references = []

variable {kept : Nat → Prop}

theorem mem_cellsAll {cell : Nat} {items : List Term} :
    cell ∈ cellsAll items ↔ ∃ t ∈ items, cell ∈ t.cells := by
  induction items with
  | nil => simp [cellsAll]
  | cons t rest ih => simp [cellsAll, ih]

theorem referencesAll_eq_nil {items : List Term} :
    referencesAll items = [] ↔ ∀ t ∈ items, t.references = [] := by
  induction items with
  | nil => simp [referencesAll]
  | cons t rest ih => simp [referencesAll, ih]

theorem among_iff {t : Term} :
    t.Among kept ↔ (∀ cell ∈ t.cells, kept cell) ∧ t.references = [] :=
  ⟨fun among => ⟨among.cells, among.plain⟩, fun both => ⟨both.1, both.2⟩⟩

private theorem among_plain {t : Term} {d : Datum} (cells : t.cells = [])
    (references : t.references = d.references) : t.Among kept ↔ d.references = [] := by
  rw [among_iff, cells, references]
  simp

@[simp] theorem among_int {d : Datum} : (int d).Among kept ↔ d.references = [] := among_plain rfl rfl

@[simp] theorem among_bool {d : Datum} : (bool d).Among kept ↔ d.references = [] := among_plain rfl rfl

@[simp] theorem among_string {d : Datum} : (string d).Among kept ↔ d.references = [] :=
  among_plain rfl rfl

@[simp] theorem among_nameless {d : Datum} : (nameless d).Among kept ↔ d.references = [] :=
  among_plain rfl rfl

@[simp] theorem among_datum {d : Datum} : (datum d).Among kept ↔ d.references = [] :=
  among_plain rfl rfl

@[simp] theorem among_name {id : String} : (name id).Among kept :=
  ⟨fun _ holds => (nomatch holds), rfl⟩

@[simp] theorem among_list {cell : Nat} : (list cell).Among kept ↔ kept cell :=
  ⟨fun among => among.cells cell (List.mem_singleton_self cell),
    fun known => ⟨List.forall_mem_singleton.2 known, rfl⟩⟩

@[simp] theorem among_wrapped {inner : Term} : (wrapped inner).Among kept ↔ inner.Among kept :=
  ⟨fun among => ⟨among.cells, among.plain⟩, fun among => ⟨among.cells, among.plain⟩⟩

@[simp] theorem among_function {d : Datum} {body : Term} :
    (function d body).Among kept ↔ d.references = [] ∧ body.Among kept := by
  rw [among_iff, among_iff]
  change (∀ cell ∈ body.cells, kept cell) ∧ d.references ++ body.references = [] ↔ _
  rw [List.append_eq_nil_iff]
  exact and_left_comm

@[simp] theorem among_operation {lhs rhs : Term} {op : Operator} :
    (operation lhs op rhs).Among kept ↔
      lhs.Among kept ∧ op.sign.references = [] ∧ rhs.Among kept := by
  rw [among_iff, among_iff, among_iff]
  change (∀ cell ∈ lhs.cells ++ rhs.cells, kept cell) ∧
    lhs.references ++ op.sign.references ++ rhs.references = [] ↔ _
  simp only [List.mem_append, List.append_eq_nil_iff, or_imp, forall_and]
  grind

@[simp] theorem among_conditional {condition yes no : Term} :
    (conditional condition yes no).Among kept ↔
      condition.Among kept ∧ yes.Among kept ∧ no.Among kept := by
  rw [among_iff, among_iff, among_iff, among_iff]
  change (∀ cell ∈ condition.cells ++ yes.cells ++ no.cells, kept cell) ∧
    condition.references ++ yes.references ++ no.references = [] ↔ _
  simp only [List.mem_append, List.append_eq_nil_iff, or_imp, forall_and]
  grind

@[simp] theorem among_chain {items : List Term} :
    (chain items).Among kept ↔ ∀ t ∈ items, t.Among kept := by
  rw [among_iff]
  change (∀ cell ∈ cellsAll items, kept cell) ∧ referencesAll items = [] ↔ _
  simp only [among_iff, mem_cellsAll, referencesAll_eq_nil]
  grind

theorem Among.mono {other : Nat → Prop} {t : Term} (among : t.Among kept)
    (wider : ∀ cell, kept cell → other cell) : t.Among other :=
  ⟨fun cell member => wider cell (among.cells cell member), among.plain⟩

end Term

/-! ## Texts -/

namespace Datum

mutual

theorem quoted_congr (w v : Wording) : (d : Datum) → d.references = [] → d.quoted w = d.quoted v
  | none, _ | bool _, _ | int _, _ | text _, _ => rfl
  | list items, plain => by rw [quoted, quoted, quotedAll_congr w v items plain]
  | term _, plain => nomatch plain

theorem quotedAll_congr (w v : Wording) :
    (items : List Datum) → referencesAll items = [] → quotedAll w items = quotedAll v items
  | [], _ => rfl
  | d :: rest, plain => by
    rw [referencesAll, List.append_eq_nil_iff] at plain
    rw [quotedAll, quotedAll, quoted_congr w v d plain.1, quotedAll_congr w v rest plain.2]

end

/-- The text of a datum that refers to no term does not depend on the terms. -/
theorem plain_congr (w v : Wording) {d : Datum} (plain : d.references = []) :
    d.plain w = d.plain v := by
  cases d with
  | text _ => rfl
  | term _ => exact nomatch plain
  | none | bool _ | int _ | list _ => exact quoted_congr w v _ plain

end Datum

private theorem mapM_congr {m : Type → Type} [Monad m] [LawfulMonad m] {α β : Type} {f g : α → m β}
    {items : List α} (same : ∀ a ∈ items, f a = g a) : items.mapM f = items.mapM g := by
  induction items with
  | nil => rfl
  | cons a rest ih =>
    rw [List.mapM_cons, List.mapM_cons, same a List.mem_cons_self,
      ih fun b member => same b (List.mem_cons_of_mem a member)]

/-- Two stores in which a term has the same texts, to a depth. -/
def Store.Words (store other : Store) (depth : Nat) (t : Term) : Prop :=
  t.printed other depth = t.printed store depth ∧ t.dumped other depth = t.dumped store depth

/-- Where lists of some cells hold only lists of these cells, and another store has the same items in
them, terms that hold only such lists have the same texts. -/
theorem Store.words_of_same {store other : Store} {kept : Nat → Prop}
    (closed : ∀ cell, kept cell → ∀ t ∈ store.items cell, t.Among kept)
    (same : ∀ cell, kept cell → other.items cell = store.items cell) (depth : Nat) {t : Term}
    (among : t.Among kept) : store.Words other depth t := by
  induction depth generalizing t with
  | zero => exact ⟨rfl, rfl⟩
  | succ depth ih =>
    have plain {d : Datum} (none : d.references = []) :=
      Datum.plain_congr (Term.wording other depth) (Term.wording store depth) none
    have quoted {d : Datum} (none : d.references = []) :=
      Datum.quoted_congr (Term.wording other depth) (Term.wording store depth) d none
    simp only [Term.wording] at plain quoted
    cases t with
    | name id | wrapped inner | itemless kind owner | unknown kind => exact ⟨rfl, rfl⟩
    | int d | bool d | string d | nameless d | datum d =>
      have none : d.references = [] := by simpa using among
      constructor <;> simp only [Term.printed, Term.dumped, plain none, quoted none]
    | function parameter body =>
      obtain ⟨none, inner⟩ := Term.among_function.1 among
      constructor <;> simp only [Term.printed, Term.dumped, plain none, (ih inner).1, (ih inner).2]
    | operation lhs op rhs =>
      obtain ⟨left, none, right⟩ := Term.among_operation.1 among
      constructor <;> simp only [Term.printed, Term.dumped, plain none, (ih left).1, (ih left).2,
        (ih right).1, (ih right).2]
    | conditional condition yes no =>
      obtain ⟨first, second, third⟩ := Term.among_conditional.1 among
      constructor <;> simp only [Term.printed, Term.dumped, (ih first).1, (ih first).2, (ih second).1,
        (ih second).2, (ih third).1, (ih third).2]
    | chain items =>
      have each := Term.among_chain.1 among
      constructor
      · simp only [Term.printed, mapM_congr fun t member => (ih (each t member)).1]
      · simp only [Term.dumped, mapM_congr fun t member => (ih (each t member)).2]
    | list cell =>
      have known := Term.among_list.1 among
      have each := closed cell known
      constructor
      · simp only [Term.printed, same cell known, mapM_congr fun t member => (ih (each t member)).1]
      · simp only [Term.dumped, same cell known, mapM_congr fun t member => (ih (each t member)).2]

/-! ## Reaching lists -/

/-- A term that holds lists of a store only. -/
abbrev Term.Within (size : Nat) (t : Term) : Prop := t.Among (· < size)

namespace Store

/-- A term reaches a list: it holds the list, or an item of a list that it holds reaches it, or a term to
which its data refer does. -/
inductive Reaches (store : Store) : Term → Nat → Prop where
  | here {t : Term} {cell : Nat} (holds : cell ∈ t.cells) : Reaches store t cell
  | inside {t item : Term} {between cell : Nat} (holds : between ∈ t.cells)
      (member : item ∈ store.items between) (onward : Reaches store item cell) : Reaches store t cell
  | referred {t : Term} {between cell : Nat} (refers : between ∈ t.references)
      (onward : Reaches store (store.term between) cell) : Reaches store t cell

/-- A store whose lists hold only lists of the store. -/
def Closed (store : Store) : Prop := ∀ cell, ∀ t ∈ store.items cell, t.Within store.size

theorem items_of_le {store : Store} {cell : Nat} (outside : store.size ≤ cell) :
    store.items cell = [] := by
  simp only [size] at outside
  simp [items, outside]

theorem lt_size_of_reaches {store : Store} (closed : store.Closed) {t : Term} {cell : Nat}
    (within : t.Within store.size) (reaches : store.Reaches t cell) : cell < store.size := by
  induction reaches with
  | here holds => exact within.cells _ holds
  | inside holds member onward ih => exact ih (closed _ _ member)
  | referred refers onward ih => exact absurd refers (by simp [within.plain])

/-- A change to one list changes no text of a term that does not reach it. -/
theorem words_of_unreached {store other : Store} (closed : store.Closed) {changed : Nat}
    (same : ∀ cell < store.size, cell ≠ changed → other.items cell = store.items cell) {t : Term}
    (within : t.Within store.size) (unreached : ¬ store.Reaches t changed) (depth : Nat) :
    store.Words other depth t := by
  -- The cells that do not lead to the changed one.
  let kept (cell : Nat) : Prop :=
    cell < store.size ∧ cell ≠ changed ∧ ∀ item ∈ store.items cell, ¬ store.Reaches item changed
  have among {u : Term} (inside : u.Within store.size) (free : ¬ store.Reaches u changed) :
      u.Among kept := by
    refine ⟨fun cell holds => ⟨inside.cells cell holds, ?_, ?_⟩, inside.plain⟩
    · rintro rfl
      exact free (.here holds)
    · exact fun item member reaches => free (.inside holds member reaches)
  refine words_of_same ?_ ?_ depth (among within unreached)
  · exact fun cell known item member => among (closed cell item member) (known.2.2 item member)
  · exact fun cell known => same cell known.1 known.2.1

/-- A store in which there may be more lists, but all that were there are as they were. -/
structure Extends (before after : Store) : Prop where
  size_le : before.size ≤ after.size
  items_eq : ∀ cell < before.size, after.items cell = before.items cell
  terms_eq : after.terms = before.terms

namespace Extends

theorem refl (store : Store) : store.Extends store := ⟨Nat.le_refl _, fun _ _ => rfl, rfl⟩

theorem trans {first second third : Store} (early : first.Extends second)
    (late : second.Extends third) : first.Extends third where
  size_le := Nat.le_trans early.size_le late.size_le
  items_eq cell old :=
    (late.items_eq cell (Nat.lt_of_lt_of_le old early.size_le)).trans (early.items_eq cell old)
  terms_eq := late.terms_eq.trans early.terms_eq

theorem allocate (store : Store) (items : List Term) : store.Extends (store.allocate items) where
  size_le := by rw [size_allocate]; exact Nat.le_succ _
  items_eq _ old := items_allocate_of_lt store items old
  terms_eq := rfl

end Extends

/-- A store in which one list has one more item at its end; there may be more lists, but all others that
were there are as they were. -/
structure Appends (before after : Store) (cell : Nat) (item : Term) : Prop where
  size_le : before.size ≤ after.size
  items_self : after.items cell = before.items cell ++ [item]
  items_eq : ∀ other < before.size, other ≠ cell → after.items other = before.items other
  terms_eq : after.terms = before.terms

theorem Extends.append {before middle : Store} (grown : before.Extends middle) {cell : Nat} (item : Term)
    (old : cell < before.size) : before.Appends (middle.append cell item) cell item where
  size_le := by rw [size_append]; exact grown.size_le
  items_self := by
    rw [items_append_self middle item (Nat.lt_of_lt_of_le old grown.size_le), grown.items_eq cell old]
  items_eq other known different := by
    rw [items_append_of_ne middle item different, grown.items_eq other known]
  terms_eq := grown.terms_eq

theorem Closed.allocate {store : Store} (closed : store.Closed) {items : List Term}
    (within : ∀ t ∈ items, t.Within store.size) : (store.allocate items).Closed := by
  intro cell t member
  have wider : t.Within store.size := by
    rcases Nat.lt_trichotomy cell store.size with old | rfl | beyond
    · rw [items_allocate_of_lt store items old] at member
      exact closed cell t member
    · rw [items_allocate_self] at member
      exact within t member
    · rw [items_of_le (by rw [size_allocate]; exact beyond)] at member
      exact nomatch member
  exact wider.mono fun c old => by rw [size_allocate]; exact Nat.lt_succ_of_lt old

theorem Closed.append {store : Store} (closed : store.Closed) {cell : Nat} {item : Term}
    (within : item.Within store.size) : (store.append cell item).Closed := by
  intro other t member
  rw [size_append]
  by_cases same : other = cell
  · subst same
    by_cases old : other < store.size
    · rw [items_append_self store item old, List.mem_append, List.mem_singleton] at member
      rcases member with before | rfl
      · exact closed other t before
      · exact within
    · rw [items_of_le (by rw [size_append]; exact Nat.not_lt.1 old)] at member
      exact nomatch member
  · rw [items_append_of_ne store item same] at member
    exact closed other t member

end Store

end DotLambda
