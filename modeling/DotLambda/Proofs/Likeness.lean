import DotLambda.Proofs.Heap
import Mathlib.Data.List.Forall2

/-!
Structural equality. Two terms, each with the store of its lists, are equal in structure if they are built
alike from the same names and data and their lists have equal items: in which cells the lists lie makes no
difference. A list may hold itself, so which list is taken for which is given as a whole. Main statement:
terms that are equal in structure have the same texts.
-/

namespace DotLambda

/-! ## Stores that go on -/

/-- A store in which there may be more lists and more terms to which data refer, but all that were there are
as they were. -/
structure Store.Continues (before after : Store) : Prop where
  size_le : before.size ≤ after.size
  items_eq : ∀ cell < before.size, after.items cell = before.items cell
  terms_le : before.terms.size ≤ after.terms.size
  term_eq : ∀ cell < before.terms.size, after.term cell = before.term cell

namespace Store.Continues

theorem refl (store : Store) : store.Continues store :=
  ⟨Nat.le_refl _, fun _ _ => rfl, Nat.le_refl _, fun _ _ => rfl⟩

theorem trans {first second third : Store} (early : first.Continues second) (late : second.Continues third) :
    first.Continues third where
  size_le := Nat.le_trans early.size_le late.size_le
  items_eq cell old :=
    (late.items_eq cell (Nat.lt_of_lt_of_le old early.size_le)).trans (early.items_eq cell old)
  terms_le := Nat.le_trans early.terms_le late.terms_le
  term_eq cell old :=
    (late.term_eq cell (Nat.lt_of_lt_of_le old early.terms_le)).trans (early.term_eq cell old)

theorem allocate (store : Store) (items : List Term) : store.Continues (store.allocate items) where
  size_le := by rw [size_allocate]; exact Nat.le_succ _
  items_eq _ old := items_allocate_of_lt store items old
  terms_le := Nat.le_refl _
  term_eq _ _ := rfl

theorem keep (store : Store) (terms : List Term) : store.Continues (store.keep terms) where
  size_le := Nat.le_refl _
  items_eq _ _ := rfl
  terms_le := by simp [Store.keep]
  term_eq _ old := term_keep_of_lt store terms old

end Store.Continues

theorem Store.Extends.continues {store after : Store} (grown : store.Extends after) : store.Continues after where
  size_le := grown.size_le
  items_eq := grown.items_eq
  terms_le := Nat.le_of_eq (by rw [grown.terms_eq])
  term_eq _ _ := by rw [Store.term, Store.term, grown.terms_eq]

/-! ## Terms that are alike -/

/-- What holds of each pair from some number on holds of all from some number on. -/
theorem exists_forall₂_of_mono {α β : Type} {R : Nat → α → β → Prop}
    (mono : ∀ {m n : Nat} {x : α} {y : β}, m ≤ n → R m x y → R n x y) {xs : List α} {ys : List β}
    (each : List.Forall₂ (fun x y => ∃ n, R n x y) xs ys) : ∃ n, List.Forall₂ (R n) xs ys := by
  induction each with
  | nil => exact ⟨0, .nil⟩
  | cons first _ others =>
    obtain ⟨m, first⟩ := first
    obtain ⟨n, others⟩ := others
    refine ⟨max m n, .cons (mono (Nat.le_max_left m n) first) ?_⟩
    exact others.imp fun _ _ is => mono (Nat.le_max_right m n) is

theorem exists_mem_of_forall₂ {α β : Type} {R : α → β → Prop} {xs : List α} {ys : List β} (each : List.Forall₂ R xs ys)
    {x : α} (member : x ∈ xs) : ∃ y ∈ ys, R x y := by
  induction each with
  | nil => cases member
  | cons here _ ih =>
    rcases List.mem_cons.1 member with rfl | member
    · exact ⟨_, List.mem_cons_self, here⟩
    · obtain ⟨y, there, is⟩ := ih member
      exact ⟨y, List.mem_cons_of_mem _ there, is⟩

/-- In what terms may be alike: the names and the data that may stand in them, and which lists are taken for
each other. -/
structure Likeness where
  names : String → Prop
  data : Datum → Prop
  cells : Nat → Nat → Prop

/-- Terms that are the same but for the cells of their lists. -/
inductive Term.Alike (l : Likeness) : Term → Term → Prop where
  | int {d : Datum} (fits : l.data d) : Alike l (.int d) (.int d)
  | bool {d : Datum} (fits : l.data d) : Alike l (.bool d) (.bool d)
  | string {d : Datum} (fits : l.data d) : Alike l (.string d) (.string d)
  | name {id : String} (named : l.names id) : Alike l (.name id) (.name id)
  | nameless {d : Datum} (fits : l.data d) : Alike l (.nameless d) (.nameless d)
  | function {d : Datum} {body body' : Term} (fits : l.data d) (inner : Alike l body body') :
      Alike l (.function d body) (.function d body')
  | operation {op : Operator} {lhs lhs' rhs rhs' : Term} (left : Alike l lhs lhs') (fits : l.data op.sign)
      (right : Alike l rhs rhs') : Alike l (.operation lhs op rhs) (.operation lhs' op rhs')
  | conditional {condition condition' yes yes' no no' : Term} (decides : Alike l condition condition')
      (first : Alike l yes yes') (second : Alike l no no') :
      Alike l (.conditional condition yes no) (.conditional condition' yes' no')
  | nil : Alike l (.chain []) (.chain [])
  | cons {t t' : Term} {rest rest' : List Term} (first : Alike l t t')
      (others : Alike l (.chain rest) (.chain rest')) : Alike l (.chain (t :: rest)) (.chain (t' :: rest'))
  | list {cell cell' : Nat} (paired : l.cells cell cell') : Alike l (.list cell) (.list cell')
  | wrapped {t t' : Term} (inner : Alike l t t') : Alike l (.wrapped t) (.wrapped t')
  | itemless {kind owner : String} : Alike l (.itemless kind owner) (.itemless kind owner)
  | unknown {kind : String} : Alike l (.unknown kind) (.unknown kind)
  | datum {d : Datum} (fits : l.data d) : Alike l (.datum d) (.datum d)

namespace Likeness

/-- At least as much is alike. -/
structure Le (l more : Likeness) : Prop where
  names : ∀ id, l.names id → more.names id
  data : ∀ d, l.data d → more.data d
  cells : ∀ cell cell', l.cells cell cell' → more.cells cell cell'

theorem Le.refl (l : Likeness) : l.Le l := ⟨fun _ is => is, fun _ is => is, fun _ _ is => is⟩

theorem Le.trans {l more most : Likeness} (early : l.Le more) (late : more.Le most) : l.Le most where
  names id is := late.names id (early.names id is)
  data d is := late.data d (early.data d is)
  cells cell cell' is := late.cells cell cell' (early.cells cell cell' is)

/-- The same but for one more pair of lists. -/
def join (l : Likeness) (one other : Nat) : Likeness :=
  { l with cells := fun cell cell' => l.cells cell cell' ∨ cell = one ∧ cell' = other }

theorem le_join (l : Likeness) (one other : Nat) : l.Le (l.join one other) :=
  ⟨fun _ is => is, fun _ is => is, fun _ _ is => .inl is⟩

end Likeness

namespace Term

variable {l more : Likeness} {t t' : Term} {items items' : List Term}

namespace Alike

theorem mono (wider : l.Le more) (alike : Alike l t t') : Alike more t t' := by
  induction alike with
  | int fits => exact .int (wider.data _ fits)
  | bool fits => exact .bool (wider.data _ fits)
  | string fits => exact .string (wider.data _ fits)
  | name named => exact .name (wider.names _ named)
  | nameless fits => exact .nameless (wider.data _ fits)
  | function fits _ inner => exact .function (wider.data _ fits) inner
  | operation _ fits _ left right => exact .operation left (wider.data _ fits) right
  | conditional _ _ _ decides first second => exact .conditional decides first second
  | nil => exact .nil
  | cons _ _ first others => exact .cons first others
  | list paired => exact .list (wider.cells _ _ paired)
  | wrapped _ inner => exact .wrapped inner
  | itemless => exact .itemless
  | unknown => exact .unknown
  | datum fits => exact .datum (wider.data _ fits)

theorem chain (each : List.Forall₂ (Alike l) items items') : Alike l (.chain items) (.chain items') := by
  induction each with
  | nil => exact .nil
  | cons first _ others => exact .cons first others

theorem items_of_chain (alike : Alike l (.chain items) (.chain items')) :
    List.Forall₂ (Alike l) items items' := by
  induction items generalizing items' with
  | nil =>
    cases alike
    exact .nil
  | cons t rest ih =>
    cases alike with
    | cons first others => exact .cons first (ih others)

theorem isArgument_eq (alike : Alike l t t') : t'.isArgument = t.isArgument := by
  cases alike <;> rfl

end Alike

end Term

/-! ## Stores that are alike -/

/-- Two stores whose lists have items that are alike where they are taken for each other, and in which the data
refer to terms that are. -/
structure Likeness.Relates (l : Likeness) (store store' : Store) : Prop where
  here : ∀ cell cell', l.cells cell cell' → cell < store.size
  there : ∀ cell cell', l.cells cell cell' → cell' < store'.size
  items : ∀ cell cell', l.cells cell cell' →
    List.Forall₂ (Term.Alike l) (store.items cell) (store'.items cell')
  referred : ∀ d, l.data d → ∀ cell ∈ d.references, cell < store.terms.size ∧ cell < store'.terms.size ∧
    Term.Alike l (store.term cell) (store'.term cell)

/-- Two terms, each of its store, that are equal in structure. -/
def Store.Equal (store store' : Store) (t t' : Term) : Prop :=
  ∃ l : Likeness, l.Relates store store' ∧ Term.Alike l t t'

namespace Likeness.Relates

variable {l : Likeness} {store store' : Store}

theorem grow {after after' : Store} (relates : l.Relates store store') (here : store.Continues after)
    (there : store'.Continues after') : l.Relates after after' where
  here cell cell' is := Nat.lt_of_lt_of_le (relates.here cell cell' is) here.size_le
  there cell cell' is := Nat.lt_of_lt_of_le (relates.there cell cell' is) there.size_le
  items cell cell' is := by
    rw [here.items_eq cell (relates.here cell cell' is), there.items_eq cell' (relates.there cell cell' is)]
    exact relates.items cell cell' is
  referred d is cell refers := by
    obtain ⟨old, old', alike⟩ := relates.referred d is cell refers
    refine ⟨Nat.lt_of_lt_of_le old here.terms_le, Nat.lt_of_lt_of_le old' there.terms_le, ?_⟩
    rw [here.term_eq cell old, there.term_eq cell old']
    exact alike

/-- Lists with items that are alike can be taken for each other. -/
theorem join (relates : l.Relates store store') {cell cell' : Nat} (here : cell < store.size)
    (there : cell' < store'.size)
    (each : List.Forall₂ (Term.Alike l) (store.items cell) (store'.items cell')) :
    (l.join cell cell').Relates store store' where
  here := by
    rintro c c' (is | ⟨rfl, rfl⟩)
    · exact relates.here c c' is
    · exact here
  there := by
    rintro c c' (is | ⟨rfl, rfl⟩)
    · exact relates.there c c' is
    · exact there
  items := by
    rintro c c' (is | ⟨rfl, rfl⟩)
    · exact (relates.items c c' is).imp fun _ _ alike => alike.mono (l.le_join _ _)
    · exact each.imp fun _ _ alike => alike.mono (l.le_join _ _)
  referred d is c refers := by
    obtain ⟨old, old', alike⟩ := relates.referred d is c refers
    exact ⟨old, old', alike.mono (l.le_join _ _)⟩

end Likeness.Relates

/-! ## Structural equality is an equivalence -/

/-- A likeness the other way round. -/
def Likeness.flip (l : Likeness) : Likeness := { l with cells := fun cell cell' => l.cells cell' cell }

/-- What is alike to what is alike. -/
def Likeness.comp (l m : Likeness) : Likeness where
  names id := l.names id ∧ m.names id
  data d := l.data d ∧ m.data d
  cells cell cell'' := ∃ cell', l.cells cell cell' ∧ m.cells cell' cell''

namespace Term.Alike

variable {l m : Likeness} {t t' t'' : Term}

theorem symm (alike : Alike l t t') : Alike l.flip t' t := by
  induction alike with
  | int fits => exact .int fits
  | bool fits => exact .bool fits
  | string fits => exact .string fits
  | name named => exact .name named
  | nameless fits => exact .nameless fits
  | function fits _ inner => exact .function fits inner
  | operation _ fits _ left right => exact .operation left fits right
  | conditional _ _ _ decides first second => exact .conditional decides first second
  | nil => exact .nil
  | cons _ _ first others => exact .cons first others
  | list paired => exact .list paired
  | wrapped _ inner => exact .wrapped inner
  | itemless => exact .itemless
  | unknown => exact .unknown
  | datum fits => exact .datum fits

theorem trans (alike : Alike l t t') (next : Alike m t' t'') : Alike (l.comp m) t t'' := by
  induction alike generalizing t'' with
  | int fits =>
    cases next with
    | int fits' => exact .int ⟨fits, fits'⟩
  | bool fits =>
    cases next with
    | bool fits' => exact .bool ⟨fits, fits'⟩
  | string fits =>
    cases next with
    | string fits' => exact .string ⟨fits, fits'⟩
  | name named =>
    cases next with
    | name named' => exact .name ⟨named, named'⟩
  | nameless fits =>
    cases next with
    | nameless fits' => exact .nameless ⟨fits, fits'⟩
  | function fits _ inner =>
    cases next with
    | function fits' inner' => exact .function ⟨fits, fits'⟩ (inner inner')
  | operation _ fits _ left right =>
    cases next with
    | operation left' fits' right' => exact .operation (left left') ⟨fits, fits'⟩ (right right')
  | conditional _ _ _ decides first second =>
    cases next with
    | conditional decides' first' second' => exact .conditional (decides decides') (first first') (second second')
  | nil =>
    cases next
    exact .nil
  | cons _ _ first others =>
    cases next with
    | cons first' others' => exact .cons (first first') (others others')
  | list paired =>
    cases next with
    | list paired' => exact .list ⟨_, paired, paired'⟩
  | wrapped _ inner =>
    cases next with
    | wrapped inner' => exact .wrapped (inner inner')
  | itemless =>
    cases next
    exact .itemless
  | unknown =>
    cases next
    exact .unknown
  | datum fits =>
    cases next with
    | datum fits' => exact .datum ⟨fits, fits'⟩

end Term.Alike

theorem Likeness.Relates.flip {l : Likeness} {store store' : Store} (relates : l.Relates store store') :
    l.flip.Relates store' store where
  here cell cell' is := relates.there cell' cell is
  there cell cell' is := relates.here cell' cell is
  items cell cell' is := (relates.items cell' cell is).flip.imp fun _ _ alike => alike.symm
  referred d is cell refers := by
    obtain ⟨old, old', alike⟩ := relates.referred d is cell refers
    exact ⟨old', old, alike.symm⟩

namespace Store.Equal

variable {store store' store'' : Store} {t t' t'' : Term}

theorem symm (equal : store.Equal store' t t') : store'.Equal store t' t := by
  obtain ⟨l, relates, alike⟩ := equal
  exact ⟨l.flip, relates.flip, alike.symm⟩

theorem trans (equal : store.Equal store' t t') (next : store'.Equal store'' t' t'') : store.Equal store'' t t'' := by
  obtain ⟨l, relates, alike⟩ := equal
  obtain ⟨m, relates', alike'⟩ := next
  refine ⟨l.comp m, ⟨?_, ?_, ?_, fun d is cell refers => ?_⟩, alike.trans alike'⟩
  · rintro cell cell'' ⟨cell', is, -⟩
    exact relates.here cell cell' is
  · rintro cell cell'' ⟨cell', -, is⟩
    exact relates'.there cell' cell'' is
  · rintro cell cell'' ⟨cell', is, is'⟩
    have first := Term.Alike.chain (relates.items cell cell' is)
    have second := Term.Alike.chain (relates'.items cell' cell'' is')
    exact (first.trans second).items_of_chain
  · obtain ⟨old, -, alike⟩ := relates.referred d is.1 cell refers
    obtain ⟨-, old'', alike'⟩ := relates'.referred d is.2 cell refers
    exact ⟨old, old'', alike.trans alike'⟩

end Store.Equal

/-! ## Texts -/

namespace Datum

variable {w v : Wording}

mutual

theorem quoted_eq : (d : Datum) → (∀ cell ∈ d.references, w.dumped cell = v.dumped cell) →
    d.quoted w = d.quoted v
  | none, _ | bool _, _ | int _, _ | text _, _ => rfl
  | list items, same => by rw [quoted, quoted, quotedAll_eq items same]
  | term cell, same => same cell (List.mem_singleton_self cell)

theorem quotedAll_eq : (items : List Datum) → (∀ cell ∈ referencesAll items, w.dumped cell = v.dumped cell) →
    quotedAll w items = quotedAll v items
  | [], _ => rfl
  | d :: rest, same => by
    rw [referencesAll, List.forall_mem_append] at same
    rw [quotedAll, quotedAll, quoted_eq d same.1, quotedAll_eq rest same.2]

end

/-- The text of a datum depends on the terms to which it refers only. -/
theorem plain_eq {d : Datum} (prints : ∀ cell ∈ d.references, w.printed cell = v.printed cell)
    (dumps : ∀ cell ∈ d.references, w.dumped cell = v.dumped cell) : d.plain w = d.plain v := by
  cases d with
  | text _ => rfl
  | term cell => exact prints cell (List.mem_singleton_self cell)
  | none | bool _ | int _ | list _ => exact quoted_eq _ dumps

end Datum

theorem mapM_eq_of_forall₂ {α β γ : Type} {f : α → Except Error γ} {g : β → Except Error γ}
    {r : α → β → Prop} {xs : List α} {ys : List β} (each : List.Forall₂ r xs ys)
    (same : ∀ a b, r a b → g b = f a) : ys.mapM g = xs.mapM f := by
  induction each with
  | nil => rfl
  | cons first _ ih => rw [List.mapM_cons, List.mapM_cons, same _ _ first, ih]

namespace Term

variable {l : Likeness} {store store' : Store} {t t' : Term}

/-- Terms that are alike have the same texts. -/
theorem Alike.texts_eq (relates : l.Relates store store') (alike : Alike l t t') (depth : Nat) :
    t'.printed store' depth = t.printed store depth ∧ t'.dumped store' depth = t.dumped store depth := by
  induction depth generalizing t t' with
  | zero => exact ⟨rfl, rfl⟩
  | succ depth ih =>
    have printed {u u' : Term} (alike : Alike l u u') := (ih alike).1
    have dumped {u u' : Term} (alike : Alike l u u') := (ih alike).2
    have prints {d : Datum} (fits : l.data d) (cell : Nat) (refers : cell ∈ d.references) :=
      printed (relates.referred d fits cell refers).2.2
    have dumps {d : Datum} (fits : l.data d) (cell : Nat) (refers : cell ∈ d.references) :=
      dumped (relates.referred d fits cell refers).2.2
    have plain {d : Datum} (fits : l.data d) :
        d.plain (wording store' depth) = d.plain (wording store depth) :=
      Datum.plain_eq (prints fits) (dumps fits)
    have quoted {d : Datum} (fits : l.data d) :
        d.quoted (wording store' depth) = d.quoted (wording store depth) :=
      d.quoted_eq (dumps fits)
    simp only [wording] at plain quoted
    have whole := alike
    cases alike with
    | name | itemless | unknown | wrapped => exact ⟨rfl, rfl⟩
    | int fits | bool fits | string fits | nameless fits | datum fits =>
      constructor <;> simp only [Term.printed, Term.dumped, plain fits, quoted fits]
    | function fits inner =>
      constructor <;> simp only [Term.printed, Term.dumped, plain fits, printed inner, dumped inner]
    | operation left fits right =>
      constructor <;> simp only [Term.printed, Term.dumped, plain fits, printed left, dumped left, printed right,
        dumped right]
    | conditional decides first second =>
      constructor <;> simp only [Term.printed, Term.dumped, printed decides, dumped decides, printed first,
        dumped first, printed second, dumped second]
    | nil | cons =>
      have each := whole.items_of_chain
      constructor
      · simp only [Term.printed, mapM_eq_of_forall₂ each fun _ _ alike => printed alike]
      · simp only [Term.dumped, mapM_eq_of_forall₂ each fun _ _ alike => dumped alike]
    | list paired =>
      have each := relates.items _ _ paired
      constructor
      · simp only [Term.printed, mapM_eq_of_forall₂ each fun _ _ alike => printed alike]
      · simp only [Term.dumped, mapM_eq_of_forall₂ each fun _ _ alike => dumped alike]

end Term

end DotLambda
