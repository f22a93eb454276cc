import DotLambda.Proofs.Equations
import DotLambda.Proofs.Frame
import Mathlib.Data.List.Forall2

/-!
Terms of two runs that go side by side. In the second run names may be called differently, and one name of
the first run may stand where the second has a number. Main statement: terms that are twins in this sense
have the same texts up to the names in them, and the same texts where no name is called differently.
-/

namespace DotLambda

/-- How the terms of two runs are paired. -/
structure Pairing where
  /-- What a name of the first run is called in the second. -/
  rename : String → String
  /-- The names that may stand in the terms of the first run, other than the blank. -/
  names : String → Prop
  /-- A name of the first run that stands for a number of the second. -/
  blank : Option (String × Nat)
  injective : Function.Injective rename
  rename_true : rename "true" = "true"
  rename_false : rename "false" = "false"
  unenclosed : ∀ id, rename id ≠ id → '(' ∉ id.toList
  blank_ne_true : ∀ n, blank ≠ some ("true", n)
  blank_ne_false : ∀ n, blank ≠ some ("false", n)

/-- Where there is no blank, nothing is one. -/
theorem Pairing.none_ne_blank (id : String) (n : Nat) : none ≠ some (id, n) := nofun

/-- The lists that both runs know, by their cells. Only those that may be mixed may hold the blank. -/
abbrev Known : Type := Bool → Nat → Prop

namespace Known

/-- At least as many lists are known, and each is as mixed as before. -/
def Le (known more : Known) : Prop := ∀ mixed cell, known mixed cell → more mixed cell

/-- What holds no blank may stand where a blank might. -/
def Graded (known : Known) : Prop := ∀ cell, known false cell → known true cell

variable {known more most : Known}

theorem Le.refl (known : Known) : known.Le known := fun _ _ is => is

theorem Le.trans (early : known.Le more) (late : more.Le most) : known.Le most :=
  fun mixed cell is => late mixed cell (early mixed cell is)

end Known

namespace Pairing

/-- A name that stands for a number of the second run. -/
def IsBlank (p : Pairing) (id : String) : Prop := ∃ n, p.blank = some (id, n)

/-- A name that may stand in the terms of the first run and stands for itself. -/
structure Ordinary (p : Pairing) (id : String) : Prop where
  named : p.names id
  other : ¬ p.IsBlank id

/-- A pairing that calls every name as it is. -/
def Exact (p : Pairing) : Prop := ∀ id, p.rename id = id

variable {p : Pairing} {id : String}

theorem rename_eq_true : p.rename id = "true" ↔ id = "true" :=
  ⟨fun called => p.injective (called.trans p.rename_true.symm), fun is => is ▸ p.rename_true⟩

theorem rename_eq_false : p.rename id = "false" ↔ id = "false" :=
  ⟨fun called => p.injective (called.trans p.rename_false.symm), fun is => is ▸ p.rename_false⟩

end Pairing

/-- Terms that are alike up to the names in them. Where a term is mixed, the blank may stand for its number,
but in no operand and no argument; all else is alike without it. -/
inductive Twin (p : Pairing) (known : Known) : Bool → Term → Term → Prop where
  | int {mixed : Bool} {d : Datum} (plain : d.references = []) : Twin p known mixed (.int d) (.int d)
  | bool {mixed : Bool} {d : Datum} (plain : d.references = []) : Twin p known mixed (.bool d) (.bool d)
  | string {mixed : Bool} {d : Datum} (plain : d.references = []) :
      Twin p known mixed (.string d) (.string d)
  | name {mixed : Bool} {id : String} (ordinary : p.Ordinary id) :
      Twin p known mixed (.name id) (.name (p.rename id))
  | blank {x : String} {n : Nat} (is : p.blank = some (x, n)) : Twin p known true (.name x) (.int (.int n))
  | function {mixed inside : Bool} {y : String} {body body' : Term} (le : inside = true → mixed = true)
      (free : inside = true → ¬ p.IsBlank y) (inner : Twin p known inside body body') :
      Twin p known mixed (.function (.text y) body) (.function (.text (p.rename y)) body')
  | operation {mixed : Bool} {op : Operator} {lhs lhs' rhs rhs' : Term} (left : Twin p known false lhs lhs')
      (plain : op.sign.references = []) (right : Twin p known false rhs rhs') :
      Twin p known mixed (.operation lhs op rhs) (.operation lhs' op rhs')
  | conditional {mixed : Bool} {condition condition' yes yes' no no' : Term}
      (decides : Twin p known mixed condition condition') (first : Twin p known mixed yes yes')
      (second : Twin p known mixed no no') :
      Twin p known mixed (.conditional condition yes no) (.conditional condition' yes' no')
  | pair {mixed : Bool} {first first' last last' : Term} (head : Twin p known mixed first first')
      (next : Twin p known false last last') :
      Twin p known mixed (.chain [first, last]) (.chain [first', last'])
  | more {mixed : Bool} {first first' next next' : Term} {rest rest' : List Term}
      (head : Twin p known mixed first first')
      (others : Twin p known false (.chain (next :: rest)) (.chain (next' :: rest'))) :
      Twin p known mixed (.chain (first :: next :: rest)) (.chain (first' :: next' :: rest'))
  | list {mixed : Bool} {cell : Nat} (is : known mixed cell) : Twin p known mixed (.list cell) (.list cell)

/-- Terms in a row that are twins one by one. -/
abbrev Twins (p : Pairing) (known : Known) (mixed : Bool) : List Term → List Term → Prop :=
  List.Forall₂ (Twin p known mixed)

/-- Terms in a row that are twins one by one, of which only the first may be mixed. -/
inductive Headed (p : Pairing) (known : Known) (mixed : Bool) : List Term → List Term → Prop where
  | cons {first first' : Term} {rest rest' : List Term} (head : Twin p known mixed first first')
      (others : Twins p known false rest rest') : Headed p known mixed (first :: rest) (first' :: rest')

variable {p : Pairing} {known more : Known} {mixed : Bool}

namespace Twin

theorem mono {t t' : Term} (twin : Twin p known mixed t t') (wider : known.Le more) :
    Twin p more mixed t t' := by
  induction twin with
  | int plain => exact .int plain
  | bool plain => exact .bool plain
  | string plain => exact .string plain
  | name ordinary => exact .name ordinary
  | blank is => exact .blank is
  | function le free _ ih => exact .function le free ih
  | operation _ plain _ left right => exact .operation left plain right
  | conditional _ _ _ decides first second => exact .conditional decides first second
  | pair _ _ head next => exact .pair head next
  | more _ _ head others => exact .more head others
  | list is => exact .list (wider _ _ is)

/-- What is alike without the blank is alike where it may stand. -/
theorem weaken {t t' : Term} (graded : known.Graded) (twin : Twin p known false t t') :
    Twin p known mixed t t' := by
  generalize same : false = closed at twin
  induction twin with
  | int plain => exact .int plain
  | bool plain => exact .bool plain
  | string plain => exact .string plain
  | name ordinary => exact .name ordinary
  | blank is => cases same
  | function le free inner =>
    subst same
    exact .function (fun is => nomatch le is) free inner
  | operation left plain right => exact .operation left plain right
  | conditional _ _ _ decides first second =>
    exact .conditional (decides same) (first same) (second same)
  | pair _ next head => exact .pair (head same) next
  | more _ others head => exact .more (head same) others
  | @list _ cell is =>
    subst same
    cases mixed with
    | false => exact .list is
    | true => exact .list (graded cell is)

theorem grade {mixed' : Bool} {t t' : Term} (graded : known.Graded) (le : mixed = true → mixed' = true)
    (twin : Twin p known mixed t t') : Twin p known mixed' t t' := by
  cases mixed with
  | false => exact twin.weaken graded
  | true =>
    rw [le rfl]
    exact twin

theorem eq_int {t : Term} {d : Datum} (twin : Twin p known false t (.int d)) :
    t = .int d ∧ d.references = [] := by
  cases twin with
  | int plain => exact ⟨rfl, plain⟩

theorem eq_bool {t : Term} {d : Datum} (twin : Twin p known mixed t (.bool d)) :
    t = .bool d ∧ d.references = [] := by
  cases twin with
  | bool plain => exact ⟨rfl, plain⟩

theorem eq_string {t : Term} {d : Datum} (twin : Twin p known mixed t (.string d)) :
    t = .string d ∧ d.references = [] := by
  cases twin with
  | string plain => exact ⟨rfl, plain⟩

theorem kind_eq {t t' : Term} (twin : Twin p known false t t') : t'.kind = t.kind := by
  cases twin <;> rfl

/-- A datum has no twin. -/
theorem proper {t t' : Term} (twin : Twin p known mixed t t') : (∀ d, t ≠ .datum d) ∧ ∀ d, t' ≠ .datum d := by
  cases twin <;> exact ⟨nofun, nofun⟩

/-- Without the blank, an argument is the same on both sides. -/
theorem eq_of_isArgument {t t' : Term} (twin : Twin p known false t t') (argument : t.isArgument = true) :
    t' = t ∧ t.references = [] := by
  cases twin with
  | int plain | bool plain => exact ⟨rfl, plain⟩
  | string | name | function | operation | conditional | pair | more | list => cases argument

theorem ofArgument {t : Term} (argument : t.isArgument = true) (plain : t.references = []) :
    Twin p known mixed t t := by
  cases t with
  | int d => exact .int plain
  | bool d => exact .bool plain
  | string | name | nameless | function | operation | conditional | chain | list | wrapped | itemless | unknown
  | datum => cases argument

theorem isArgument_eq {t t' : Term} (twin : Twin p known false t t') : t'.isArgument = t.isArgument := by
  cases twin <;> rfl

/-- Chains of at least two items are twins if their items are. -/
theorem chain {first first' next next' : Term} {rest rest' : List Term}
    (head : Twin p known mixed first first') (second : Twin p known false next next')
    (others : Twins p known false rest rest') :
    Twin p known mixed (.chain (first :: next :: rest)) (.chain (first' :: next' :: rest')) := by
  induction others generalizing mixed first first' next next' with
  | nil => exact .pair head second
  | cons third _ ih => exact .more head (ih second third)

theorem ofHeaded {items items' : List Term} (long : 2 ≤ items.length)
    (headed : Headed p known mixed items items') : Twin p known mixed (.chain items) (.chain items') := by
  obtain ⟨head, others⟩ := headed
  cases others with
  | nil => simp at long
  | cons second others => exact .chain head second others

theorem headed {items : List Term} {t' : Term} (twin : Twin p known mixed (.chain items) t') :
    ∃ items', t' = .chain items' ∧ 2 ≤ items.length ∧ Headed p known mixed items items' := by
  generalize same : Term.chain items = t at twin
  induction twin generalizing items with
  | pair head next =>
    cases same
    exact ⟨_, rfl, Nat.le_refl 2, .cons head (.cons next .nil)⟩
  | more head _ _ ih =>
    cases same
    obtain ⟨_, following, long, headed⟩ := ih rfl
    cases following
    obtain ⟨second, others⟩ := headed
    exact ⟨_, rfl, Nat.le_succ_of_le long, .cons head (.cons second others)⟩
  | int | bool | string | name | blank | function | operation | conditional | list => cases same

end Twin

theorem Twins.mono {items items' : List Term} (twins : Twins p known mixed items items')
    (wider : known.Le more) : Twins p more mixed items items' :=
  twins.imp fun _ _ twin => twin.mono wider

theorem Twins.grade {mixed' : Bool} {items items' : List Term} (graded : known.Graded)
    (le : mixed = true → mixed' = true) (twins : Twins p known mixed items items') :
    Twins p known mixed' items items' :=
  twins.imp fun _ _ twin => twin.grade graded le

namespace Headed

variable {items items' : List Term}

theorem twins (headed : Headed p known false items items') : Twins p known false items items' := by
  obtain ⟨head, others⟩ := headed
  exact .cons head others

end Headed

/-! ## Names -/

/-- A name that stands for a term, and what it is called in the second run for a twin, if it may stand in the
terms. -/
structure PairedEntry (p : Pairing) (known : Known) (entry entry' : String × Term) : Prop where
  named : entry'.1 = p.rename entry.1
  twin : p.names entry.1 → Twin p known false entry.2 entry'.2

/-- Names that stand for twins, each under what it is called in its run. The blank stands for nothing. -/
structure Lookups (p : Pairing) (known : Known) (lookup lookup' : Bindings Term) : Prop where
  entries : List.Forall₂ (PairedEntry p known) lookup lookup'
  unbound : ∀ id, p.IsBlank id → lookup.find? id = none

theorem PairedEntry.mono {entry entry' : String × Term} (paired : PairedEntry p known entry entry')
    (wider : known.Le more) : PairedEntry p more entry entry' :=
  ⟨paired.named, fun named => (paired.twin named).mono wider⟩

/-- Two optional terms that are twins, if they are there. -/
inductive Found (p : Pairing) (known : Known) : Option Term → Option Term → Prop where
  | none : Found p known none none
  | some {t t' : Term} (twin : Twin p known false t t') : Found p known (some t) (some t')

namespace Lookups

variable {lookup lookup' : Bindings Term}

theorem mono (lookups : Lookups p known lookup lookup') (wider : known.Le more) :
    Lookups p more lookup lookup' where
  entries := lookups.entries.imp fun _ _ entry => entry.mono wider
  unbound := lookups.unbound

theorem find? (lookups : Lookups p known lookup lookup') {id : String} (named : p.names id) :
    Found p known (lookup.find? id) (lookup'.find? (p.rename id)) := by
  have entries := lookups.entries
  clear lookups
  unfold Bindings.find?
  induction entries with
  | nil => exact .none
  | @cons entry entry' rest rest' twin _ ih =>
    obtain ⟨bound, t⟩ := entry
    obtain ⟨bound', t'⟩ := entry'
    obtain ⟨called, twin⟩ := twin
    dsimp only at called twin
    subst called
    rw [List.lookup_cons, List.lookup_cons]
    by_cases same : id = bound
    · subst same
      simpa using Found.some (twin named)
    · have unequal : (id == bound) = false := by simpa using same
      have unequal' : (p.rename id == p.rename bound) = false := by
        simpa using fun called => same (p.injective called)
      rw [unequal, unequal']
      exact ih

theorem insert (lookups : Lookups p known lookup lookup') {id : String} (other : ¬ p.IsBlank id)
    {t t' : Term} (twin : Twin p known false t t') :
    Lookups p known (lookup.insert id t) (lookup'.insert (p.rename id) t') := by
  constructor
  · have entries := lookups.entries
    clear lookups
    induction entries with
    | nil => exact .cons ⟨rfl, fun _ => twin⟩ .nil
    | @cons entry entry' rest rest' pair others ih =>
      obtain ⟨bound, u⟩ := entry
      obtain ⟨bound', u'⟩ := entry'
      obtain ⟨named, old⟩ := pair
      dsimp only at named old
      subst named
      unfold Bindings.insert
      by_cases same : bound = id
      · subst same
        rw [if_pos rfl, if_pos rfl]
        exact .cons ⟨rfl, fun _ => twin⟩ others
      · have unequal : p.rename bound ≠ p.rename id := fun named => same (p.injective named)
        rw [if_neg same, if_neg unequal]
        exact .cons ⟨rfl, old⟩ ih
  · intro x blank
    have different : x ≠ id := by
      rintro rfl
      exact other blank
    rw [Bindings.find?_insert_of_ne t lookup different]
    exact lookups.unbound x blank

end Lookups

/-! ## Texts -/

/-- Results of two computations of which one may be given less depth than the other, and then may run out of
it. Otherwise both succeed and the results are good, or both fail alike. -/
def Agree {α β : Type} (slack : Bool) (good : α → β → Prop) : Except Error α → Except Error β → Prop
  | .ok a, .ok b => good a b
  | .error e, .error e' => slack = true ∧ e = .endless ∨ e' = e
  | .error e, .ok _ => slack = true ∧ e = .endless
  | .ok _, .error _ => False

/-- Two depths of which the first may be less only where there is slack. -/
structure Deeper (slack : Bool) (depth depth' : Nat) : Prop where
  le : depth ≤ depth'
  eq : slack = false → depth' = depth

namespace Deeper

variable {slack : Bool} {depth depth' : Nat}

theorem pred (deeper : Deeper slack (depth + 1) depth') :
    ∃ below, depth' = below + 1 ∧ Deeper slack depth below := by
  obtain ⟨le, eq⟩ := deeper
  obtain ⟨below, rfl⟩ : ∃ below, depth' = below + 1 := ⟨depth' - 1, by omega⟩
  exact ⟨below, rfl, by omega, fun strict => by have := eq strict; omega⟩

theorem zero (deeper : Deeper slack 0 depth') : slack = true ∨ depth' = 0 := by
  cases slack with
  | false => exact .inr (deeper.eq rfl)
  | true => exact .inl rfl

end Deeper

namespace Agree

variable {α β γ δ : Type} {slack : Bool} {good : α → β → Prop}

theorem refl {x : Except Error α} {good : α → α → Prop} (fine : ∀ a, x = .ok a → good a a) :
    Agree slack good x x := by
  cases x with
  | ok a => exact fine a rfl
  | error e => exact .inr rfl

theorem endless {x : Except Error β} (runs : slack = true) : Agree slack good (.error .endless) x := by
  cases x with
  | ok b => exact ⟨runs, rfl⟩
  | error e => exact .inl ⟨runs, rfl⟩

theorem bind {x : Except Error α} {x' : Except Error β} {f : α → Except Error γ} {f' : β → Except Error δ}
    {best : γ → δ → Prop} (first : Agree slack good x x') (next : ∀ a b, good a b → Agree slack best (f a) (f' b)) :
    Agree slack best (x >>= f) (x' >>= f') := by
  cases x with
  | ok a =>
    cases x' with
    | ok b => exact next a b first
    | error e => exact first.elim
  | error e =>
    cases x' with
    | ok b =>
      obtain ⟨runs, rfl⟩ := first
      exact endless runs
    | error e' =>
      rcases first with ⟨runs, rfl⟩ | rfl
      · exact endless runs
      · exact .inr rfl

theorem mapM {f f' : Term → Except Error String} {items items' : List Term} {like : Term → Term → Prop}
    {best : String → String → Prop} (each : List.Forall₂ like items items')
    (step : ∀ t t', like t t' → Agree slack best (f t) (f' t')) :
    Agree slack (List.Forall₂ best) (items.mapM f) (items'.mapM f') := by
  induction each with
  | nil => exact .nil
  | cons twin _ ih =>
    rw [List.mapM_cons, List.mapM_cons]
    exact (step _ _ twin).bind fun a b fine => ih.bind fun as bs others => List.Forall₂.cons fine others

end Agree

/-- A text with a space in it. -/
def Spaced (text : String) : Prop := ' ' ∈ text.toList

instance (text : String) : Decidable (Spaced text) := inferInstanceAs (Decidable (' ' ∈ text.toList))

/-- Texts that are the same, or both have a space in them, or are a name and what it is called. Where no name
is called differently they are the same. -/
inductive Pairing.Like (p : Pairing) : String → String → Prop where
  | same (text : String) : Like p text text
  | spaced {text text' : String} (inexact : ¬ p.Exact) (here : Spaced text) (there : Spaced text') :
      Like p text text'
  | named {id : String} (moved : p.rename id ≠ id) : Like p id (p.rename id)

namespace Pairing.Like

theorem eq {text text' : String} (like : p.Like text text') (exact : p.Exact) : text' = text := by
  cases like with
  | same => rfl
  | spaced inexact => exact absurd exact inexact
  | named moved => exact absurd (exact text) moved

theorem ofSpaced {text text' : String} (same : p.Exact → text' = text) (here : Spaced text)
    (there : Spaced text') : p.Like text text' := by
  by_cases exact : p.Exact
  · rw [same exact]
    exact .same text
  · exact .spaced exact here there

theorem all_eq {texts texts' : List String} (like : List.Forall₂ p.Like texts texts') (exact : p.Exact) :
    texts' = texts := by
  induction like with
  | nil => rfl
  | cons first _ ih => rw [first.eq exact, ih]

end Pairing.Like

/-- A text keeps its spaces when parentheses are peeled off. -/
theorem Text.Peeled.spaced_peel {opening closing s : String} (opens : opening.toList.head? = some '(')
    (closes : closing.toList.getLast? = some ')') (spaced : Spaced s) :
    Spaced (Text.Peeled.peel opening closing s) := by
  obtain ⟨others, begins⟩ := List.head?_eq_some_iff.1 opens
  obtain ⟨before, ends⟩ := List.getLast?_eq_some_iff.1 closes
  have kept (layers : Nat) (cs : List Char) (inside : ' ' ∈ cs) :
      ' ' ∈ Text.Peeled.peelUpTo opening.toList closing.toList layers cs := by
    induction layers generalizing cs with
    | zero => exact inside
    | succ layers ih =>
      unfold Text.Peeled.peelUpTo
      split
      · rename_i enclosed
        rw [Text.Peeled.encloses, Bool.and_eq_true, List.isPrefixOf_iff_prefix, List.isSuffixOf_iff_suffix]
          at enclosed
        obtain ⟨⟨rest, rfl⟩, front, same⟩ := enclosed
        apply ih
        rw [begins, List.cons_append] at same inside ⊢
        rw [ends, ← List.append_assoc] at same
        rw [List.drop_one, List.tail_cons]
        -- What is left between the parentheses.
        cases both : front ++ before with
        | nil => simp [both] at same
        | cons c middle =>
          rw [both, List.cons_append, List.cons.injEq] at same
          rw [← same.2, List.mem_cons, List.mem_append, List.mem_singleton] at inside
          rw [← same.2, List.dropLast_concat]
          rcases inside with opens | between | closes
          · exact absurd opens (by decide)
          · exact between
          · exact absurd closes (by decide)
      · exact inside
  unfold Spaced at *
  rw [Text.Peeled.peel, String.toList_ofList]
  exact kept _ _ spaced

/-- Texts with spaces in them are alike after peeling. -/
theorem Pairing.Like.peeled {text text' : String} (same : p.Exact → text' = text) (here : Spaced text)
    (there : Spaced text') : p.Like (Text.Peeled.peel "((" "))" text) (Text.Peeled.peel "((" "))" text') := by
  refine .ofSpaced (fun exact => ?_) (Text.Peeled.spaced_peel rfl rfl here)
    (Text.Peeled.spaced_peel rfl rfl there)
  rw [same exact]

/-- Lists of twins in the cells that both runs know. -/
def TwinStores (p : Pairing) (known : Known) (store store' : Store) : Prop :=
  ∀ mixed cell, known mixed cell → Twins p known mixed (store.items cell) (store'.items cell)

namespace Twin

/-- The texts of twins are alike, to depths of which the first may be less. -/
theorem agree_texts {slack : Bool} {store store' : Store} (stores : TwinStores p known store store')
    {depth depth' : Nat} (deeper : Deeper slack depth depth') {t t' : Term} (twin : Twin p known false t t') :
    Agree slack p.Like (t.printed store depth) (t'.printed store' depth') ∧
      Agree slack (fun text text' => p.Exact → text' = text) (t.dumped store depth)
        (t'.dumped store' depth') := by
  induction depth generalizing depth' t t' with
  | zero =>
    rcases deeper.zero with runs | rfl
    · exact ⟨.endless runs, .endless runs⟩
    · exact ⟨.inr rfl, .inr rfl⟩
  | succ depth ih =>
    obtain ⟨depth', rfl, below⟩ := deeper.pred
    have ih {t t' : Term} (twin : Twin p known false t t') := ih below twin
    have plain {d : Datum} (none : d.references = []) :=
      Datum.plain_congr (Term.wording store' depth') (Term.wording store depth) none
    simp only [Term.wording] at plain
    have row {items items' : List Term} (twins : Twins p known false items items') :
        Agree slack (List.Forall₂ p.Like) (items.mapM (Term.printed store depth))
            (items'.mapM (Term.printed store' depth')) ∧
          Agree slack (fun texts texts' => p.Exact → texts' = texts) (items.mapM (Term.dumped store depth))
            (items'.mapM (Term.dumped store' depth')) := by
      refine ⟨.mapM twins fun _ _ twin => (ih twin).1, ?_⟩
      induction twins with
      | nil => exact fun _ => rfl
      | cons twin _ others =>
        rw [List.mapM_cons, List.mapM_cons]
        refine (ih twin).2.bind fun text text' same => others.bind fun texts texts' all exact => ?_
        rw [same exact, all exact]
    have chain {first first' next next' : Term} {rest rest' : List Term} (head : Twin p known false first first')
        (second : Twin p known false next next') (others : Twins p known false rest rest') :
        Agree slack p.Like ((Term.chain (first :: next :: rest)).printed store (depth + 1))
            ((Term.chain (first' :: next' :: rest')).printed store' (depth' + 1)) ∧
          Agree slack (fun text text' => p.Exact → text' = text)
            ((Term.chain (first :: next :: rest)).dumped store (depth + 1))
            ((Term.chain (first' :: next' :: rest')).dumped store' (depth' + 1)) := by
      constructor
      · simp only [Term.printed, List.mapM_cons, bind_assoc, pure_bind]
        refine (ih head).1.bind fun a a' likeHead => (ih second).1.bind fun b b' likeSecond => ?_
        refine (row others).1.bind fun texts texts' like => .peeled (fun exact => ?_) ?_ ?_
        · rw [likeHead.eq exact, likeSecond.eq exact, Pairing.Like.all_eq like exact]
        · simp [Spaced, String.intercalate_cons_cons]
        · simp [Spaced, String.intercalate_cons_cons]
      · refine (row (.cons head (.cons second others))).2.bind fun texts texts' same exact => ?_
        rw [same exact]
    cases twin with
    | int none | bool none | string none =>
      constructor <;> simp only [Term.printed, Term.dumped, plain none]
      · exact .refl fun _ _ => .same _
      · exact .refl fun _ _ _ => rfl
    | @name _ id ordinary =>
      constructor
      · by_cases same : p.rename id = id
        · rw [same]
          exact .same _
        · have same' : p.rename (p.rename id) ≠ p.rename id := fun again => same (p.injective again)
          change p.Like (Text.Peeled.peel "((" "))" id) (Text.Peeled.peel "((" "))" (p.rename id))
          rw [Text.Peeled.peel_eq_self (by decide) (p.unenclosed id same),
            Text.Peeled.peel_eq_self (by decide) (p.unenclosed _ same')]
          exact .named same
      · intro exact
        rw [exact id]
    | @function _ inside y body body' le free inner =>
      have closed : inside = false := Bool.eq_false_iff.2 fun is => Bool.false_ne_true (le is)
      subst closed
      constructor
      · refine (ih inner).1.bind fun b b' like => .peeled (fun exact => ?_) ?_ ?_
        · rw [like.eq exact, exact y]
        · simp [Spaced]
        · simp [Spaced]
      · refine (ih inner).2.bind fun b b' same exact => ?_
        rw [same exact, exact y]
    | @operation _ op _ _ _ _ left none right =>
      constructor
      · refine (ih left).1.bind fun l l' likeLeft => (ih right).1.bind fun r r' likeRight => ?_
        split
        · refine Pairing.Like.peeled (fun exact => ?_) ?_ ?_
          · rw [likeLeft.eq exact, likeRight.eq exact]
          · simp [Spaced]
          · simp [Spaced]
        · exact .inr rfl
      · simp only [Term.dumped, plain none]
        refine (ih left).2.bind fun l l' sameLeft => ?_
        refine (Agree.refl fun _ _ => rfl).bind fun o o' sameSign => ?_
        refine (ih right).2.bind fun r r' sameRight exact => ?_
        rw [sameLeft exact, sameSign, sameRight exact]
    | conditional decides first second =>
      constructor
      · refine (ih decides).1.bind fun c c' likeCondition => (ih first).1.bind fun y y' likeYes => ?_
        refine (ih second).1.bind fun n n' likeNo => .peeled (fun exact => ?_) ?_ ?_
        · rw [likeCondition.eq exact, likeYes.eq exact, likeNo.eq exact]
        · simp [Spaced]
        · simp [Spaced]
      · refine (ih decides).2.bind fun c c' sameCondition => (ih first).2.bind fun y y' sameYes => ?_
        refine (ih second).2.bind fun n n' sameNo exact => ?_
        rw [sameCondition exact, sameYes exact, sameNo exact]
    | pair head next => exact chain head next .nil
    | more head others =>
      obtain ⟨_, same, -, headed⟩ := others.headed
      cases same
      obtain ⟨second, others⟩ := headed
      exact chain head second others
    | @list _ cell is =>
      have twins := stores false cell is
      constructor
      · refine (row twins).1.bind fun texts texts' like => .peeled (fun exact => ?_) ?_ ?_
        · rw [Pairing.Like.all_eq like exact]
        · simp [Spaced]
        · simp [Spaced]
      · refine (row twins).2.bind fun texts texts' same exact => ?_
        rw [same exact]

end Twin

end DotLambda
