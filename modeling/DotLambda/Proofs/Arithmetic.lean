import DotLambda.Proofs.Reading

/-!
Arithmetic expressions, what is read from them and what the terms that are read denote. A term is built
from an expression by three means: operations on numbers are computed at once, names that are bound stand
for their terms, and names that are not bound yet stay. Main statements: the term of an expression denotes
its integer value whatever is bound, and a term denotes the number that it simplifies to once every name
is bound.
-/

namespace DotLambda

/-- How tightly an expression binds. -/
inductive Level where
  | sum | product | factor

/-- An arithmetic expression. Signs bind most tightly, then products, then sums; products and sums go from
left to right. -/
inductive Arith : Level → Type where
  | literal (n : Nat) : Arith .factor
  | name (id : String) : Arith .factor
  | signed (minus : Bool) (e : Arith .factor) : Arith .factor
  | group (e : Arith .sum) : Arith .factor
  | ofFactor (e : Arith .factor) : Arith .product
  | product (lhs : Arith .product) (divides : Bool) (rhs : Arith .factor) : Arith .product
  | ofProduct (e : Arith .product) : Arith .sum
  | sum (lhs : Arith .sum) (minus : Bool) (rhs : Arith .product) : Arith .sum

namespace Arith

/-- The words that write an expression. -/
def words : {level : Level} → Arith level → List Word
  | _, literal n => [.number n]
  | _, name id => [.name id]
  | _, signed minus e => .sign .addOp (if minus then "-" else "+") :: e.words
  | _, group e => .sign .leftParen "(" :: (e.words ++ [.sign .rightParen ")"])
  | _, ofFactor e => e.words
  | _, product lhs divides rhs =>
    lhs.words ++ .sign .multOp (if divides then "/" else "*") :: rhs.words
  | _, ofProduct e => e.words
  | _, sum lhs minus rhs => lhs.words ++ .sign .addOp (if minus then "-" else "+") :: rhs.words

/-- The names in an expression. -/
def names : {level : Level} → Arith level → List String
  | _, literal _ => []
  | _, name id => [id]
  | _, signed _ e => e.names
  | _, group e => e.names
  | _, ofFactor e => e.names
  | _, product lhs _ rhs => lhs.names ++ rhs.names
  | _, ofProduct e => e.names
  | _, sum lhs _ rhs => lhs.names ++ rhs.names

/-- How deeply the operations of an expression nest. -/
def height : {level : Level} → Arith level → Nat
  | _, literal _ => 1
  | _, name _ => 1
  | _, signed _ e => e.height + 1
  | _, group e => e.height
  | _, ofFactor e => e.height
  | _, product lhs _ rhs => max lhs.height rhs.height + 1
  | _, ofProduct e => e.height
  | _, sum lhs _ rhs => max lhs.height rhs.height + 1

/-- A number that has a decimal text. -/
def short? (n : Int) : Option Int := if n.natAbs < Text.Decimal.bound then some n else none

/-- The integer value of an expression where names have values; `none` if it divides by zero or one of
its parts has a value of too many digits. -/
def value? (values : String → Int) : {level : Level} → Arith level → Option Int
  | _, literal n => short? n
  | _, name id => short? (values id)
  | _, signed minus e => do
    let n ← e.value? values
    short? (if minus then -n else n)
  | _, group e => e.value? values
  | _, ofFactor e => e.value? values
  | _, product lhs divides rhs => do
    let m ← lhs.value? values
    let n ← rhs.value? values
    if divides then
      if n = 0 then none else short? (m.fdiv n)
    else short? (m * n)
  | _, ofProduct e => e.value? values
  | _, sum lhs minus rhs => do
    let m ← lhs.value? values
    let n ← rhs.value? values
    short? (if minus then m - n else m + n)

/-- The term that is built from an expression. -/
def evaluate (s : Settings) : {level : Level} → Arith level → Eval Term
  | _, literal n => Eval.make s (.int (.int n))
  | _, name id => Meaning.name s id
  | _, signed minus e => do
    let t ← e.evaluate s
    Meaning.sign s (if minus then "-" else "+") t
  | _, group e => e.evaluate s
  | _, ofFactor e => e.evaluate s
  | _, product lhs divides rhs => do
    let l ← lhs.evaluate s
    let r ← rhs.evaluate s
    Meaning.arithmetic s l (if divides then .div else .mul) r
  | _, ofProduct e => e.evaluate s
  | _, sum lhs minus rhs => do
    let l ← lhs.evaluate s
    let r ← rhs.evaluate s
    Meaning.arithmetic s l (if minus then .sub else .add) r

theorem height_pos {level : Level} (e : Arith level) : 0 < e.height := by
  induction e with
  | literal _ | name _ => exact Nat.one_pos
  | signed _ _ _ | product _ _ _ _ _ | sum _ _ _ _ _ => exact Nat.succ_pos _
  | group _ ih | ofFactor _ ih | ofProduct _ ih => exact ih

theorem short?_eq_some {m n : Int} (short : short? m = some n) :
    m = n ∧ n.natAbs < Text.Decimal.bound := by
  unfold short? at short
  split at short
  · rename_i few
    obtain rfl := Option.some.inj short
    exact ⟨rfl, few⟩
  · simp at short

theorem short_of_value? {values : String → Int} {level : Level} {e : Arith level} {n : Int}
    (value : e.value? values = some n) : n.natAbs < Text.Decimal.bound := by
  induction e generalizing n with
  | literal _ | name _ => exact (short?_eq_some value).2
  | signed minus e ih =>
    obtain ⟨m, -, outer⟩ := Option.bind_eq_some_iff.1 value
    exact (short?_eq_some outer).2
  | group _ ih | ofFactor _ ih | ofProduct _ ih => exact ih value
  | product lhs divides rhs ihl ihr =>
    obtain ⟨m, -, rest⟩ := Option.bind_eq_some_iff.1 value
    obtain ⟨k, -, outer⟩ := Option.bind_eq_some_iff.1 rest
    split at outer
    · split at outer
      · simp at outer
      · exact (short?_eq_some outer).2
    · exact (short?_eq_some outer).2
  | sum lhs minus rhs ihl ihr =>
    obtain ⟨m, -, rest⟩ := Option.bind_eq_some_iff.1 value
    obtain ⟨k, -, outer⟩ := Option.bind_eq_some_iff.1 rest
    exact (short?_eq_some outer).2

/-! ## Reading -/

open Automaton

/-- The words of an expression are read as a phrase of its level, wherever one may stand. -/
def Readable (s : Settings) : {level : Level} → Arith level → Prop
  | .factor, e => ∀ follower ∈ afterFactor, ReadsTerm s .factor follower e.words (e.evaluate s)
  | .product, e => ∀ follower ∈ afterFactor, ReadsTerm s .term follower e.words (e.evaluate s)
  | .sum, e => ∀ follower ∈ afterLoneTerm, ReadsTerm s .expr follower e.words (e.evaluate s)

theorem readable {s : Settings} (untraced : s.tracing = false) {level : Level} (e : Arith level) :
    e.Readable s := by
  induction e with
  | literal n =>
    intro follower follows
    exact .number untraced (reduces_of_mem_afterFactor (by decide) follows) n
  | name id =>
    intro follower follows
    exact .name (reduces_of_mem_afterFactor (by decide) follows) id
  | signed minus e ih =>
    intro follower follows
    exact .sign (reduces_of_mem_afterFactor (by decide) follows) _ (ih follower follows)
  | group e ih =>
    intro follower follows
    have within := ih (some .rightParen) (by decide)
    exact .parenthesized untraced (reduces_of_mem_afterFactor (by decide) follows)
      (.ofExpr untraced (reduces_of_mem_closers (by decide)) within)
  | ofFactor e ih =>
    intro follower follows
    exact .ofFactor untraced (reduces_of_mem_afterFactor (by decide) follows) (ih follower follows)
  | product lhs divides rhs ihl ihr =>
    intro follower follows
    have reduces : Reduces .product follower := reduces_of_mem_afterFactor (by decide) follows
    have left := ihl (some .multOp) (by decide)
    cases divides with
    | false => exact .product untraced reduces "*" left (ihr follower follows)
    | true => exact .product untraced reduces "/" left (ihr follower follows)
  | ofProduct e ih =>
    intro follower follows
    exact .ofTerm untraced (reduces_of_mem_afterLoneTerm (by decide) follows)
      (ih follower (afterLoneTerm_subset follows))
  | sum lhs minus rhs ihl ihr =>
    intro follower follows
    have reduces : Reduces .sum follower := reduces_of_mem_afterLoneTerm (by decide) follows
    have left := ihl (some .addOp) (by decide)
    have right := ihr follower (afterLoneTerm_subset follows)
    cases minus with
    | false => exact .sum untraced reduces "+" left right
    | true => exact .sum untraced reduces "-" left right

end Arith

/-! ## What terms denote -/

theorem Datum.decimal_eq {n : Int} (short : n.natAbs < Text.Decimal.bound) :
    Datum.decimal n = .ok (Text.Decimal.digits n) := by
  have text : Text.Decimal.text? n = some (Text.Decimal.digits n) :=
    Text.Decimal.text?_eq_some_iff.2 ⟨short, rfl⟩
  unfold Datum.decimal
  rw [text]
  rfl

theorem Datum.eq_digits_of_decimal {n : Int} {s : String} (shown : Datum.decimal n = .ok s) :
    s = Text.Decimal.digits n := by
  unfold Datum.decimal at shown
  split at shown
  · rename_i found
    rw [(Text.Decimal.text?_eq_some_iff.1 found).2]
    exact (Except.ok.inj shown).symm
  · cases shown

theorem Operator.sign_eq (op : Operator) (computes : op.isArithmetic = true) :
    op.sign = .text op.symbol := by
  cases op with
  | other sign => exact absurd computes (by simp [isArithmetic])
  | _ => rfl

/-- What the names of some equations stand for: a value each, and the depth that suffices to find it. -/
structure Reckoning where
  names : List String
  values : String → Int
  need : String → Nat

/-- A term denotes a number, and going down to a depth suffices to find it. -/
inductive Denotes (r : Reckoning) : Nat → Term → Int → Prop where
  | int {depth : Nat} {n : Int} (short : n.natAbs < Text.Decimal.bound) :
      Denotes r (depth + 1) (.int (.int n)) n
  | name {depth : Nat} {id : String} (known : id ∈ r.names) (room : r.need id ≤ depth) :
      Denotes r (depth + 1) (.name id) (r.values id)
  | operation {depth : Nat} {lhs rhs : Term} {op : Operator} {m n k : Int}
      (computes : op.isArithmetic = true) (left : Denotes r depth lhs m) (right : Denotes r depth rhs n)
      (result : op.arithmetic m n = .ok (.int k)) : Denotes r (depth + 1) (.operation lhs op rhs) k

/-- All that is bound denotes its value. -/
def Reckoning.Holds (r : Reckoning) (bindings : Bindings Term) : Prop :=
  ∀ id t, bindings.find? id = some t → Denotes r (r.need id) t (r.values id)

namespace Denotes

variable {r : Reckoning} {depth : Nat} {t lhs rhs : Term} {m n k : Int}

theorem mono (denotes : Denotes r depth t n) {deeper : Nat} (below : depth ≤ deeper) :
    Denotes r deeper t n := by
  induction denotes generalizing deeper with
  | int short =>
    obtain ⟨more, rfl⟩ := Nat.exists_eq_add_of_lt below
    exact .int short
  | name known room =>
    obtain ⟨more, rfl⟩ := Nat.exists_eq_add_of_lt below
    exact .name known (by omega)
  | operation computes left right result ihl ihr =>
    obtain ⟨more, rfl⟩ := Nat.exists_eq_add_of_lt below
    exact .operation computes (ihl (by omega)) (ihr (by omega)) result

/-- What denotes a number has a dumped form. -/
theorem exists_dumped (denotes : Denotes r depth t n) (store : Store) :
    ∃ text, t.dumped store depth = .ok text := by
  induction denotes with
  | @int depth n short =>
    refine ⟨"Value(int, " ++ Text.Decimal.digits n ++ ")", ?_⟩
    simp only [Term.dumped, Datum.plain, Datum.quoted, Datum.decimal_eq short]
    rfl
  | name known room => exact ⟨_, rfl⟩
  | @operation depth lhs rhs op m n k computes left right result ihl ihr =>
    obtain ⟨l, shownLeft⟩ := ihl
    obtain ⟨r, shownRight⟩ := ihr
    refine ⟨"Value(operation, " ++ l ++ ", " ++ op.symbol ++ ", " ++ r ++ ")", ?_⟩
    simp only [Term.dumped, shownLeft, shownRight, op.sign_eq computes]
    rfl

end Denotes

theorem Reckoning.Holds.insert {r : Reckoning} {bindings : Bindings Term} (holds : r.Holds bindings)
    {id : String} {t : Term} (denotes : Denotes r (r.need id) t (r.values id)) :
    r.Holds (bindings.insert id t) := by
  intro other u found
  by_cases same : other = id
  · subst same
    rw [Bindings.find?_insert_self] at found
    exact Option.some.inj found ▸ denotes
  · rw [Bindings.find?_insert_of_ne t bindings same] at found
    exact holds other u found

/-! ## Building terms -/

theorem Operator.apply_int {op : Operator} (computes : op.isArithmetic = true) (w : Wording) (m n : Int) :
    op.apply w (.int m) (.int n) = op.arithmetic m n := by
  cases op with
  | add | sub | mul | div => rfl
  | eq | ne | lt | le | gt | ge | other _ => exact absurd computes (by simp [isArithmetic])

theorem Eval.apply_int {s : Settings} {op : Operator} {m n k : Int} (computes : op.isArithmetic = true)
    (result : op.arithmetic m n = .ok (.int k)) : Eval.apply s op (.int m) (.int n) = pure (.int k) := by
  funext w
  simp only [Eval.apply, Operator.apply_int computes, result]
  rfl

theorem Text.Decimal.bound_pos : 0 < Text.Decimal.bound := by
  unfold Text.Decimal.bound
  generalize Text.Decimal.digitLimit = digits
  exact Nat.pow_pos (Nat.succ_pos 9)

namespace Denotes

variable {s : Settings} (untraced : s.tracing = false) {r : Reckoning} {depth : Nat} {t lhs rhs : Term}
  {op : Operator} {m n k : Int}
include untraced

/-- An operation denotes what it computes, whether it is computed at once or kept. -/
theorem arithmetic (computes : op.isArithmetic = true) (left : Denotes r depth lhs m)
    (right : Denotes r depth rhs n) (result : op.arithmetic m n = .ok (.int k))
    (short : k.natAbs < Text.Decimal.bound) :
    ∃ t, Meaning.arithmetic s lhs op rhs = pure t ∧ Denotes r (depth + 1) t k := by
  unfold Meaning.arithmetic
  split
  · cases left with
    | int _ =>
      cases right with
      | int _ =>
        refine ⟨.int (.int k), ?_, .int short⟩
        rw [Eval.apply_int computes result, pure_bind, Eval.make_untraced untraced]
  · exact ⟨.operation lhs op rhs, Eval.make_untraced untraced _, .operation computes left right result⟩

theorem sign (minus : Bool) (inner : Denotes r depth t n) (some : 0 < depth) :
    ∃ u, Meaning.sign s (if minus then "-" else "+") t = pure u ∧
      Denotes r (depth + 1) u (if minus then -n else n) := by
  cases minus with
  | false => exact ⟨t, rfl, inner.mono (Nat.le_succ depth)⟩
  | true =>
    refine ⟨.operation (.int (.int 0)) .sub t, ?_, ?_⟩
    · simp [Meaning.sign, Eval.make_untraced untraced]
    · obtain ⟨more, rfl⟩ := Nat.exists_eq_add_of_lt some
      exact .operation rfl (.int Text.Decimal.bound_pos) inner (by simp [Operator.arithmetic]; rfl)

theorem ofName {w : World} (holds : r.Holds w.bindings) {id : String} (known : id ∈ r.names)
    (room : r.need id ≤ depth) :
    ∃ t, Meaning.name s id w = .ok t w ∧ Denotes r (depth + 1) t (r.values id) := by
  cases found : w.bindings.find? id with
  | some t =>
    exact ⟨t, Meaning.name_of_bound untraced found, (holds id t found).mono (Nat.le_succ_of_le room)⟩
  | none => exact ⟨.name id, Meaning.name_of_unbound untraced found, .name known room⟩

theorem ofOperands {w : World} {x y : Eval Term} {a b : Nat} (op : Operator)
    (computes : op.isArithmetic = true)
    (left : ∃ l, x w = .ok l w ∧ Denotes r (depth + a) l m)
    (right : ∃ l, y w = .ok l w ∧ Denotes r (depth + b) l n)
    (result : op.arithmetic m n = .ok (.int k)) (short : k.natAbs < Text.Decimal.bound) :
    ∃ t, (do let l ← x; let r ← y; Meaning.arithmetic s l op r) w = .ok t w ∧
      Denotes r (depth + (max a b + 1)) t k := by
  obtain ⟨l, builtLeft, denotesLeft⟩ := left
  obtain ⟨r, builtRight, denotesRight⟩ := right
  obtain ⟨t, built, denotes⟩ := arithmetic untraced computes
    (denotesLeft.mono (Nat.add_le_add_left (Nat.le_max_left a b) depth))
    (denotesRight.mono (Nat.add_le_add_left (Nat.le_max_right a b) depth)) result short
  refine ⟨t, ?_, denotes⟩
  rw [Eval.bind_of_ok builtLeft, Eval.bind_of_ok builtRight, built]
  rfl

end Denotes

/-- Whatever is bound, an expression is built into a term that denotes its value. -/
theorem Arith.exists_denotes {s : Settings} (untraced : s.tracing = false) {r : Reckoning} {w : World}
    (holds : r.Holds w.bindings) {depth : Nat} {level : Level} (e : Arith level)
    (known : ∀ id ∈ e.names, id ∈ r.names ∧ r.need id ≤ depth) {n : Int}
    (value : e.value? r.values = some n) :
    ∃ t, e.evaluate s w = .ok t w ∧ Denotes r (depth + e.height) t n := by
  induction e generalizing n with
  | literal m =>
    obtain ⟨rfl, short⟩ := short?_eq_some value
    refine ⟨.int (.int m), ?_, .int short⟩
    rw [Arith.evaluate, Eval.make_untraced untraced]
    rfl
  | name id =>
    obtain ⟨rfl, short⟩ := short?_eq_some value
    obtain ⟨listed, room⟩ := known id (List.mem_singleton_self id)
    exact Denotes.ofName untraced holds listed room
  | signed minus e ih =>
    obtain ⟨m, inner, outer⟩ := Option.bind_eq_some_iff.1 value
    obtain ⟨rfl, short⟩ := short?_eq_some outer
    obtain ⟨t, built, denotes⟩ := ih known inner
    obtain ⟨u, signed, result⟩ := denotes.sign untraced minus (Nat.add_pos_right depth e.height_pos)
    refine ⟨u, ?_, result⟩
    rw [Arith.evaluate, Eval.bind_of_ok built, signed]
    rfl
  | group e ih | ofFactor e ih | ofProduct e ih => exact ih known value
  | product lhs divides rhs ihl ihr =>
    obtain ⟨m, leftValue, rest⟩ := Option.bind_eq_some_iff.1 value
    obtain ⟨k, rightValue, outer⟩ := Option.bind_eq_some_iff.1 rest
    have left := ihl (fun id member => known id (List.mem_append_left _ member)) leftValue
    have right := ihr (fun id member => known id (List.mem_append_right _ member)) rightValue
    cases divides with
    | false =>
      have product : short? (m * k) = some n := by simpa using outer
      obtain ⟨rfl, short⟩ := short?_eq_some product
      exact Denotes.ofOperands untraced .mul rfl left right rfl short
    | true =>
      by_cases nought : k = 0
      · simp [nought] at outer
      · have quotient : short? (m.fdiv k) = some n := by simpa [nought] using outer
        obtain ⟨rfl, short⟩ := short?_eq_some quotient
        exact Denotes.ofOperands untraced .div rfl left right (if_neg nought) short
  | sum lhs minus rhs ihl ihr =>
    obtain ⟨m, leftValue, rest⟩ := Option.bind_eq_some_iff.1 value
    obtain ⟨k, rightValue, outer⟩ := Option.bind_eq_some_iff.1 rest
    have left := ihl (fun id member => known id (List.mem_append_left _ member)) leftValue
    have right := ihr (fun id member => known id (List.mem_append_right _ member)) rightValue
    obtain ⟨rfl, short⟩ := short?_eq_some outer
    cases minus with
    | false => exact Denotes.ofOperands untraced .add rfl left right rfl short
    | true => exact Denotes.ofOperands untraced .sub rfl left right rfl short

/-! ## Simplifying terms -/

theorem simplify_untraced {s : Settings} (untraced : s.tracing = false) (lookup : Bindings Term)
    (depth : Nat) (t : Term) : simplify s lookup (depth + 1) t =
      Simplify.simplified s lookup (simplify s lookup depth) (replace s lookup depth) t := by
  cases t with
  | datum d => rfl
  | _ => simp only [simplify, Eval.trace_untraced untraced, pure_bind, bind_pure]

namespace Reckoning

/-- Every name is bound to what denotes its value, and none is a word for a truth value. -/
structure Complete (r : Reckoning) (bindings : Bindings Term) : Prop where
  holds : r.Holds bindings
  bound : ∀ id ∈ r.names, ∃ t, bindings.find? id = some t
  plain : ∀ id ∈ r.names, id ≠ "true" ∧ id ≠ "false"

end Reckoning

/-- Once every name is bound, a term simplifies to the number that it denotes. -/
theorem Denotes.simplify_eq {s : Settings} (untraced : s.tracing = false) {r : Reckoning}
    {lookup : Bindings Term} (complete : r.Complete lookup) {depth fuel : Nat} {t : Term} {n : Int}
    (denotes : Denotes r depth t n) (enough : depth ≤ fuel) :
    simplify s lookup fuel t = pure (.int (.int n)) := by
  induction fuel generalizing depth t n with
  | zero => cases denotes <;> exact absurd enough (Nat.not_succ_le_zero _)
  | succ fuel ih =>
    rw [simplify_untraced untraced]
    cases denotes with
    | int short => exact Eval.make_untraced untraced _
    | @name below id known room =>
      obtain ⟨t, found⟩ := complete.bound id known
      obtain ⟨notTrue, notFalse⟩ := complete.plain id known
      simp only [Simplify.simplified, if_neg notTrue, if_neg notFalse, found]
      exact ih (complete.holds id t found) (by omega)
    | @operation below lhs rhs op m k _ computes left right result =>
      simp only [Simplify.simplified, ih left (by omega), ih right (by omega), Simplify.resolve,
        Simplify.compute, pure_bind, Eval.apply_int computes result, Simplify.literal, computes, if_true]
      exact Eval.make_untraced untraced _

end DotLambda
