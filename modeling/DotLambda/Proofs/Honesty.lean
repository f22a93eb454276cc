import DotLambda.Proofs.Atomicity
import DotLambda.Proofs.ParallelRules

/-!
Honest terms: those of which all literals hold what their kind tells, an integer literal an integer, a boolean
literal a boolean, a string literal a text. Kinds may also be mixed, as the rules of `and` and `or` make a
boolean literal of whatever their operands come to; what may be in which literal then is said too, and so is
what has been read where there are texts and functions, and what texts there may be. Main statements: what
operators compute makes honest literals, and neither an operator nor the text of an honest term fails in a way
that is not foreseen.
-/

namespace DotLambda

/-! ## Honest terms -/

namespace Datum

/-- Whether an integer literal may hold a datum. A text comes in where `and` and `or` have mixed kinds. -/
def isNumber (mixed : Bool) : Datum → Bool
  | int _ => true
  | text _ => mixed
  | _ => false

/-- Whether a boolean literal may hold a datum. Others than booleans come in where `and` and `or` have mixed
kinds. -/
def isTruth (mixed : Bool) : Datum → Bool
  | bool _ => true
  | int _ | text _ => mixed
  | _ => false

/-- Whether a string literal may hold a datum. -/
def isText : Datum → Bool
  | text _ => true
  | _ => false

end Datum

/-- Whether a term that is a literal holds what its kind tells. -/
def Term.tagHolds (mixed : Bool) : Term → Bool
  | .int d => d.isNumber mixed
  | .bool d => d.isTruth mixed
  | .string d => d.isText
  | _ => true

namespace Store

/-- The terms that a term is made of, and those that its list holds. -/
def parts (store : Store) : Term → List Term
  | .function _ body => [body]
  | .operation lhs _ rhs => [lhs, rhs]
  | .conditional condition yes no => [condition, yes, no]
  | .chain items => items
  | .list cell => store.items cell
  | .wrapped inner => [inner]
  | .int _ | .bool _ | .string _ | .name _ | .nameless _ | .itemless _ _ | .unknown _ | .datum _ => []

/-- A term leads to all that is found in it: itself, its parts, and the terms to which its data refer. -/
inductive Leads (store : Store) : Term → Term → Prop where
  | self (t : Term) : Leads store t t
  | part {t between u : Term} (member : between ∈ store.parts t) (onward : Leads store between u) :
      Leads store t u
  | referred {t u : Term} {cell : Nat} (refers : cell ∈ t.references)
      (onward : Leads store (store.term cell) u) : Leads store t u

end Store

namespace Operator

/-- Whether an operator compares. -/
def isComparison : Operator → Bool
  | eq | ne | lt | le | gt | ge => true
  | add | sub | mul | div | other _ => false

theorem isArithmetic_of_isComparison {op : Operator} (compares : op.isComparison = true) :
    op.isArithmetic = false := by
  cases op with
  | eq | ne | lt | le | gt | ge => rfl
  | add | sub | mul | div | other => cases compares

/-- Whether an operator stands for an operation. -/
def isKnown (op : Operator) : Bool := op.isArithmetic || op.isComparison

end Operator

/-- What lines have brought in. -/
structure Past where
  /-- Whether `and` and `or` may have come to others than booleans. -/
  mixed : Bool
  /-- The kinds of the tokens that may have been read. -/
  seen : Kind → Bool
  /-- The kinds of the tokens that may be in the line that is being read. -/
  reads : Kind → Bool
  seen_of_reads : ∀ kind, reads kind = true → seen kind = true
  /-- The texts that names and strings may have. -/
  texts : String → Bool
  texts_append : ∀ {l r : String}, texts l = true → texts r = true → texts (l ++ r) = true

namespace Past

/-- All may have been read. -/
def any (mixed : Bool) : Past :=
  ⟨mixed, fun _ => true, fun _ => true, fun _ _ => rfl, fun _ => true, fun _ _ => rfl⟩

/-- Texts are there only where a string may have been read, and are such as strings may have. -/
def Admits (past : Past) (d : Datum) : Prop :=
  ∀ text, d = .text text → past.seen .string = true ∧ past.texts text = true

theorem admits_of_not_text (past : Past) {d : Datum} (other : d.isText = false) : past.Admits d := by
  rintro text rfl
  cases other

theorem Admits.seen {past : Past} {d : Datum} (admitted : past.Admits d) (text : d.isText = true) :
    past.seen .string = true := by
  cases d with
  | text s => exact (admitted s rfl).1
  | none | bool | int | list | term => cases text

/-- Two texts one after the other are such as strings may have, if both are. -/
theorem Admits.append {past : Past} {l r : String} (left : past.Admits (.text l)) (right : past.Admits (.text r)) :
    past.Admits (.text (l ++ r)) := by
  rintro _ ⟨⟩
  exact ⟨(left l rfl).1, past.texts_append (left l rfl).2 (right r rfl).2⟩

/-- A datum that some literal may hold. -/
structure Holds (past : Past) (d : Datum) : Prop where
  truth : d.isTruth true = true
  admitted : past.Admits d

end Past

variable {past : Past}

/-- A term of which all literals hold what their kind tells. Its lists are not looked at. -/
inductive Term.Honest (past : Past) : Term → Prop where
  | int {d : Datum} (holds : d.isNumber past.mixed = true) (admitted : past.Admits d) : Honest past (.int d)
  | bool {d : Datum} (holds : d.isTruth past.mixed = true) (admitted : past.Admits d) : Honest past (.bool d)
  | string {d : Datum} (holds : d.isText = true) (admitted : past.Admits d) : Honest past (.string d)
  | name {id : String} (named : past.texts id = true) : Honest past (.name id)
  | function {x : String} {body : Term} (named : past.texts x = true) (inner : Honest past body)
      (seen : past.seen .lambda = true) : Honest past (.function (.text x) body)
  | operation {lhs rhs : Term} {op : Operator} (left : Honest past lhs) (known : op.isKnown = true)
      (right : Honest past rhs) : Honest past (.operation lhs op rhs)
  | conditional {condition yes no : Term} (first : Honest past condition) (second : Honest past yes)
      (third : Honest past no) : Honest past (.conditional condition yes no)
  | chain {items : List Term} (each : ∀ t ∈ items, Honest past t) : Honest past (.chain items)
  | list (cell : Nat) : Honest past (.list cell)

/-- Bindings to honest terms. -/
def Bindings.Honest (past : Past) (bindings : Bindings Term) : Prop :=
  ∀ entry ∈ bindings, entry.2.Honest past

theorem Bindings.Honest.find? {bindings : Bindings Term} (honest : bindings.Honest past) {id : String} {t : Term}
    (bound : bindings.find? id = some t) : t.Honest past := by
  obtain ⟨front, back, rfl, -⟩ := List.lookup_eq_some_iff.1 bound
  exact honest (id, t) (by simp)

theorem Bindings.Honest.insert {bindings : Bindings Term} (honest : bindings.Honest past) (id : String) {t : Term}
    (fine : t.Honest past) : (Bindings.insert id t bindings).Honest past := by
  induction bindings with
  | nil => exact List.forall_mem_singleton.2 fine
  | cons entry rest ih =>
    obtain ⟨here, later⟩ := List.forall_mem_cons.1 honest
    unfold Bindings.insert
    split
    · exact List.forall_mem_cons.2 ⟨fine, later⟩
    · exact List.forall_mem_cons.2 ⟨here, ih later⟩

/-- A session whose variables stand for honest terms and whose lists hold them. -/
structure Session.Honest (past : Past) (session : Session) : Prop where
  bindings : session.bindings.Honest past
  items : ∀ cell, ∀ t ∈ session.store.items cell, t.Honest past

/-- A world whose variables stand for honest terms and whose lists hold them. -/
abbrev World.Honest (past : Past) (w : World) : Prop := w.session.Honest past

namespace Term.Honest

theorem tagHolds {t : Term} (honest : t.Honest past) : t.tagHolds past.mixed = true := by
  cases honest with
  | int holds | bool holds | string holds => exact holds
  | name | function | operation | conditional | chain | list => rfl

/-- What an honest literal holds is a boolean, an integer or a text. -/
theorem value {t : Term} {d : Datum} (honest : t.Honest past) (holds : t.value = .ok d) : past.Holds d := by
  cases honest with
  | @int e fits admitted | @bool e fits admitted | @string e fits admitted =>
    cases holds
    refine ⟨?_, admitted⟩
    cases d with
    | bool | int | text => rfl
    | none | list | term => cases fits
  | name | function | operation | conditional | chain | list => cases holds

theorem references {t : Term} (honest : t.Honest past) : t.references = [] := by
  induction honest with
  | @int d holds | @bool d holds | @string d holds =>
    cases d with
    | none | bool | int | text => rfl
    | list | term => cases holds
  | name | list => rfl
  | function named inner seen ih => exact ih
  | @operation lhs rhs op left known right ihLeft ihRight =>
    have plain : op.sign.references = [] := by
      cases op with
      | other sign => cases known
      | _ => rfl
    simp [Term.references, ihLeft, plain, ihRight]
  | conditional first second third ihFirst ihSecond ihThird =>
    simp [Term.references, ihFirst, ihSecond, ihThird]
  | chain each ih => exact Term.referencesAll_eq_nil.2 ih

theorem part {store : Store} (stored : ∀ cell, ∀ t ∈ store.items cell, t.Honest past) {t u : Term}
    (honest : t.Honest past) (member : u ∈ store.parts t) : u.Honest past := by
  cases honest with
  | int | bool | string | name => cases member
  | function named inner =>
    rw [List.mem_singleton.1 member]
    exact inner
  | operation left known right =>
    rcases List.mem_cons.1 member with rfl | later
    · exact left
    · rw [List.mem_singleton.1 later]
      exact right
  | conditional first second third =>
    rcases List.mem_cons.1 member with rfl | later
    · exact first
    rcases List.mem_cons.1 later with rfl | last
    · exact second
    · rw [List.mem_singleton.1 last]
      exact third
  | chain each => exact each u member
  | list cell => exact stored cell u member

/-- All that an honest term leads to is honest. -/
theorem leads {store : Store} (stored : ∀ cell, ∀ t ∈ store.items cell, t.Honest past) {t u : Term}
    (honest : t.Honest past) (leads : store.Leads t u) : u.Honest past := by
  induction leads with
  | self t => exact honest
  | part member onward ih => exact ih (honest.part stored member)
  | referred refers onward ih =>
    rw [honest.references] at refers
    cases refers

end Term.Honest

/-! ## What operators compute -/

namespace Operator

variable {w : Wording} {op : Operator} {l r d : Datum}

private theorem bool_of_comparison (computed : op.comparison w l r = .ok d) : ∃ b, d = .bool b := by
  by_cases same : l.typeName = r.typeName
  · simp only [comparison, same, ne_eq, not_true_eq_false, if_false] at computed
    split at computed
    · cases computed
      exact ⟨_, rfl⟩
    · cases computed
      exact ⟨_, rfl⟩
    · obtain ⟨b, done⟩ := exists_ok_of_bind computed
      cases done
      exact ⟨b, rfl⟩
  · simp only [comparison, same, ne_eq, not_false_eq_true, if_true] at computed
    exact absurd computed ne_ok_of_complaint

private theorem int_of_arithmetic {m n : Int} (arithmetical : op.isArithmetic = true)
    (computed : op.arithmetic m n = .ok d) : ∃ n, d = .int n := by
  cases op with
  | add | sub | mul =>
    cases computed
    exact ⟨_, rfl⟩
  | div =>
    simp only [arithmetic] at computed
    split at computed
    · cases computed
    · cases computed
      exact ⟨_, rfl⟩
  | eq | ne | lt | le | gt | ge | other => cases arithmetical

private theorem isText_of_asInt? {n : Int} (counts : d.asInt? = some n) : d.isText = false := by
  cases d with
  | bool | int => rfl
  | none | text | list | term => cases counts

/-- A comparison gives a boolean, and arithmetic an integer or, out of two texts, a text. -/
theorem apply_cases (known : op.isKnown = true) (computed : op.apply w l r = .ok d) :
    (op.isArithmetic = false ∧ ∃ b, d = .bool b) ∨
      (op.isArithmetic = true ∧ l.isText = false ∧ ∃ n, d = .int n) ∨
      (op = .add ∧ ∃ a b, l = .text a ∧ r = .text b ∧ d = .text (a ++ b)) := by
  cases op with
  | other sign => cases known
  | eq | ne | lt | le | gt | ge =>
    simp only [apply] at computed
    exact .inl ⟨rfl, bool_of_comparison computed⟩
  | sub | mul | div =>
    simp only [apply] at computed
    split at computed
    · rename_i left _
      exact .inr (.inl ⟨rfl, isText_of_asInt? left, int_of_arithmetic rfl computed⟩)
    · exact absurd computed ne_ok_of_complaint
  | add =>
    simp only [apply] at computed
    split at computed
    · cases computed
      exact .inr (.inr ⟨rfl, _, _, rfl, rfl, rfl⟩)
    · split at computed
      · rename_i left _
        exact .inr (.inl ⟨rfl, isText_of_asInt? left, int_of_arithmetic rfl computed⟩)
      · exact absurd computed ne_ok_of_complaint

end Operator

namespace Simplify

variable {w : Wording} {op : Operator} {l r d : Datum}

/-- What an operator gives out of data that are texts only where kinds may be mixed makes an honest literal. -/
theorem honest_literal (known : op.isKnown = true) (mixing : l.isText = true → past.mixed = true)
    (left : past.Admits l) (right : past.Admits r) (computed : op.apply w l r = .ok d) :
    (literal op d).Honest past := by
  unfold literal
  rcases Operator.apply_cases known computed with
    ⟨compares, b, rfl⟩ | ⟨counts, -, n, rfl⟩ | ⟨rfl, a, b, rfl, rfl, rfl⟩
  · rw [compares]
    exact .bool rfl (past.admits_of_not_text rfl)
  · rw [counts]
    exact .int rfl (past.admits_of_not_text rfl)
  · exact .int (mixing rfl) (left.append right)

/-- What an operator gives out of texts makes an honest literal. -/
theorem honest_stringLiteral (known : op.isKnown = true) (text : l.isText = true) (left : past.Admits l)
    (right : past.Admits r) (computed : op.apply w l r = .ok d) : (stringLiteral op d).Honest past := by
  rcases Operator.apply_cases known computed with
    ⟨compares, b, rfl⟩ | ⟨-, other, -⟩ | ⟨rfl, a, b, rfl, rfl, rfl⟩
  · cases op with
    | add => cases compares
    | _ =>
      simp only [stringLiteral, literal, compares]
      exact .bool rfl (past.admits_of_not_text rfl)
  · rw [text] at other
    cases other
  · exact .string rfl (left.append right)

end Simplify

/-! ## Failures -/

/-- Whether a failure is one that the language has words of its own for: a complaint about operands, variables or
lists, a division by zero, a number that is too long, or nesting without end. -/
def Error.isForeseen : Error → Bool
  | invalidOperands _ _ _ | differentTypes _ _ | incompatibleKinds _ _ _ | notAList _ _ | emptyHead | unsortable
  | appendToNonList _ | undefinedVariable _ | divisionByZero | numeralTooLong _ | numberTooLong | endless => true
  | noPart _ _ | noComponent _ | unset _ | unordered _ _ _ | notIterable _ | noLength _ | unhashable _
  | notJoined _ _ | notAText _ _ _ | notAnInteger _ | noDescription => false

/-- A computation that fails only in ways that are foreseen. -/
def Foreseen {α : Type} (x : Except Error α) : Prop := ∀ e, x = .error e → e.isForeseen = true

namespace Foreseen

variable {α β : Type} {x : Except Error α}

theorem pure (a : α) : Foreseen (pure a : Except Error α) := by
  rintro e ⟨⟩

theorem throw {e : Error} (known : e.isForeseen = true) : Foreseen (throw e : Except Error α) := by
  rintro _ ⟨⟩
  exact known

theorem bind {f : α → Except Error β} (first : Foreseen x) (next : ∀ a, Foreseen (f a)) :
    Foreseen (x >>= f) := by
  cases x with
  | ok a => exact next a
  | error e => exact .throw (first e rfl)

theorem map {f : α → β} (first : Foreseen x) : Foreseen (do let a ← x; Pure.pure (f a)) :=
  first.bind fun a => .pure (f a)

theorem mapM {γ : Type} {f : γ → Except Error β} {items : List γ} (each : ∀ a ∈ items, Foreseen (f a)) :
    Foreseen (items.mapM f) := by
  induction items with
  | nil => exact .pure []
  | cons a rest ih =>
    rw [List.mapM_cons]
    rw [List.forall_mem_cons] at each
    exact each.1.bind fun _ => (ih each.2).map

end Foreseen

/-! ## Texts -/

namespace Datum

variable {d : Datum}

theorem foreseen_decimal (n : Int) : Foreseen (decimal n) := by
  unfold decimal
  split
  · exact .pure _
  · exact .throw rfl

/-- Booleans, integers and texts can be shown, up to the length of an integer. -/
theorem foreseen_texts (w : Wording) (truth : d.isTruth true = true) :
    Foreseen (d.plain w) ∧ Foreseen (d.quoted w) := by
  cases d with
  | bool b => exact ⟨.pure _, .pure _⟩
  | int n => exact ⟨foreseen_decimal n, foreseen_decimal n⟩
  | text s => exact ⟨.pure _, .pure _⟩
  | none | list | term => cases truth

end Datum

namespace Operator

variable {op : Operator} {l r : Datum} {w : Wording}

theorem sign_of_isKnown (known : op.isKnown = true) : op.sign = .text op.symbol := by
  cases op with
  | other sign => cases known
  | add | sub | mul | div | eq | ne | lt | le | gt | ge => rfl

theorem exists_sign (known : op.isKnown = true) : ∃ symbol, op.sign = .text symbol :=
  ⟨op.symbol, sign_of_isKnown known⟩

private theorem foreseen_arithmetic (m n : Int) : Foreseen (op.arithmetic m n) := by
  cases op with
  | div =>
    simp only [arithmetic]
    split
    · exact .throw rfl
    · exact .pure _
  | add | sub | mul | eq | ne | lt | le | gt | ge | other => exact .pure _

/-- Two booleans, two integers and two texts have an order. -/
private theorem foreseen_holds (left : l.isTruth true = true) (right : r.isTruth true = true)
    (same : l.typeName = r.typeName) : Foreseen (op.holds l r) := by
  cases l with
  | none | list | term => cases left
  | bool | int | text =>
    cases r with
    | none | list | term => cases right
    | bool | int | text => first | exact .pure _ | simp [Datum.typeName] at same

/-- What an operator does with booleans, integers and texts. -/
theorem foreseen_apply (left : l.isTruth true = true) (right : r.isTruth true = true) :
    Foreseen (op.apply w l r) := by
  have complaint {e : String → String → Error} (known : ∀ a b, (e a b).isForeseen = true) :
      Foreseen (do let a ← l.plain w; let b ← r.plain w; throw (e a b) : Except Error Datum) :=
    (Datum.foreseen_texts w left).1.bind fun _ => (Datum.foreseen_texts w right).1.bind fun _ => .throw (known _ _)
  have compared : Foreseen (op.comparison w l r) := by
    unfold comparison
    by_cases same : l.typeName = r.typeName
    · simp only [same, ne_eq, not_true_eq_false, if_false]
      split
      · exact .pure _
      · exact .pure _
      · exact (foreseen_holds left right same).map
    · simp only [same, ne_eq, not_false_eq_true, if_true]
      exact complaint fun _ _ => rfl
  cases op with
  | other sign => exact .pure _
  | eq | ne | lt | le | gt | ge => exact compared
  | sub | mul | div =>
    simp only [apply]
    split
    · exact foreseen_arithmetic _ _
    · exact complaint fun _ _ => rfl
  | add =>
    simp only [apply]
    split
    · exact .pure _
    · split
      · exact foreseen_arithmetic _ _
      · exact complaint fun _ _ => rfl

end Operator

namespace Term.Honest

variable {store : Store} {t : Term}

/-- An honest term can be printed and dumped, up to the length of an integer and to its depth. -/
theorem texts (stored : ∀ cell, ∀ t ∈ store.items cell, t.Honest past) (depth : Nat) (honest : t.Honest past) :
    Foreseen (t.printed store depth) ∧ Foreseen (t.dumped store depth) := by
  induction depth generalizing t with
  | zero => exact ⟨.throw rfl, .throw rfl⟩
  | succ depth ih =>
    have plain {d : Datum} (holds : t.value = .ok d) :=
      (Datum.foreseen_texts (wording store depth) (honest.value holds).truth).1
    cases honest with
    | int | bool | string => exact ⟨(plain rfl).bind fun _ => .pure _, (plain rfl).bind fun _ => .pure _⟩
    | name named => exact ⟨.pure _, .pure _⟩
    | function named inner => exact ⟨(ih inner).1.bind fun _ => .pure _, (ih inner).2.map⟩
    | @operation lhs rhs op left known right =>
      obtain ⟨symbol, sign⟩ := Operator.exists_sign known
      constructor
      · refine (ih left).1.bind fun _ => (ih right).1.bind fun _ => ?_
        rw [sign]
        exact .pure _
      · refine (ih left).2.bind fun _ => ?_
        rw [sign]
        exact (ih right).2.map
    | conditional first second third =>
      exact ⟨(ih first).1.bind fun _ => (ih second).1.bind fun _ => (ih third).1.bind fun _ => .pure _,
        (ih first).2.bind fun _ => (ih second).2.bind fun _ => (ih third).2.map⟩
    | chain each =>
      exact ⟨(Foreseen.mapM fun t member => (ih (each t member)).1).bind fun _ => .pure _,
        (Foreseen.mapM fun t member => (ih (each t member)).2).map⟩
    | list cell =>
      exact ⟨(Foreseen.mapM fun t member => (ih (stored cell t member)).1).bind fun _ => .pure _,
        (Foreseen.mapM fun t member => (ih (stored cell t member)).2).map⟩

theorem printed {w : World} {depth : Nat} (honest : t.Honest past) (world : w.Honest past) :
    Foreseen (t.printed w.store depth) :=
  (honest.texts world.items depth).1

theorem dumped {w : World} {depth : Nat} (honest : t.Honest past) (world : w.Honest past) :
    Foreseen (t.dumped w.store depth) :=
  (honest.texts world.items depth).2

/-- So can the components of which it is made. -/
theorem components (stored : ∀ cell, ∀ t ∈ store.items cell, t.Honest past) (depth : Nat)
    (honest : t.Honest past) : ∀ entry ∈ t.components, Foreseen (entry.2.dumped store depth) := by
  have quoted {d : Datum} (holds : t.value = .ok d) :=
    (Datum.foreseen_texts (wording store depth) (honest.value holds).truth).2
  cases honest with
  | int | bool | string => exact List.forall_mem_singleton.2 (quoted rfl)
  | name named => exact List.forall_mem_singleton.2 (.pure _)
  | function named inner => simpa [Term.components] using ⟨.pure _, (inner.texts stored depth).2⟩
  | @operation lhs rhs op left known right =>
    obtain ⟨symbol, sign⟩ := Operator.exists_sign known
    simpa [Term.components, sign] using ⟨(left.texts stored depth).2, .pure _, (right.texts stored depth).2⟩
  | conditional first second third =>
    simpa [Term.components] using
      ⟨(first.texts stored depth).2, (second.texts stored depth).2, (third.texts stored depth).2⟩
  | chain each =>
    exact List.forall_mem_singleton.2 (Foreseen.mapM fun t member => ((each t member).texts stored depth).2).map
  | list cell => exact List.forall_mem_nil _

end Term.Honest

/-- Components can be dumped together, up to what stops one of them. -/
theorem Component.foreseen_dumpedBindings {store : Store} {depth : Nat} {components : Bindings Component}
    (each : ∀ entry ∈ components, Foreseen (entry.2.dumped store depth)) :
    Foreseen (dumpedBindings store depth components) :=
  (Foreseen.mapM fun entry member => (each entry member).map).map

end DotLambda
