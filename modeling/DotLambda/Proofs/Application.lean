import DotLambda.Proofs.Atomicity
import DotLambda.Proofs.Depth
import DotLambda.Proofs.Replacement

/-!
Application as substitution. To apply a function to a number is to write the number wherever the parameter
stands in its body. Main statement: this is so where the body only passes its parameter on and nothing is left
to simplify in what it comes to; it is not so where an operator has the parameter as an operand.
-/

namespace DotLambda

open Eval

namespace Pairing

/-- The pairing under which a name stands for a number. -/
def filling (names : String → Prop) {x : String} (notTrue : x ≠ "true") (notFalse : x ≠ "false") (n : Nat) :
    Pairing where
  __ := same
  names := names
  blank := some (x, n)
  blank_ne_true _ is := by
    cases is
    exact notTrue rfl
  blank_ne_false _ is := by
    cases is
    exact notFalse rfl

variable {names : String → Prop} {x id : String} {notTrue : x ≠ "true"} {notFalse : x ≠ "false"} {n : Nat}

theorem isBlank_filling : (filling names notTrue notFalse n).IsBlank id ↔ id = x := by
  constructor
  · rintro ⟨m, is⟩
    cases is
    rfl
  · rintro rfl
    exact ⟨n, rfl⟩

theorem ordinary_filling : (filling names notTrue notFalse n).Ordinary id ↔ names id ∧ id ≠ x := by
  constructor
  · intro ordinary
    exact ⟨ordinary.named, fun same => ordinary.other (isBlank_filling.2 same)⟩
  · rintro ⟨named, different⟩
    exact ⟨named, fun blank => different (isBlank_filling.1 blank)⟩

end Pairing

namespace Phrase

/-- A tree with a number in the place of a name. -/
def fill (x : String) (n : Nat) : {form : Form} → Phrase form → Phrase form
  | _, number m => number m
  | _, string text => string text
  | _, name id => if id = x then number n else name id
  | _, group e => group (e.fill x n)
  | _, sign minus e => sign minus (e.fill x n)
  | _, dyad op lhs rhs => dyad op (lhs.fill x n) (rhs.fill x n)
  | _, negation e => negation (e.fill x n)
  | _, conditional condition yes no => conditional (condition.fill x n) (yes.fill x n) (no.fill x n)
  | _, function y body => function y (body.fill x n)
  | _, builtin f e => builtin f (e.fill x n)
  | _, emptyList => emptyList
  | _, list contents => list (contents.fill x n)
  | _, alone e => alone (e.fill x n)
  | _, application first rest => application (first.fill x n) (rest.fill x n)
  | _, argument e => argument (e.fill x n)
  | _, arguments first rest => arguments (first.fill x n) (rest.fill x n)
  | _, item e => item (e.fill x n)
  | _, items first rest => items (first.fill x n) (rest.fill x n)

/-- A name stands in a tree, or is the parameter of a function in it. -/
def Mentions (x : String) : {form : Form} → Phrase form → Prop
  | _, number _ | _, string _ | _, emptyList => False
  | _, name id => id = x
  | _, function y body => y = x ∨ body.Mentions x
  | _, group e => e.Mentions x
  | _, list contents => contents.Mentions x
  | _, sign _ e | _, negation e | _, builtin _ e | _, alone e | _, argument e | _, item e => e.Mentions x
  | _, dyad _ lhs rhs => lhs.Mentions x ∨ rhs.Mentions x
  | _, conditional condition yes no => condition.Mentions x ∨ yes.Mentions x ∨ no.Mentions x
  | _, application first rest | _, arguments first rest => first.Mentions x ∨ rest.Mentions x
  | _, items first rest => first.Mentions x ∨ rest.Mentions x

/-- A tree that only passes on what a name stands for: the name stands in no operand and no argument, other than
in the items of a list that is not sorted, and is not the parameter of a function. -/
def Passive (x : String) : {form : Form} → Phrase form → Prop
  | _, number _ | _, string _ | _, name _ | _, emptyList => True
  | _, group e => e.Passive x
  | _, list contents => contents.Passive x
  | _, sign false e | _, alone e | _, argument e | _, item e => e.Passive x
  | _, sign true e | _, negation e => ¬ e.Mentions x
  | _, dyad _ lhs rhs => ¬ lhs.Mentions x ∧ ¬ rhs.Mentions x
  | _, conditional condition yes no => condition.Passive x ∧ yes.Passive x ∧ no.Passive x
  | _, function y body => y ≠ x ∧ body.Passive x
  | _, builtin f (list contents) => ¬ contents.Mentions x ∨ f ≠ .sort ∧ contents.Passive x
  | _, builtin _ e => ¬ e.Mentions x
  | _, application first rest | _, arguments first rest => first.Passive x ∧ ¬ rest.Mentions x
  | _, items first rest => first.Passive x ∧ rest.Passive x

section
variable {names : String → Prop} {x : String} {notTrue : x ≠ "true"} {notFalse : x ≠ "false"} {n : Nat}
  {mixed : Bool}

theorem Twin.fill_of_absent {form : Form} {e : Phrase form} (named : ∀ id, e.Mentions id → names id)
    (absent : ¬ e.Mentions x) : Twin (.filling names notTrue notFalse n) mixed e (e.fill x n) := by
  induction e generalizing mixed with
  | number m => exact .number m
  | string text => exact .string text
  | name id =>
    have different : id ≠ x := absent
    rw [fill, if_neg different]
    exact .name (Pairing.ordinary_filling.2 ⟨named id rfl, different⟩)
  | group inner ih => exact .group (ih named absent)
  | sign minus operand ih =>
    cases minus with
    | false => exact .plus (ih named absent)
    | true => exact .minus (ih named absent)
  | dyad op lhs rhs left right =>
    simp only [Mentions, or_imp, forall_and, not_or] at named absent
    exact .dyad op (left named.1 absent.1) (right named.2 absent.2)
  | negation operand ih => exact .negation (ih named absent)
  | conditional condition yes no decides first second =>
    simp only [Mentions, or_imp, forall_and, not_or] at named absent
    exact .conditional (decides named.1 absent.1) (first named.2.1 absent.2.1) (second named.2.2 absent.2.2)
  | function y body ih =>
    simp only [Mentions, or_imp, forall_and, not_or] at named absent
    exact .function (fun _ blank => absent.1 (Pairing.isBlank_filling.1 blank)) (ih named.2 absent.2)
  | builtin f argument ih => exact .builtin f (ih named absent)
  | emptyList => exact .emptyList
  | list contents ih => exact .list (ih named absent)
  | alone only ih => exact .alone (ih named absent)
  | application first rest head others =>
    simp only [Mentions, or_imp, forall_and, not_or] at named absent
    exact .application (head named.1 absent.1) (others named.2 absent.2)
  | argument last ih => exact .argument (ih named absent)
  | arguments first rest head others =>
    simp only [Mentions, or_imp, forall_and, not_or] at named absent
    exact .arguments (head named.1 absent.1) (others named.2 absent.2)
  | item last ih => exact .item (ih named absent)
  | items first rest head others =>
    simp only [Mentions, or_imp, forall_and, not_or] at named absent
    exact .items (head named.1 absent.1) (others named.2 absent.2)

/-- A tree that only passes on what a name stands for is alike with a number in its place. -/
theorem Twin.fill {form : Form} {e : Phrase form} (named : ∀ id, e.Mentions id → names id)
    (passive : e.Passive x) : Twin (.filling names notTrue notFalse n) true e (e.fill x n) := by
  induction e with
  | number m => exact .number m
  | string text => exact .string text
  | name id =>
    rw [Phrase.fill]
    split
    · rename_i same
      subst same
      exact .blank rfl
    · rename_i different
      exact .name (Pairing.ordinary_filling.2 ⟨named id rfl, different⟩)
  | group inner ih => exact .group (ih named passive)
  | sign minus operand ih =>
    cases minus with
    | false => exact .plus (ih named passive)
    | true => exact .minus (.fill_of_absent named passive)
  | dyad op lhs rhs =>
    simp only [Mentions, or_imp, forall_and] at named
    exact .dyad op (.fill_of_absent named.1 passive.1) (.fill_of_absent named.2 passive.2)
  | negation operand => exact .negation (.fill_of_absent named passive)
  | conditional condition yes no decides first second =>
    simp only [Mentions, or_imp, forall_and] at named
    exact .conditional (decides named.1 passive.1) (first named.2.1 passive.2.1) (second named.2.2 passive.2.2)
  | function y body ih =>
    simp only [Mentions, or_imp, forall_and] at named
    exact .function (fun _ blank => passive.1 (Pairing.isBlank_filling.1 blank)) (ih named.2 passive.2)
  | builtin f argument ih =>
    cases argument with
    | list contents =>
      rcases passive with absent | ⟨unsorted, passive⟩
      · exact .builtin f (.fill_of_absent named absent)
      · have twin := ih named passive
        cases twin with
        | list inner => exact .ofList unsorted inner
    | number | string | name | group | sign | dyad | negation | conditional | function | builtin | emptyList =>
      exact .builtin f (.fill_of_absent named passive)
  | emptyList => exact .emptyList
  | list contents ih => exact .list (ih named passive)
  | alone only ih => exact .alone (ih named passive)
  | application first rest head =>
    simp only [Mentions, or_imp, forall_and] at named
    exact .application (head named.1 passive.1) (.fill_of_absent named.2 passive.2)
  | argument last ih => exact .argument (ih named passive)
  | arguments first rest head =>
    simp only [Mentions, or_imp, forall_and] at named
    exact .arguments (head named.1 passive.1) (.fill_of_absent named.2 passive.2)
  | item last ih => exact .item (ih named passive)
  | items first rest head others =>
    simp only [Mentions, or_imp, forall_and] at named
    exact .items (head named.1 passive.1) (others named.2 passive.2)

end

end Phrase

/-! ## What finding a value leaves alone -/

namespace Phrase

variable {s : Settings} {w : World} {r : Region}

theorem adds_dyad (op : Dyad) {lhs rhs : Term} (closed : w.Closed) (left : lhs.In r w.store)
    (right : rhs.In r w.store) : AddsTerm r w (op.evaluate s lhs rhs) := by
  cases op with
  | add => exact @Meaning.adds_arithmetic _ _ _ _ _ "+" closed left right
  | sub => exact @Meaning.adds_arithmetic _ _ _ _ _ "-" closed left right
  | mul => exact @Meaning.adds_arithmetic _ _ _ _ _ "*" closed left right
  | div => exact @Meaning.adds_arithmetic _ _ _ _ _ "/" closed left right
  | eq => exact @Meaning.adds_equality _ _ _ _ _ "==" closed left right
  | ne => exact @Meaning.adds_equality _ _ _ _ _ "!=" closed left right
  | lt => exact @Meaning.adds_comparison _ _ _ _ _ "<" closed left right
  | le => exact @Meaning.adds_comparison _ _ _ _ _ "<=" closed left right
  | gt => exact @Meaning.adds_comparison _ _ _ _ _ ">" closed left right
  | ge => exact @Meaning.adds_comparison _ _ _ _ _ ">=" closed left right
  | both => exact Meaning.adds_conjunction closed left.within right.within
  | either => exact Meaning.adds_disjunction closed left.within right.within

theorem adds_builtin (f : Builtin) {t : Term} (inside : w.In r) (here : t.In r w.store) :
    AddsTerm r w (f.evaluate s t) := by
  cases f with
  | head => exact Meaning.adds_head inside here
  | tail => exact Meaning.adds_tail inside here
  | sort => exact Meaning.adds_sort inside here
  | length => exact Meaning.adds_length inside.closed here.within

/-- To find the value of a tree changes nothing that there was. -/
theorem adds_evaluate {form : Form} (e : Phrase form) (inside : w.In r) : AddsTerm r w (e.evaluate s) := by
  induction e generalizing w with
  | number n => exact .make inside.closed (Term.among_int.2 rfl)
  | string text => exact .make inside.closed (Term.among_string.2 rfl)
  | name id => exact Meaning.adds_name inside
  | group inner ih => exact ih inside
  | sign minus operand ih => exact (ih inside).bind fun _ _ _ closed here => Meaning.adds_sign closed here
  | dyad op lhs rhs left right =>
    refine (left inside).bind fun l _ grows closed here => ?_
    exact (right (inside.grow grows closed)).bind fun r _ grows closed there =>
      adds_dyad op closed (grows.carry here) there
  | negation operand ih =>
    exact (ih inside).bind fun _ _ _ closed here => Meaning.adds_negation closed here.within
  | conditional condition yes no decides first second =>
    refine (decides inside).bind fun c _ grows closed here => ?_
    have inside := inside.grow grows closed
    refine (first inside).bind fun y _ early closed there => ?_
    refine (second (inside.grow early closed)).bind fun n _ late closed otherwise => ?_
    exact Meaning.adds_conditional closed ((early.trans late).carry here) (late.carry there) otherwise
  | function y body ih =>
    exact (ih inside).bind fun _ _ _ closed here => .make closed (Term.among_function.2 ⟨rfl, here⟩)
  | builtin f argument ih =>
    exact (ih inside).bind fun _ _ grows closed here => adds_builtin f (inside.grow grows closed) here
  | emptyList => exact .makeList inside.closed nofun
  | list contents ih => exact ih inside
  | alone only ih => exact ih inside
  | application first rest head others | arguments first rest head others =>
    refine (head inside).bind fun f _ grows closed here => ?_
    have inside := inside.grow grows closed
    exact (others inside).bind fun r _ grows closed later =>
      Meaning.adds_chain (inside.grow grows closed) (grows.carry here) later
  | argument last ih => exact ih inside
  | item last ih =>
    exact (ih inside).bind fun _ _ _ closed here => .makeList closed (List.forall_mem_singleton.2 here)
  | items first rest head others =>
    refine (head inside).bind fun f _ grows closed here => ?_
    exact (others (inside.grow grows closed)).bind fun r _ grows closed later =>
      Meaning.adds_item closed (grows.carry here) later

end Phrase

/-! ## Outcomes -/

/-- Shows a term that has been simplified. -/
def Meaning.display (s : Settings) (t : Term) : Eval Unit := do
  let shown ← Eval.examine fun store => t.printed store s.depth
  Eval.emit (.line (Text.Peeled.peel "(" ")" shown))

/-- What a line has written, or how it has failed. -/
def Reply.outcome (reply : Reply) : Except Error (List Event) :=
  match reply.result with
  | .ok _ => .ok reply.events
  | .error e => .error e

namespace Eval

/-- What an evaluation has written, or how it has failed. -/
def outcome {α : Type} (x : Eval α) (w : World) : Except Error (List Event) :=
  match x w with
  | .ok _ after => .ok after.output.toList
  | .error e _ => .error e

variable {α β : Type} {w w' : World} {x : Eval α}

theorem outcome_bind_of_ok {f : α → Eval β} {a : α} {after : World} (ended : x w = .ok a after) :
    outcome (x >>= f) w = outcome (f a) after := by
  rw [outcome, outcome, bind_of_ok ended]

theorem outcome_bind_of_error {f : α → Eval β} {e : Error} {after : World} (ended : x w = .error e after) :
    outcome (x >>= f) w = .error e := by
  rw [outcome, bind_of_error ended]

/-- What is shown is the text of a term, unless there is none. -/
theorem outcome_display_eq (s : Settings) (t : Term) (w : World) :
    outcome (Meaning.display s t) w = (do
      let text ← t.printed w.store s.depth
      pure (w.output.push (.line (Text.Peeled.peel "(" ")" text))).toList) := by
  cases printed : t.printed w.store s.depth with
  | ok text =>
    rw [Meaning.display, outcome_bind_of_ok (Eval.examine_of_ok printed)]
    rfl
  | error e =>
    rw [Meaning.display, outcome_bind_of_error (Eval.examine_of_error printed)]
    rfl

end Eval

/-- A line that prints what its words are read as. -/
theorem Session.outcome_step {s : Settings} {session : Session} {line : String} {words : List Word} {x : Eval Term}
    (scanned : (Scan.ofText line).Of (.sign .printWord "print" :: words))
    (value : ReadsTerm s .exprList none words x) :
    (session.step s line).1.outcome = Eval.outcome (do let t ← x; Meaning.print s t) session.world := by
  obtain ⟨tokens, items, same⟩ := scanned
  have evaluation : Session.evaluation s line = (do
      (do let t ← x; Meaning.print s t)
      pure none) := by
    rw [Session.evaluation, items, parse_print value same]
    simp only [bind_assoc, pure_bind]
    rfl
  rw [Session.step, Session.run, evaluation, Eval.outcome]
  cases ended : (do let t ← x; Meaning.print s t : Eval Unit) session.world with
  | ok a after =>
    rw [bind_of_ok ended]
    rfl
  | error e after =>
    rw [bind_of_error ended]
    rfl

/-! ## Application -/

namespace Phrase

/-- Prints the value of a tree. -/
def showValue (s : Settings) {form : Form} (e : Phrase form) : Eval Unit := do
  let t ← e.evaluate s
  Meaning.print s t

end Phrase

section
variable {s : Settings} {x : String} {n depth : Nat} (untraced : s.tracing = false)
include untraced

end

namespace Phrase

/-- The names that a tree uses: those in it, and those in what these stand for. -/
inductive Uses {form : Form} (e : Phrase form) (session : Session) : String → Prop
  | here {id : String} (stands : e.Mentions id) : Uses e session id
  | inside {entry : String × Term} {id : String} (uses : Uses e session entry.1) (bound : entry ∈ session.bindings)
      (mentions : session.store.Mentions entry.2 id) : Uses e session id

/-- A name that stands for nothing itself, and occurs in nothing that a name stands for which the tree uses. -/
structure Free {form : Form} (e : Phrase form) (session : Session) (x : String) : Prop where
  ne_true : x ≠ "true"
  ne_false : x ≠ "false"
  unbound : session.bindings.find? x = none
  absent : ∀ entry ∈ session.bindings, e.Uses session entry.1 → ¬ session.store.Mentions entry.2 x

variable {session : Session} {x : String} {form : Form} {e : Phrase form}

/-- Words that write a tree between parentheses: they are read as a sequence with the value of the tree. -/
def WrittenAs (e : Phrase .sequence) (words : List Word) : Prop :=
  ∀ s : Settings, s.tracing = false → ReadsTerm s .exprList (some .rightParen) words (e.evaluate s)

theorem writtenAs_words (e : Phrase .sequence) : e.WrittenAs e.words :=
  fun _ untraced => e.readable untraced _ (by decide)

/-- The words of a function with a parameter and a body that is applied to a number. -/
def applied (x : String) (body : List Word) (n : Nat) : List Word :=
  parenthesize (.sign .lambda "\\" :: .name x :: .sign .arrow "=>" :: body) ++ [.sign .dot ".", .number n]

section
open Automaton

variable {s : Settings} {e : Phrase .sequence} {words : List Word} {line : String} (untraced : s.tracing = false)
  (written : e.WrittenAs words)
include untraced written

theorem outcome_group (scanned : (Scan.ofText line).Of (.sign .printWord "print" :: parenthesize words)) :
    (session.step s line).1.outcome = outcome (e.showValue s) session.world := by
  have operand : ReadsOperand s (parenthesize words) (e.evaluate s) := fun follower follows =>
    .parenthesized untraced (reduces_of_mem_afterFactor (by decide) follows) (written s untraced)
  have value : ReadsTerm s .exprList none (parenthesize words) (e.evaluate s) :=
    .ofExpr untraced (reduces_of_mem_closers (by decide)) (operand.expr untraced (by decide))
  exact Session.outcome_step scanned value

end

end Phrase

end DotLambda
