import DotLambda.Session
import DotLambda.Proofs.Arithmetic
import DotLambda.Proofs.Spelling
import Mathlib.Algebra.GroupWithZero.Nat
import Mathlib.Algebra.Order.BigOperators.Group.List
import Mathlib.Algebra.Order.Group.Nat
import Mathlib.Data.Finset.Card
import Mathlib.Logic.Relation

/-!
Systems of arithmetic equations, entered line by line. Main statement: in whatever order the equations of a
system without cycles are entered, every line succeeds, and then each name prints as its integer value.
-/

namespace DotLambda

/-- A name with the expression that defines it. -/
structure Equation where
  name : String
  value : Arith .sum

/-- The words of the line that enters an equation. -/
def Equation.words (eq : Equation) : List Word :=
  .name eq.name :: .sign .assign ":=" :: eq.value.words

/-- A name stands in the definition of another one. -/
def Depends (equations : List Equation) (used defined : String) : Prop :=
  ∃ eq ∈ equations, eq.name = defined ∧ used ∈ eq.value.names

/-- Equations that define each of their names once, use no others, and do not go round in circles. -/
structure System where
  equations : List Equation
  distinct : (equations.map Equation.name).Nodup
  plain : ∀ eq ∈ equations, eq.name ≠ "true" ∧ eq.name ≠ "false"
  closed : ∀ eq ∈ equations, ∀ id ∈ eq.value.names, id ∈ equations.map Equation.name
  acyclic : ∀ id, ¬ Relation.TransGen (Depends equations) id id

/-- Names that are defined by lower ones only do not go round in circles. -/
theorem Depends.acyclic {equations : List Equation} (rank : String → Nat)
    (lower : ∀ eq ∈ equations, ∀ id ∈ eq.value.names, rank id < rank eq.name) (id : String) :
    ¬ Relation.TransGen (Depends equations) id id := by
  have falls {used defined : String} (leads : Relation.TransGen (Depends equations) used defined) :
      rank used < rank defined := by
    induction leads with
    | single depends =>
      obtain ⟨eq, listed, rfl, mentioned⟩ := depends
      exact lower eq listed _ mentioned
    | tail _ depends ih =>
      obtain ⟨eq, listed, rfl, mentioned⟩ := depends
      exact ih.trans (lower eq listed _ mentioned)
  exact fun circle => Nat.lt_irrefl _ (falls circle)

namespace System

/-- The names that a system defines. -/
def names (system : System) : List String := system.equations.map Equation.name

/-- Values that satisfy the equations, where no expression divides by zero and none has a part of too many
digits. -/
def Solves (system : System) (values : String → Int) : Prop :=
  ∀ eq ∈ system.equations, eq.value.value? values = some (values eq.name)

/-! ## How deep a system goes -/

open Classical in
/-- How many names a name depends on, directly or not. -/
noncomputable def rank (system : System) (id : String) : Nat :=
  (system.names.toFinset.filter fun used => Relation.TransGen (Depends system.equations) used id).card

theorem rank_lt (system : System) {used defined : String}
    (depends : Depends system.equations used defined) : system.rank used < system.rank defined := by
  classical
  have known : used ∈ system.names.toFinset := by
    obtain ⟨eq, listed, -, mentioned⟩ := depends
    exact List.mem_toFinset.2 (system.closed eq listed used mentioned)
  have fewer : ∀ id ∈ system.names.toFinset.filter (Relation.TransGen (Depends system.equations) · used),
      id ∈ system.names.toFinset.filter (Relation.TransGen (Depends system.equations) · defined) := by
    intro id counted
    obtain ⟨listed, leads⟩ := Finset.mem_filter.1 counted
    exact Finset.mem_filter.2 ⟨listed, leads.tail depends⟩
  refine Finset.card_lt_card ((Finset.ssubset_iff_of_subset fewer).2 ⟨used, ?_, ?_⟩)
  · exact Finset.mem_filter.2 ⟨known, .single depends⟩
  · exact fun counted => system.acyclic used (Finset.mem_filter.1 counted).2

/-- More than the height of any expression. -/
def span (system : System) : Nat := (system.equations.map fun eq => eq.value.height).sum

theorem height_le_span (system : System) {eq : Equation} (listed : eq ∈ system.equations) :
    eq.value.height ≤ system.span :=
  List.le_sum_of_mem (List.mem_map_of_mem listed)

/-- What the names stand for, and how deep their terms go at most. -/
noncomputable def reckoning (system : System) (values : String → Int) : Reckoning where
  names := system.names
  values := values
  need id := system.span * (system.rank id + 1)

/-- A depth in which every name has room. -/
noncomputable def enough (system : System) : Nat :=
  (system.names.map fun id => system.span * (system.rank id + 1)).sum + 1

variable (system : System) (values : String → Int)

/-- The names in an expression need less than the name that it defines, by more than its height. -/
theorem need_used_le {eq : Equation} (listed : eq ∈ system.equations) {id : String}
    (used : id ∈ eq.value.names) :
    (system.reckoning values).need id ≤ system.span * system.rank eq.name := by
  have lower : system.rank id + 1 ≤ system.rank eq.name := system.rank_lt ⟨eq, listed, rfl, used⟩
  exact Nat.mul_le_mul_left system.span lower

theorem height_le_need {eq : Equation} (listed : eq ∈ system.equations) :
    system.span * system.rank eq.name + eq.value.height ≤ (system.reckoning values).need eq.name := by
  have small := system.height_le_span listed
  simp only [reckoning, Nat.mul_succ]
  omega

theorem need_lt_enough {id : String} (known : id ∈ system.names) :
    (system.reckoning values).need id < system.enough :=
  Nat.lt_succ_of_le (List.le_sum_of_mem
    (List.mem_map_of_mem (f := fun id => system.span * (system.rank id + 1)) known))

end System

/-! ## Lines -/

/-- A line whose tokens are parsed as a statement. -/
theorem Session.step_of_parse {s : Settings} {session after : Session} {line : String}
    {words : List Word} (scanned : (Scan.ofText line).Of words) {x : Eval (Parse.Outcome Meaning)}
    (parsed : ∀ tokens : List Token, tokens.map Token.word = words →
      Parse.parse (Meaning.reading s) (tokens.map .token) = x) {events : Array Event}
    (done : x ⟨session.bindings, session.store, #[]⟩ =
      .ok (.accepted (.done none)) ⟨after.bindings, after.store, events⟩) :
    session.step s line = (⟨events.toList, .ok none⟩, after) := by
  obtain ⟨tokens, items, same⟩ := scanned
  have evaluated : Session.evaluation s line ⟨session.bindings, session.store, #[]⟩ =
      .ok none ⟨after.bindings, after.store, events⟩ := by
    rw [Session.evaluation, items, parsed tokens same, Eval.bind_of_ok done]
    rfl
  simp only [Session.step, Session.run, evaluated]

/-- What is written when a name is bound. -/
def Event.assigned (id text : String) : Event :=
  .colored .green ("Rule: statement => ID ASSIGN expr_list (" ++ id ++ ", " ++ text ++ ")")

theorem Meaning.assign_eq {s : Settings} {w : World} (id : String) {text : String} {t : Term}
    (shown : t.dumped w.store s.depth = .ok text) :
    Meaning.assign s id t w =
      .ok () ⟨w.bindings.insert id t, w.store, w.output.push (.assigned id text)⟩ := by
  rw [Meaning.assign, Eval.bind_of_ok (Eval.examine_of_ok shown)]
  rfl

theorem Text.Decimal.mem_digits {n : Int} {c : Char} (member : c ∈ (Text.Decimal.digits n).toList) :
    c = '-' ∨ c.isDigit = true := by
  have digits {m : Nat} (member : c ∈ m.repr.toList) : c.isDigit = true := by
    rw [Nat.toList_repr] at member
    exact Nat.isDigit_of_mem_toDigits (by decide) (by decide) member
  cases n with
  | ofNat m => exact .inr (digits member)
  | negSucc m =>
    rw [Text.Decimal.digits, String.toList_append, List.mem_append] at member
    rcases member with minus | member
    · exact .inl (List.mem_singleton.1 minus)
    · exact .inr (digits member)

theorem Text.Decimal.paren_not_mem_digits (n : Int) : '(' ∉ (Text.Decimal.digits n).toList :=
  fun member => absurd (mem_digits member) (by decide)

theorem Text.Peeled.peelUpTo_of_unopened {opening closing cs : List Char} (bare : opening.isPrefixOf cs = false)
    (layers : Nat) : Text.Peeled.peelUpTo opening closing layers cs = cs := by
  cases layers <;> simp [Text.Peeled.peelUpTo, Text.Peeled.encloses, bare]

/-- Nothing is peeled off a text that does not open. -/
theorem Text.Peeled.peel_of_unopened {opening closing s : String}
    (bare : opening.toList.isPrefixOf s.toList = false) : Text.Peeled.peel opening closing s = s := by
  rw [Text.Peeled.peel, Text.Peeled.peelUpTo_of_unopened bare, String.ofList_toList]

/-- Nothing is peeled off a text without an opening parenthesis. -/
theorem Text.Peeled.peel_eq_self {opening closing s : String} (opens : '(' ∈ opening.toList)
    (without : '(' ∉ s.toList) : Text.Peeled.peel opening closing s = s := by
  refine Text.Peeled.peel_of_unopened (Bool.eq_false_iff.2 fun starts => without ?_)
  exact (List.isPrefixOf_iff_prefix.1 starts).subset opens

/-- What simplifies to a number is printed as its decimal text. -/
theorem Meaning.print_eq {s : Settings} {w : World} {t : Term} {n : Int} (deep : 0 < s.depth)
    (short : n.natAbs < Text.Decimal.bound)
    (simplified : simplify s w.bindings s.depth t = pure (.int (.int n))) :
    Meaning.print s t w =
      .ok () ⟨w.bindings, w.store, w.output.push (.line (Text.Decimal.digits n))⟩ := by
  have without := Text.Decimal.paren_not_mem_digits n
  have now : Meaning.simplifyNow s t w = .ok (.int (.int n)) w := by
    have read : (get : Eval World) w = .ok w w := rfl
    rw [Meaning.simplifyNow, Eval.bind_of_ok read, simplified]
    rfl
  have shown : (Term.int (.int n)).printed w.store s.depth = .ok (Text.Decimal.digits n) := by
    obtain ⟨depth, deeper⟩ := Nat.exists_eq_add_of_lt deep
    rw [deeper]
    simp only [Term.printed, Datum.plain, Datum.quoted, Datum.decimal_eq short]
    change Except.ok (Text.Peeled.peel "((" "))" (Text.Decimal.digits n)) = _
    rw [Text.Peeled.peel_eq_self (by decide) without]
  have peeled : Text.Peeled.peel "(" ")" (Text.Decimal.digits n) = Text.Decimal.digits n :=
    Text.Peeled.peel_eq_self (by decide) without
  rw [Meaning.print, Eval.bind_of_ok now, Eval.bind_of_ok (Eval.examine_of_ok shown), peeled]
  rfl

/-! ## Sessions -/

/-- A line has been carried out, and nothing was complained about. -/
def Reply.Succeeds (reply : Reply) : Prop :=
  reply.result = .ok none ∧ Event.errorStream reply.events = ""

/-- The reply to a question for a number. -/
def Reply.number (n : Int) : Reply := ⟨[.line (Text.Decimal.digits n)], .ok none⟩

namespace System

variable {system : System} {values : String → Int} (solves : system.Solves values) {s : Settings}
  (untraced : s.tracing = false) (deep : system.enough ≤ s.depth)
include solves untraced deep

/-- The line of an equation binds its name to a term that denotes its value. -/
theorem step_equation {session : Session} (holds : (system.reckoning values).Holds session.bindings)
    {eq : Equation} (listed : eq ∈ system.equations) {line : String}
    (spelled : Spells line.toList eq.words) :
    ∃ reply t, session.step s line = (reply, ⟨session.bindings.insert eq.name t, session.store⟩) ∧
      reply.Succeeds ∧
      Denotes (system.reckoning values) ((system.reckoning values).need eq.name) t (values eq.name) := by
  let w : World := ⟨session.bindings, session.store, #[]⟩
  have known : ∀ id ∈ eq.value.names, id ∈ system.names ∧
      (system.reckoning values).need id ≤ system.span * system.rank eq.name :=
    fun id used => ⟨system.closed eq listed id used, system.need_used_le values listed used⟩
  obtain ⟨t, built, denotes⟩ := eq.value.exists_denotes untraced (w := w) holds known (solves eq listed)
  have fits := denotes.mono (system.height_le_need values listed)
  have room := system.need_lt_enough values (List.mem_map_of_mem listed)
  obtain ⟨text, shown⟩ := (fits.mono (Nat.le_of_lt (Nat.lt_of_lt_of_le room deep))).exists_dumped w.store
  have parsed (tokens : List Token) (same : tokens.map Token.word = eq.words) :=
    parse_assign (.ofExpr untraced (Automaton.reduces_of_mem_closers (by decide))
      (eq.value.readable untraced none (by decide))) same
  have done : (do
      let t ← eq.value.evaluate s
      Meaning.assign s eq.name t
      pure (.accepted (.done none)) : Eval (Parse.Outcome Meaning)) w =
        .ok (.accepted (.done none))
          ⟨session.bindings.insert eq.name t, session.store, #[.assigned eq.name text]⟩ := by
    rw [Eval.bind_of_ok built, Eval.bind_of_ok (Meaning.assign_eq eq.name shown)]
    rfl
  exact ⟨_, t, Session.step_of_parse spelled.scan_ofText parsed done, ⟨rfl, rfl⟩, fits⟩

/-- The lines of equations, in any order, bind their names. -/
theorem steps_equations {order : List Equation} {lines : List String}
    (spelled : List.Forall₂ (fun eq line => Spells line.toList eq.words) order lines)
    (listed : ∀ eq ∈ order, eq ∈ system.equations) {session : Session}
    (holds : (system.reckoning values).Holds session.bindings) :
    ∃ (replies : List (Reply × Session)) (final : Session),
      (∀ rest, session.steps s (lines ++ rest) = replies ++ final.steps s rest) ∧
      replies.length = lines.length ∧ (∀ reply ∈ replies, reply.1.Succeeds) ∧
      (system.reckoning values).Holds final.bindings ∧
      ∀ id, (session.bindings.find? id).isSome ∨ id ∈ order.map Equation.name →
        (final.bindings.find? id).isSome := by
  induction spelled generalizing session with
  | nil => exact ⟨[], session, fun _ => rfl, rfl, by simp, holds, by simp⟩
  | @cons eq line order lines first others ih =>
    obtain ⟨reply, t, stepped, succeeds, denotes⟩ :=
      step_equation solves untraced deep holds (listed eq List.mem_cons_self) first
    let next : Session := ⟨session.bindings.insert eq.name t, session.store⟩
    have nextHolds : (system.reckoning values).Holds next.bindings := holds.insert denotes
    obtain ⟨replies, final, runs, length, succeed, finalHolds, bound⟩ :=
      ih (fun eq member => listed eq (List.mem_cons_of_mem _ member)) nextHolds
    refine ⟨(reply, next) :: replies, final, ?_, by simp [length], ?_, finalHolds, ?_⟩
    · intro rest
      rw [List.cons_append, Session.steps, stepped]
      exact congrArg ((reply, next) :: ·) (runs rest)
    · exact List.forall_mem_cons.2 ⟨succeeds, succeed⟩
    · intro id known
      apply bound
      by_cases same : id = eq.name
      · exact .inl (by simp [next, same, Bindings.find?_insert_self])
      · simpa [next, same, Bindings.find?_insert_of_ne t _ same] using known

/-- Once all names are bound, each prints as its value. -/
theorem step_print {session : Session} (complete : (system.reckoning values).Complete session.bindings)
    {id : String} (known : id ∈ system.names) {line : String}
    (spelled : Spells line.toList [.sign .printWord "print", .name id]) :
    session.step s line = (.number (values id), session) := by
  let w : World := ⟨session.bindings, session.store, #[]⟩
  obtain ⟨t, found⟩ := complete.bound id known
  have denotes := complete.holds id t found
  have room := Nat.lt_of_lt_of_le (system.need_lt_enough values known) deep
  have short : (values id).natAbs < Text.Decimal.bound := by
    obtain ⟨eq, listed, rfl⟩ := List.mem_map.1 known
    exact Arith.short_of_value? (solves eq listed)
  let asked : Arith .sum := .ofProduct (.ofFactor (.name id))
  have named : asked.evaluate s w = .ok t w := Meaning.name_of_bound untraced found
  have printed : Meaning.print s t w =
      .ok () ⟨session.bindings, session.store, #[.line (Text.Decimal.digits (values id))]⟩ :=
    Meaning.print_eq (Nat.lt_of_le_of_lt (Nat.zero_le _) room) short
      (denotes.simplify_eq untraced complete (Nat.le_of_lt room))
  have parsed (tokens : List Token)
      (same : tokens.map Token.word = [.sign .printWord "print", .name id]) :=
    parse_print (.ofExpr untraced (Automaton.reduces_of_mem_closers (by decide))
      (asked.readable untraced none (by decide))) same
  have done : (do
      let t ← asked.evaluate s
      Meaning.print s t
      pure (.accepted (.done none)) : Eval (Parse.Outcome Meaning)) w = .ok (.accepted (.done none))
        ⟨session.bindings, session.store, #[.line (Text.Decimal.digits (values id))]⟩ := by
    rw [Eval.bind_of_ok named, Eval.bind_of_ok printed]
    rfl
  exact Session.step_of_parse spelled.scan_ofText parsed done

theorem steps_print {session : Session} (complete : (system.reckoning values).Complete session.bindings)
    {asked questions : List String}
    (spelled : List.Forall₂
      (fun id line => Spells line.toList [.sign .printWord "print", .name id]) asked questions)
    (known : ∀ id ∈ asked, id ∈ system.names) :
    session.steps s questions = asked.map fun id => (.number (values id), session) := by
  induction spelled with
  | nil => rfl
  | @cons id line asked questions first others ih =>
    have stepped := step_print solves untraced deep complete (known id List.mem_cons_self) first
    rw [Session.steps, stepped, List.map_cons]
    exact congrArg _ (ih fun id member => known id (List.mem_cons_of_mem _ member))

end System

/-- In whatever order the equations of a system are entered, and however the lines are spaced, every line
succeeds, and then each name prints as its value in the solution, as long as evaluations may nest deeply
enough. -/
theorem prints_solution (system : System) (values : String → Int) (solves : system.Solves values) :
    ∃ enough, ∀ s : Settings, s.tracing = false → enough ≤ s.depth →
      ∀ order, order.Perm system.equations →
      ∀ lines, List.Forall₂ (fun eq line => Spells line.toList (Equation.words eq)) order lines →
      ∀ asked, (∀ id ∈ asked, id ∈ system.names) →
      ∀ questions, List.Forall₂
        (fun id line => Spells line.toList [.sign .printWord "print", .name id]) asked questions →
      ∃ replies, (Session.fresh.steps s (lines ++ questions)).map Prod.fst =
          replies ++ asked.map (fun id => .number (values id)) ∧
        replies.length = lines.length ∧ ∀ reply ∈ replies, reply.Succeeds := by
  refine ⟨system.enough, fun s untraced deep order permuted lines entered asked known questions posed => ?_⟩
  have fresh : (system.reckoning values).Holds Session.fresh.bindings := fun id t found => nomatch found
  obtain ⟨replies, final, runs, length, succeed, holds, bound⟩ := System.steps_equations solves untraced
    deep entered (fun eq member => permuted.mem_iff.1 member) fresh
  have complete : (system.reckoning values).Complete final.bindings := by
    refine ⟨holds, fun id member => Option.isSome_iff_exists.1 (bound id (.inr ?_)), ?_⟩
    · exact (permuted.map Equation.name).mem_iff.2 member
    · intro id member
      obtain ⟨eq, listed, rfl⟩ := List.mem_map.1 member
      exact system.plain eq listed
  have printed := System.steps_print solves untraced deep complete posed known
  refine ⟨replies.map Prod.fst, ?_, by simp [length], ?_⟩
  · rw [runs questions, printed, List.map_append, List.map_map]
    rfl
  · intro reply member
    obtain ⟨pair, listed, rfl⟩ := List.mem_map.1 member
    exact succeed pair listed

/-- The equations `y := x / 2` and `x := -7`, entered in this order, make `y` print as minus four. -/
theorem prints_solution_of_quotient : ∃ enough, ∀ s : Settings, s.tracing = false → enough ≤ s.depth →
    ((Session.fresh.steps s ["y := x / 2", "x:=-7", "print y"]).map Prod.fst).getLast? =
      some (.number (-4)) := by
  let quotient : Equation := ⟨"y", .ofProduct (.product (.ofFactor (.name "x")) true (.literal 2))⟩
  let dividend : Equation := ⟨"x", .ofProduct (.ofFactor (.signed true (.literal 7)))⟩
  let system : System :=
    { equations := [quotient, dividend]
      distinct := by decide
      plain := by decide
      closed := by decide
      acyclic := Depends.acyclic (fun id => if id = "y" then 1 else 0) (by decide) }
  let values : String → Int := fun id => if id = "y" then -4 else -7
  have solves : system.Solves values := by
    change ∀ eq ∈ [quotient, dividend], eq.value.value? values = some (values eq.name)
    decide +kernel
  have first : Spells "y := x / 2".toList quotient.words :=
    @Spells.lexeme ['y'] " := x / 2".toList _ _ (@Lexeme.word 'y' [] (by decide) (by decide)) (by decide)
      (.blank (.inl rfl) (@Spells.lexeme [':', '='] " x / 2".toList _ _ (.sign (by decide)) (by decide)
        (.blank (.inl rfl) (@Spells.lexeme ['x'] " / 2".toList _ _
          (@Lexeme.word 'x' [] (by decide) (by decide)) (by decide)
          (.blank (.inl rfl) (@Spells.lexeme ['/'] " 2".toList _ _ (.sign (by decide)) (by decide)
            (.blank (.inl rfl) (@Spells.lexeme ['2'] [] _ _
              (@Lexeme.number ['2'] (by decide) (by decide) (by decide)) (by decide) .done))))))))
  have second : Spells "x:=-7".toList dividend.words :=
    @Spells.lexeme ['x'] ":=-7".toList _ _ (@Lexeme.word 'x' [] (by decide) (by decide)) (by decide)
      (@Spells.lexeme [':', '='] "-7".toList _ _ (.sign (by decide)) (by decide)
        (@Spells.lexeme ['-'] "7".toList _ _ (.sign (by decide)) (by decide)
          (@Spells.lexeme ['7'] [] _ _
            (@Lexeme.number ['7'] (by decide) (by decide) (by decide)) (by decide) .done)))
  have question : Spells "print y".toList [.sign .printWord "print", .name "y"] :=
    @Spells.lexeme "print".toList " y".toList _ _
      (@Lexeme.word 'p' "rint".toList (by decide) (by decide)) (by decide)
      (.blank (.inl rfl) (@Spells.lexeme ['y'] [] _ _
        (@Lexeme.word 'y' [] (by decide) (by decide)) (by decide) .done))
  obtain ⟨enough, runs⟩ := prints_solution system values solves
  refine ⟨enough, fun s untraced deep => ?_⟩
  obtain ⟨replies, printed, -, -⟩ := runs s untraced deep [quotient, dividend] (.refl _)
    ["y := x / 2", "x:=-7"] (.cons first (.cons second .nil)) ["y"] (by decide) ["print y"]
    (.cons question .nil)
  rw [show ["y := x / 2", "x:=-7", "print y"] = ["y := x / 2", "x:=-7"] ++ ["print y"] from rfl, printed]
  simp [values]

end DotLambda
