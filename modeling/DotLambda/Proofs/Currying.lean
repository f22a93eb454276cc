import DotLambda.Proofs.Formulas
import DotLambda.Proofs.Readback
import DotLambda.Proofs.Replacement
import DotLambda.Proofs.Selection

/-!
Functions of several parameters, which are functions within functions. Main statement: applied to literals one
after the other, such a function uses each of them once and in order. With too few of them the rest of the function
is printed, with too many of them those that are left are printed after its body.
-/

namespace DotLambda

open Eval

/-! ## Arguments -/

/-- A literal that functions are applied to: a number that is not too long, or a truth value. -/
inductive Argument where
  | number (n : Nat) (short : n < Text.Decimal.bound)
  | truth (b : Bool)

namespace Argument

def word : Argument → Word
  | number n _ => .number n
  | truth b => .name (Formula.literal b)

/-- What an argument is read as. A truth value is a name until it is simplified. -/
def asRead : Argument → Term
  | number n _ => .int (.int n)
  | truth b => .name (Formula.literal b)

def term : Argument → Term
  | number n _ => .int (.int n)
  | truth b => .bool (.bool b)

/-- The printed form of an argument. -/
def text : Argument → String
  | number n _ => Text.Decimal.digits n
  | truth b => if b then "True" else "False"

/-- A term that an argument is given as. -/
def Given (a : Argument) (t : Term) : Prop := t = a.asRead ∨ t = a.term

theorem given_map_term (args : List Argument) : List.Forall₂ Given args (args.map term) :=
  List.forall₂_map_right_iff.2 (List.forall₂_same.2 fun _ _ => .inr rfl)

theorem isArgument_term (a : Argument) : a.term.isArgument = true := by
  cases a <;> rfl

theorem references_term (a : Argument) : a.term.references = [] := by
  cases a <;> rfl

theorem printed_term (a : Argument) (store : Store) {depth : Nat} (deep : 0 < depth) :
    a.term.printed store depth = .ok a.text := by
  obtain ⟨depth, rfl⟩ : ∃ below, depth = below + 1 := ⟨depth - 1, by omega⟩
  cases a with
  | number n short =>
    simp only [term, Term.printed, Datum.plain, Datum.quoted, Datum.decimal_eq (n := n) short]
    exact congrArg Except.ok (Text.Peeled.peel_eq_self (by decide) (Text.Decimal.paren_not_mem_digits n))
  | truth b => cases b <;> rfl

theorem mapM_printed_eq (args : List Argument) (store : Store) {depth : Nat} (deep : 0 < depth) :
    (args.map term).mapM (Term.printed store depth) = .ok (args.map text) := by
  induction args with
  | nil => rfl
  | cons a rest ih =>
    rw [List.map_cons, List.mapM_cons, a.printed_term store deep, ih]
    rfl

variable {s : Settings} (untraced : s.tracing = false) {lookup : Simplify.Lookup} {depth : Nat}
  {args : List Argument} {items : List Term}
include untraced

theorem Given.simplify_eq {a : Argument} {t : Term} (given : a.Given t) (deep : 0 < depth) :
    simplify s lookup depth t = pure a.term := by
  obtain ⟨depth, rfl⟩ : ∃ below, depth = below + 1 := ⟨depth - 1, by omega⟩
  rw [simplify_untraced untraced]
  cases a with
  | number n short =>
    obtain rfl : t = .int (.int n) := given.elim id id
    exact Eval.make_untraced untraced _
  | truth b =>
    rcases given with rfl | rfl
    · cases b <;> exact Eval.make_untraced untraced _
    · exact Eval.make_untraced untraced _

theorem Given.mapM_simplify_eq (lookup : Simplify.Lookup) (given : List.Forall₂ Given args items)
    (deep : 0 < depth) :
    items.mapM (simplify s lookup depth) = pure (args.map term) := by
  induction given with
  | nil => rfl
  | cons first _ ih => rw [List.mapM_cons, first.simplify_eq untraced deep, ih, pure_bind, pure_bind, List.map_cons]

end Argument

/-- Arguments stay where they are after a term that is no function. -/
theorem Simplify.contract_arguments {lookup : Lookup} {apply : Datum → Term → Term → Eval Term} {t : Term}
    (none : functionOf? lookup t = none) (args : List Argument) :
    contract lookup apply t (args.map Argument.term) = pure (t :: args.map Argument.term) := by
  refine contract_eq_self ?_
  induction args generalizing t with
  | nil => exact .singleton _
  | cons a rest ih =>
    rw [List.map_cons, List.isChain_cons_cons]
    refine ⟨.inl none, ih ?_⟩
    cases a <;> rfl

/-- The terms of a chain, or a term alone. -/
def Term.links : Term → List Term
  | .chain items => items
  | t => [t]

theorem Meaning.chain_eq {s : Settings} (untraced : s.tracing = false) (first rest : Term) :
    Meaning.chain s first rest = Meaning.simplifyNow s (.chain (first :: rest.links)) := by
  have made (t : Term) : (do let t ← Eval.make s t; simplifyNow s t) = simplifyNow s t := by
    rw [Eval.make_untraced untraced, pure_bind]
  cases rest <;> exact made _

namespace Argument

variable {s : Settings} (untraced : s.tracing = false) {w : World}
  (truthful : w.bindings.Truthful)
include untraced

/-- Two or more arguments in a row are a chain of them. -/
theorem chain_eq (deep : 1 < s.depth) {a b : Argument} {rest : List Argument} {t : Term}
    (given : List.Forall₂ Given (b :: rest) t.links) :
    Meaning.chain s a.asRead t w = .ok (.chain ((a :: b :: rest).map term)) w := by
  have all : List.Forall₂ Given (a :: b :: rest) (a.asRead :: t.links) := .cons (.inl rfl) given
  have read : (get : Eval World) w = .ok w w := rfl
  obtain ⟨depth, deeper⟩ : ∃ below, s.depth = below + 1 := ⟨s.depth - 1, by omega⟩
  rw [Meaning.chain_eq untraced, Meaning.simplifyNow, Eval.bind_of_ok read, deeper, simplify_untraced untraced,
    Simplify.simplified, Given.mapM_simplify_eq untraced w.bindings all (by omega), pure_bind, List.map_cons,
    Simplify.contractAll, Simplify.contract_arguments (by cases a <;> rfl), pure_bind]
  exact congrFun (Eval.make_untraced untraced _) w

include truthful

theorem readable (a : Argument) (follower : Option Kind) (follows : follower ∈ Automaton.afterLoneTerm) :
    ∃ x, ReadsTerm s .expr follower [a.word] x ∧ x w = .ok a.asRead w := by
  cases a with
  | number n short =>
    have operand : ReadsOperand s [.number n] (Eval.make s (.int (.int n))) := fun _ follows =>
      .number untraced (Automaton.reduces_of_mem_afterFactor (by decide) follows) n
    exact ⟨_, operand.expr untraced follows, congrFun (Eval.make_untraced untraced _) w⟩
  | truth b =>
    have operand : ReadsOperand s [.name (Formula.literal b)] (Meaning.name s (Formula.literal b)) := fun _ follows =>
      .name (Automaton.reduces_of_mem_afterFactor (by decide) follows) _
    exact ⟨_, operand.expr untraced follows, Meaning.name_of_unbound untraced (truthful.literal b)⟩

/-- Arguments with dots between them are read as the arguments in a row. -/
theorem readable_row (deep : 1 < s.depth) {args : List Argument} (some : args ≠ []) :
    ∃ x, ReadsTerm s .exprList none ((args.map word).intersperse (.sign .dot ".")) x ∧
      ∃ t, x w = .ok t w ∧ List.Forall₂ Given args t.links := by
  induction args with
  | nil => exact absurd rfl some
  | cons a rest ih =>
    cases rest with
    | nil =>
      obtain ⟨x, read, found⟩ := a.readable untraced truthful .none (by decide)
      refine ⟨x, .ofExpr untraced (Automaton.reduces_of_mem_closers (by decide)) read, a.asRead, found, ?_⟩
      cases a <;> exact .cons (.inl rfl) .nil
    | cons b rest =>
      obtain ⟨x, read, found⟩ := a.readable untraced truthful (.some .dot) (by decide)
      obtain ⟨y, readOn, t, foundOn, given⟩ := ih (List.cons_ne_nil _ _)
      refine ⟨_, .chain untraced (Automaton.reduces_of_mem_closers (by decide)) read readOn,
        .chain ((a :: b :: rest).map term), ?_, given_map_term (a :: b :: rest)⟩
      rw [Eval.bind_of_ok found, Eval.bind_of_ok foundOn, chain_eq untraced deep given]

end Argument

/-! ## Bodies -/

/-- What parameters stand for. -/
abbrev Filling : Type := List (String × Argument)

/-- A body of a function that is made of numbers that are not too long, names and lists. -/
inductive Template where
  | number (n : Nat) (short : n < Text.Decimal.bound)
  | name (id : String)
  | list (items : List Template)

namespace Template

@[elab_as_elim]
theorem induction {motive : Template → Prop} (number : ∀ n short, motive (.number n short))
    (name : ∀ id, motive (.name id)) (list : ∀ items, (∀ t ∈ items, motive t) → motive (.list items)) :
    (t : Template) → motive t
  | .number n short => number n short
  | .name id => name id
  | .list items => list items fun t _ => induction number name list t

mutual

def words : Template → List Word
  | number n _ => [.number n]
  | name id => [.name id]
  | list items => .sign .leftBracket "[" :: (wordsAll items ++ [.sign .rightBracket "]"])

/-- The words of templates with commas between them. -/
def wordsAll : List Template → List Word
  | [] => []
  | [t] => t.words
  | t :: u :: rest => t.words ++ .sign .comma "," :: wordsAll (u :: rest)

end

mutual

/-- The printed form of a template with parameters replaced by arguments. -/
def text (fill : Filling) : Template → String
  | number n _ => Text.Decimal.digits n
  | name id => (fill.lookup id).elim id Argument.text
  | list items => "[ " ++ ", ".intercalate (textAll fill items) ++ " ]"

def textAll (fill : Filling) : List Template → List String
  | [] => []
  | t :: rest => t.text fill :: textAll fill rest

end

mutual

/-- How deeply a template nests. -/
def height : Template → Nat
  | number _ _ | name _ => 1
  | list items => heightAll items + 1

def heightAll : List Template → Nat
  | [] => 0
  | t :: rest => max t.height (heightAll rest)

end

theorem height_le_heightAll {t : Template} {items : List Template} (member : t ∈ items) :
    t.height ≤ heightAll items := by
  induction items with
  | nil => cases member
  | cons u rest ih =>
    rw [heightAll, le_max_iff]
    rcases List.mem_cons.1 member with rfl | later
    · exact .inl (Nat.le_refl _)
    · exact .inr (ih later)

theorem height_pos (t : Template) : 0 < t.height := by
  cases t <;> exact Nat.succ_pos _

theorem exists_succ_of_height_le {t : Template} {depth : Nat} (deep : t.height ≤ depth) :
    ∃ below, depth = below + 1 :=
  Nat.exists_eq_add_one.2 (Nat.lt_of_lt_of_le t.height_pos deep)

theorem mem_wordsAll {t : Template} {items : List Template} (member : t ∈ items) {w : Word} (inside : w ∈ t.words) :
    w ∈ wordsAll items := by
  induction items with
  | nil => cases member
  | cons u rest ih =>
    cases rest with
    | nil => exact List.mem_singleton.1 member ▸ inside
    | cons v rest =>
      rw [wordsAll, List.mem_append, List.mem_cons]
      rcases List.mem_cons.1 member with rfl | later
      · exact .inl inside
      · exact .inr (.inr (ih later))

theorem mem_words_list {t : Template} {items : List Template} (member : t ∈ items) {w : Word}
    (inside : w ∈ t.words) : w ∈ (list items).words :=
  List.mem_cons_of_mem _ (List.mem_append_left _ (mem_wordsAll member inside))

/-! ## Templates in a store -/

/-- What a name in a template is once parameters have been replaced. -/
def standing (fill : Filling) (id : String) : Term := (fill.lookup id).elim (.name id) Argument.term

/-- A term is a template with parameters replaced by arguments. -/
inductive Is (store : Store) (fill : Filling) : Template → Term → Prop where
  | number {n : Nat} {short : n < Text.Decimal.bound} : Is store fill (.number n short) (.int (.int n))
  | name {id : String} {t : Term} (stands : t = standing fill id) : Is store fill (.name id) t
  | list {items : List Template} {cell : Nat} (old : cell < store.size)
      (each : List.Forall₂ (Is store fill) items (store.items cell)) : Is store fill (.list items) (.list cell)

/-- Each name in a template stands for nothing but itself. -/
def Free (lookup : Simplify.Lookup) (t : Template) : Prop :=
  ∀ id, .name id ∈ t.words → id ≠ "true" ∧ id ≠ "false" ∧ lookup.find? id = none

theorem Free.item {lookup : Simplify.Lookup} {items : List Template} (free : (list items).Free lookup) {t : Template}
    (member : t ∈ items) : t.Free lookup :=
  fun id inside => free id (mem_words_list member inside)

theorem Free.rest {lookup : Simplify.Lookup} {t u : Template} {items : List Template}
    (free : (list (t :: u :: items)).Free lookup) : (list (u :: items)).Free lookup := by
  intro id inside
  refine free id ?_
  simp only [words, wordsAll, List.append_assoc, List.cons_append, List.mem_cons, List.mem_append] at inside ⊢
  exact inside.imp_right fun inside => .inr (.inr inside)

variable {store : Store} {fill : Filling} {t : Template} {u : Term}

theorem standing_of_none {id : String} (none : fill.lookup id = none) : standing fill id = .name id := by
  rw [standing, none]
  rfl

theorem standing_of_some {id : String} {a : Argument} (some : fill.lookup id = some a) :
    standing fill id = a.term := by
  rw [standing, some]
  rfl

theorem Is.grow {after : Store} (grown : store.Extends after) (is : t.Is store fill u) : t.Is after fill u := by
  induction t using induction generalizing u with
  | number n short =>
    cases is
    exact .number
  | name id =>
    cases is with
    | name stands => exact .name stands
  | list items ih =>
    cases is with
    | list old each =>
      refine .list (Nat.lt_of_lt_of_le old grown.size_le) ?_
      rw [grown.items_eq _ old]
      exact ((List.forall₂_and_left _ _).2 ⟨ih, each⟩).imp fun _ _ both => both.1 both.2

theorem Is.functionOf?_eq_none {lookup : Simplify.Lookup} (free : t.Free lookup) (is : t.Is store fill u) :
    Simplify.functionOf? lookup u = none := by
  cases is with
  | number | list => rfl
  | @name id _ stands =>
    cases found : fill.lookup id with
    | none =>
      rw [stands, standing_of_none found, Simplify.functionOf?, (free id (List.mem_singleton_self _)).2.2]
    | some a =>
      rw [stands, standing_of_some found]
      cases a <;> rfl

/-! ## Simplifying and replacing -/

section
variable {s : Settings} (untraced : s.tracing = false) {lookup : Simplify.Lookup} {w : World} {depth : Nat}
include untraced

/-- Terms that are templates, in a new list. -/
theorem finds_makeList {items : List Template} {terms : List Term}
    (each : List.Forall₂ (Is w.store fill) items terms) :
    Finds w (Eval.makeList s terms) fun after v => (list items).Is after fill v := by
  refine .makeList untraced fun after cell grown new same => .list new ?_
  rw [same]
  exact each.imp fun _ _ is => is.grow grown

/-- A list whose items become templates with more parameters filled becomes such a template. -/
theorem finds_list {fill' : Filling} {f : Term → Eval Term} {items : List Template} {terms : List Term}
    (each : List.Forall₂ (Is w.store fill) items terms)
    (step : ∀ after, w.Grows after → ∀ t ∈ items, ∀ u, t.Is after.store fill u →
      Finds after (f u) fun last v => t.Is last fill' v) :
    Finds w (do let out ← terms.mapM f; Eval.makeList s out) fun after v => (list items).Is after fill' v :=
  (Finds.mapM (fun store => Is store fill) (fun grown is => is.grow grown) (fun grown is => is.grow grown) each
    step).bind fun _ _ _ found => finds_makeList untraced found

/-- A template whose names stand for themselves is left as it is. -/
theorem Is.finds_simplify (free : t.Free lookup) (deep : t.height ≤ depth) (is : t.Is w.store fill u) :
    Finds w (simplify s lookup depth u) fun after v => t.Is after fill v := by
  induction t using induction generalizing depth u w with
  | number n short =>
    obtain ⟨depth, rfl⟩ := exists_succ_of_height_le deep
    cases is
    rw [simplify_untraced untraced]
    exact .make untraced .number
  | name id =>
    obtain ⟨depth, rfl⟩ := exists_succ_of_height_le deep
    cases is with
    | name stands =>
      cases found : fill.lookup id with
      | none =>
        obtain ⟨notTrue, notFalse, unbound⟩ := free id (List.mem_singleton_self _)
        rw [stands, standing_of_none found, simplify_untraced untraced]
        simp only [Simplify.simplified, if_neg notTrue, if_neg notFalse, unbound]
        exact .make untraced (.name (standing_of_none found).symm)
      | some a =>
        rw [stands, standing_of_some found, Argument.Given.simplify_eq untraced (.inr rfl) (Nat.succ_pos _)]
        exact .pure (.name (standing_of_some found).symm)
  | list items ih =>
    obtain ⟨depth, rfl⟩ := exists_succ_of_height_le deep
    cases is with
    | list old each =>
      rw [simplify_untraced untraced]
      refine .get (finds_list untraced each fun after _ t member u is => ?_)
      exact ih t member (free.item member) ((height_le_heightAll member).trans (Nat.le_of_succ_le_succ deep)) is

/-- To replace a name by an argument in a template is to fill the argument in, unless the name is filled already. -/
theorem Is.finds_replace (x : String) (a : Argument) (deep : t.height ≤ depth) (is : t.Is w.store fill u) :
    Finds w (replace s lookup depth (.text x) a.term u) fun after v => t.Is after (fill ++ [(x, a)]) v := by
  induction t using induction generalizing depth u w with
  | number n short =>
    obtain ⟨depth, rfl⟩ := exists_succ_of_height_le deep
    cases is
    rw [Simplify.replace_untraced untraced lookup depth (.text x) a.term (by simp)]
    exact .make untraced .number
  | name id =>
    obtain ⟨depth, rfl⟩ := exists_succ_of_height_le deep
    cases is with
    | name stands =>
      cases found : fill.lookup id with
      | none =>
        rw [stands, standing_of_none found, Simplify.replace_untraced untraced lookup depth (.text x) a.term (by simp)]
        simp only [Simplify.replaced]
        by_cases same : id = x
        · rw [if_pos same]
          refine ⟨_, w, Eval.copy_eq_self a.references_term, .refl _, rfl, .name (standing_of_some ?_).symm⟩
          simp [← same, List.lookup_append, found]
        · rw [if_neg same]
          refine .make untraced (.name (standing_of_none ?_).symm)
          simp [List.lookup_append, found, List.lookup_cons, beq_false_of_ne same]
      | some b =>
        have kept : (fill ++ [(x, a)]).lookup id = some b := by simp [List.lookup_append, found]
        have filled (store : Store) : (Template.name id).Is store (fill ++ [(x, a)]) b.term :=
          .name (standing_of_some kept).symm
        rw [stands, standing_of_some found]
        cases b with
        | number | truth =>
          rw [Argument.term, Simplify.replace_untraced untraced lookup depth (.text x) a.term (by simp)]
          exact .make untraced (filled _)
  | list items ih =>
    obtain ⟨depth, rfl⟩ := exists_succ_of_height_le deep
    cases is with
    | list old each =>
      rw [Simplify.replace_untraced untraced lookup depth (.text x) a.term (by simp)]
      refine .get (finds_list untraced each fun after _ t member u is => ?_)
      exact ih t member ((height_le_heightAll member).trans (Nat.le_of_succ_le_succ deep)) is
end

/-! ## Bodies under their parameters -/

/-- A term is a body under its parameters: a function for each of them. -/
def Under (store : Store) (fill : Filling) (body : Template) : List String → Term → Prop
  | [], t => body.Is store fill t
  | x :: params, t => ∃ inner, t = .function (.text x) inner ∧ Under store fill body params inner

/-- The words of a body under its parameters. -/
def curriedWords (body : Template) : List String → List Word
  | [] => body.words
  | x :: params => .sign .lambda "\\" :: .name x :: .sign .arrow "=>" :: body.curriedWords params

/-- The printed form of a body under its parameters. -/
def curriedText (fill : Filling) (body : Template) : List String → String
  | [] => body.text fill
  | x :: params => "\\ " ++ x ++ " => " ++ body.curriedText fill params

theorem mem_curriedWords (body : Template) (params : List String) {w : Word} (inside : w ∈ body.words) :
    w ∈ body.curriedWords params := by
  induction params with
  | nil => exact inside
  | cons x params ih => simp [curriedWords, ih]

section
variable {s : Settings} (untraced : s.tracing = false) {lookup : Simplify.Lookup} {w : World} {depth : Nat}
  {body : Template} {params : List String}

theorem Under.grow {after : Store} (grown : store.Extends after) (under : body.Under store fill params u) :
    body.Under after fill params u := by
  induction params generalizing u with
  | nil => exact Is.grow grown under
  | cons x params ih =>
    obtain ⟨inner, rfl, under⟩ := under
    exact ⟨inner, rfl, ih under⟩

include untraced

theorem Under.finds_simplify (free : body.Free lookup) (deep : params.length + body.height ≤ depth)
    (under : body.Under w.store fill params u) :
    Finds w (simplify s lookup depth u) fun after v => body.Under after fill params v := by
  induction params generalizing depth u w with
  | nil => exact Is.finds_simplify untraced free (by simpa using deep) under
  | cons x params ih =>
    rw [List.length_cons] at deep
    obtain ⟨depth, rfl⟩ : ∃ below, depth = below + 1 := ⟨depth - 1, by omega⟩
    obtain ⟨inner, rfl, under⟩ := under
    rw [simplify_untraced untraced]
    refine Finds.bind (.pure rfl : Finds w (Eval.plain s (.text x)) fun _ text => text = x) ?_
    rintro _ after grown rfl
    exact (ih (by omega) (under.grow grown.store)).bind fun v last _ under => .make untraced ⟨v, rfl, under⟩

theorem Under.finds_replace (x : String) (a : Argument) (deep : params.length + body.height ≤ depth)
    (under : body.Under w.store fill params u) :
    Finds w (replace s lookup depth (.text x) a.term u) fun after v =>
      body.Under after (fill ++ [(x, a)]) params v := by
  induction params generalizing depth u w with
  | nil => exact Is.finds_replace untraced x a (by simpa using deep) under
  | cons y params ih =>
    rw [List.length_cons] at deep
    obtain ⟨depth, rfl⟩ : ∃ below, depth = below + 1 := ⟨depth - 1, by omega⟩
    obtain ⟨inner, rfl, under⟩ := under
    rw [Simplify.replace_untraced untraced lookup depth (.text x) a.term (by simp)]
    refine Finds.bind (.pure rfl : Finds w (Eval.plain s (.text y)) fun _ text => text = y) ?_
    rintro _ after grown rfl
    exact (ih (by omega) (under.grow grown.store)).bind fun v last _ under => .make untraced ⟨v, rfl, under⟩

/-- A function takes as many arguments as it has parameters, in order; the rest of the arguments, or of the
parameters, is left. The induction is on the arguments: each takes the place of the outermost parameter. -/
theorem Under.finds_contract (free : body.Free lookup) (deep : params.length + body.height ≤ depth)
    (args : List Argument) (under : body.Under w.store fill params u) :
    Finds w (Simplify.contract lookup (replace s lookup depth) u (args.map Argument.term)) fun after out =>
      ∃ v, out = v :: (args.drop params.length).map Argument.term ∧
        body.Under after (fill ++ params.zip args) (params.drop args.length) v := by
  induction args generalizing params fill u w with
  | nil =>
    refine .pure ⟨u, by simp, ?_⟩
    simpa using under
  | cons a rest ih =>
    cases params with
    | nil =>
      rw [Simplify.contract_arguments (Is.functionOf?_eq_none free under)]
      refine .pure ⟨u, rfl, ?_⟩
      simpa using under
    | cons x params =>
      rw [List.length_cons] at deep
      obtain ⟨inner, rfl, under⟩ := under
      rw [List.map_cons, Simplify.contract, Simplify.functionOf?, a.isArgument_term]
      refine (under.finds_replace untraced x a (by omega)).bind fun v after _ filled => ?_
      have rest := ih (by omega) filled
      rw [List.append_assoc] at rest
      exact rest
end

end Template

/-- A term with others after it, if there are any. -/
def Term.followed (t : Term) : List Term → Term
  | [] => t
  | next :: rest => .chain (t :: next :: rest)

namespace Template

/-- A term is what is left of an application: a body under its parameters, and arguments after it. -/
def Leaves (store : Store) (fill : Filling) (body : Template) (params : List String) (args : List Argument)
    (t : Term) : Prop :=
  ∃ u, body.Under store fill params u ∧ t = u.followed (args.map Argument.term)

variable {store : Store} {fill : Filling} {body : Template} {params : List String} {args : List Argument}

section
variable {s : Settings} (untraced : s.tracing = false) {lookup : Simplify.Lookup} (free : body.Free lookup)
  {w : World} {depth : Nat} (deep : params.length + body.height < depth)
include untraced free deep

/-- A function that is followed by arguments is applied to them. -/
theorem Under.finds_application {u : Term} (under : body.Under w.store fill params u) {items : List Term}
    (given : List.Forall₂ Argument.Given args items) :
    Finds w (simplify s lookup depth (u.followed items)) fun after v =>
      body.Leaves after (fill ++ params.zip args) (params.drop args.length) (args.drop params.length) v := by
  cases given with
  | nil =>
    refine (under.finds_simplify untraced free (Nat.le_of_lt deep)).mono fun after v under => ⟨v, ?_, ?_⟩
    · simpa using under
    · simp [Term.followed]
  | @cons a t args items first others =>
    obtain ⟨depth, rfl⟩ : ∃ below, depth = below + 1 := ⟨depth - 1, by omega⟩
    have positive := body.height_pos
    have simplified : Finds w ((u :: t :: items).mapM (simplify s lookup depth)) fun after out =>
        ∃ v, out = v :: (a :: args).map Argument.term ∧ body.Under after fill params v := by
      rw [List.mapM_cons, Argument.Given.mapM_simplify_eq untraced lookup (.cons first others) (by omega)]
      exact (under.finds_simplify untraced free (by omega)).bind fun v _ _ under => .pure ⟨v, rfl, under⟩
    rw [Term.followed, simplify_untraced untraced]
    refine simplified.bind ?_
    rintro _ after - ⟨v, rfl, under⟩
    refine (under.finds_contract untraced free (by omega) (a :: args)).bind ?_
    rintro _ last - ⟨v, rfl, under⟩
    cases left : (a :: args).drop params.length with
    | nil =>
      have fewer : (params.drop (a :: args).length).length + body.height ≤ depth := by
        rw [List.length_drop]
        omega
      exact (under.finds_simplify untraced free fewer).mono fun _ v under => ⟨v, under, rfl⟩
    | cons b rest => exact .make untraced ⟨v, under, rfl⟩

/-- What is left of an application is left as it is. -/
theorem Leaves.finds_simplify {t : Term} (leaves : body.Leaves w.store fill params args t)
    (used : params = [] ∨ args = []) :
    Finds w (simplify s lookup depth t) fun after v => body.Leaves after fill params args v := by
  obtain ⟨u, under, rfl⟩ := leaves
  have applied := under.finds_application untraced free deep (Argument.given_map_term args)
  rcases used with rfl | rfl <;> simpa using applied

end

end Template

/-! ## Texts -/

/-- A text that opens with something other than a parenthesis. -/
def Text.Unopened (text : String) : Prop := ∃ c rest, text.toList = c :: rest ∧ c ≠ '('

namespace Text.Unopened

variable {text : String}

theorem append (unopened : Unopened text) (more : String) : Unopened (text ++ more) := by
  obtain ⟨c, rest, opens, other⟩ := unopened
  exact ⟨c, rest ++ more.toList, by simp [opens], other⟩

theorem intercalate (unopened : Unopened text) (separator : String) (rest : List String) :
    Unopened (separator.intercalate (text :: rest)) := by
  cases rest with
  | nil => simpa using unopened
  | cons next rest =>
    rw [String.intercalate_cons_cons]
    exact (unopened.append _).append _

theorem digits (n : Nat) : Unopened (Decimal.digits n) := by
  have without := Decimal.paren_not_mem_digits n
  have some : (Decimal.digits n).toList ≠ [] := by
    change n.repr.toList ≠ []
    rw [Nat.toList_repr]
    exact Nat.toDigits_ne_nil
  obtain ⟨c, rest, opens⟩ := List.exists_cons_of_ne_nil some
  rw [opens, List.mem_cons, not_or] at without
  exact ⟨c, rest, opens, Ne.symm without.1⟩

theorem name {id : String} (lexical : (Word.name id).Lexical) : Unopened id := by
  obtain ⟨chars, written⟩ := lexical
  generalize same : Word.name id = word at written
  cases written with
  | number | string => cases same
  | @word c rest starts =>
    obtain rfl : id = String.ofList (c :: rest) := by
      cases congrArg Word.content same
      rfl
    refine ⟨c, rest, String.toList_ofList, ?_⟩
    rintro rfl
    exact absurd starts (by decide)
  | @sign _ kind listed =>
    have table : ∀ sign ∈ Segment.signs, sign.2 ≠ .identifier := by decide
    exact absurd (congrArg Word.kind same).symm (table _ listed)

theorem argument (a : Argument) : Unopened a.text := by
  cases a with
  | number n short => exact digits n
  | truth b => cases b <;> exact ⟨_, _, rfl, by decide⟩

variable (unopened : Unopened text)
include unopened

theorem peel_eq {opening closing : String} (opens : opening.toList.head? = some '(') :
    Peeled.peel opening closing text = text := by
  refine Peeled.peel_of_unopened ?_
  obtain ⟨c, rest, is, other⟩ := unopened
  obtain ⟨more, same⟩ := List.head?_eq_some_iff.1 opens
  simp [is, same, List.isPrefixOf, Ne.symm other]

/-- Two parentheses in a row are peeled off, one is not. -/
theorem peel_two : Peeled.peel "((" "))" ("(" ++ text ++ ")") = "(" ++ text ++ ")" := by
  refine Peeled.peel_of_unopened ?_
  obtain ⟨c, rest, is, other⟩ := unopened
  simp [is, List.isPrefixOf, Ne.symm other]

theorem peel_one : Peeled.peel "(" ")" ("(" ++ text ++ ")") = text := by
  obtain ⟨c, rest, is, other⟩ := unopened
  have bare : "(".toList.isPrefixOf text.toList = false := by simp [is, List.isPrefixOf, Ne.symm other]
  have layers : ("(" ++ text ++ ")").toList.length = text.toList.length + 1 + 1 := by simp
  have encloses : Peeled.encloses "(".toList ")".toList ("(" ++ text ++ ")").toList = true := by
    simp [Peeled.encloses, List.isPrefixOf]
  have inner : (("(" ++ text ++ ")").toList.drop 1).dropLast = text.toList := by simp
  rw [Peeled.peel, layers, Peeled.peelUpTo, if_pos encloses, inner, Peeled.peelUpTo_of_unopened bare,
    String.ofList_toList]

end Text.Unopened

namespace Template

variable {store : Store} {fill : Filling} {t : Template} {u : Term} {depth : Nat}

/-- The printed form of what is left of an application. -/
def leftText (fill : Filling) (body : Template) (params : List String) (args : List Argument) : String :=
  " . ".intercalate (body.curriedText fill params :: args.map Argument.text)

theorem unopened_text (lexical : ∀ w ∈ t.words, w.Lexical) : Text.Unopened (t.text fill) := by
  cases t with
  | number n short => exact .digits n
  | name id =>
    cases found : fill.lookup id with
    | none =>
      rw [text, found]
      exact .name (lexical _ (List.mem_singleton_self _))
    | some a =>
      rw [text, found]
      exact .argument a
  | list items => exact (Text.Unopened.append ⟨'[', [' '], rfl, by decide⟩ _).append _

theorem unopened_curriedText (lexical : ∀ w ∈ t.words, w.Lexical) (params : List String) :
    Text.Unopened (t.curriedText fill params) := by
  cases params with
  | nil => exact unopened_text lexical
  | cons x params => exact ((Text.Unopened.append ⟨'\\', [' '], rfl, by decide⟩ _).append _).append _

theorem mapM_printed_eq {items : List Template} {terms : List Term}
    (each : List.Forall₂ (fun t u => u.printed store depth = .ok (t.text fill)) items terms) :
    terms.mapM (Term.printed store depth) = .ok (textAll fill items) := by
  induction each with
  | nil => rfl
  | cons first _ ih =>
    rw [List.mapM_cons, first, ih]
    rfl

theorem Is.printed_eq (lexical : ∀ w ∈ t.words, w.Lexical) (deep : t.height ≤ depth) (is : t.Is store fill u) :
    u.printed store depth = .ok (t.text fill) := by
  have peeled : Text.Peeled.peel "((" "))" (t.text fill) = t.text fill := (unopened_text lexical).peel_eq rfl
  induction t using induction generalizing depth u with
  | number n short =>
    cases is
    exact (Argument.number n short).printed_term store (Nat.lt_of_lt_of_le (height_pos _) deep)
  | name id =>
    obtain ⟨depth, rfl⟩ := exists_succ_of_height_le deep
    cases is with
    | name stands =>
      cases found : fill.lookup id with
      | none =>
        rw [text, found] at peeled ⊢
        rw [stands, standing_of_none found]
        exact congrArg Except.ok peeled
      | some a =>
        rw [text, found, stands, standing_of_some found]
        exact a.printed_term store (Nat.succ_pos _)
  | list items ih =>
    obtain ⟨depth, rfl⟩ := exists_succ_of_height_le deep
    cases is with
    | list old each =>
      have printed (t : Template) (member : t ∈ items) (u : Term) (is : t.Is store fill u) :
          u.printed store depth = .ok (t.text fill) := by
        have inside : ∀ w ∈ t.words, w.Lexical := fun w inside => lexical w (mem_words_list member inside)
        exact ih t member inside ((height_le_heightAll member).trans (Nat.le_of_succ_le_succ deep)) is
          ((unopened_text inside).peel_eq rfl)
      have row := mapM_printed_eq (((List.forall₂_and_left _ _).2 ⟨printed, each⟩).imp fun _ u both => both.1 u both.2)
      simp only [Term.printed, row]
      exact congrArg Except.ok peeled

section
variable {body : Template} (lexical : ∀ w ∈ body.words, w.Lexical) {params : List String}
include lexical

theorem Under.printed_eq (deep : params.length + body.height ≤ depth) (under : body.Under store fill params u) :
    u.printed store depth = .ok (body.curriedText fill params) := by
  induction params generalizing depth u with
  | nil => exact Is.printed_eq lexical (by simpa using deep) under
  | cons x params ih =>
    rw [List.length_cons] at deep
    obtain ⟨depth, rfl⟩ : ∃ below, depth = below + 1 := ⟨depth - 1, by omega⟩
    obtain ⟨inner, rfl, under⟩ := under
    have printed : inner.printed store depth = .ok (body.curriedText fill params) := ih (by omega) under
    have opens : Text.Unopened (body.curriedText fill (x :: params)) := unopened_curriedText lexical _
    simp only [Term.printed, printed]
    exact congrArg Except.ok (opens.peel_eq rfl)

/-- What is left of an application is printed without the parentheses around a chain. -/
theorem Leaves.exists_printed {args : List Argument} (deep : params.length + body.height < depth)
    (leaves : body.Leaves store fill params args u) :
    ∃ shown, u.printed store depth = .ok shown ∧
      Text.Peeled.peel "(" ")" shown = body.leftText fill params args := by
  obtain ⟨u, under, rfl⟩ := leaves
  have opens : Text.Unopened (body.curriedText fill params) := unopened_curriedText lexical params
  cases args with
  | nil =>
    refine ⟨_, under.printed_eq lexical (Nat.le_of_lt deep), ?_⟩
    rw [opens.peel_eq rfl]
    simp [leftText]
  | cons a rest =>
    obtain ⟨depth, rfl⟩ : ∃ below, depth = below + 1 := ⟨depth - 1, by omega⟩
    have positive := body.height_pos
    have inner := opens.intercalate " . " ((a :: rest).map Argument.text)
    refine ⟨_, ?_, inner.peel_one⟩
    have texts := Argument.mapM_printed_eq (a :: rest) store (show 0 < depth by omega)
    have row : (u :: (a :: rest).map Argument.term).mapM (Term.printed store depth) =
        .ok (body.curriedText fill params :: (a :: rest).map Argument.text) := by
      rw [List.mapM_cons, under.printed_eq lexical (by omega), texts]
      rfl
    rw [List.map_cons, Term.followed, ← List.map_cons]
    simp only [Term.printed, row]
    exact congrArg Except.ok inner.peel_two
end

end Template

/-! ## Reading -/

/-- A list with one more item at its front is found. -/
theorem Eval.Finds.item {w : World} {s : Settings} (untraced : s.tracing = false) {first : Term} {cell : Nat}
    {good : Store → Term → Prop} (fine : ∀ after cell', w.store.Extends after → cell' < after.size →
      after.items cell' = first :: w.store.items cell → good after (.list cell')) :
    Finds w (Meaning.item s first (.list cell)) good := by
  have grown := Store.Extends.allocate w.store (first :: w.store.items cell)
  refine ⟨_, _, Ground.item_eq untraced first cell w, ⟨rfl, grown⟩, rfl, fine _ _ grown ?_ ?_⟩
  · rw [Store.size_allocate]
    exact Nat.lt_succ_self _
  · exact Store.items_allocate_self _ _

namespace Template

/-- Words are read as a template wherever its names stand for themselves. -/
def ReadFrom (s : Settings) (phrase : Nonterminal) (follower : Option Kind) (words : List Word) (t : Template) :
    Prop :=
  ∃ x, ReadsTerm s phrase follower words x ∧
    ∀ w : World, t.Free w.bindings → Finds w x fun after u => t.Is after [] u

section
variable {s : Settings} (untraced : s.tracing = false)
include untraced

/-- Templates with commas between them are read as a list if each of them is read as it is. -/
theorem readable_items {items : List Template} (nonempty : items ≠ [])
    (each : ∀ t ∈ items, ∀ follower ∈ Automaton.closers, t.ReadFrom s .expr follower t.words) :
    (list items).ReadFrom s .items (some .rightBracket) (wordsAll items) := by
  induction items with
  | nil => exact absurd rfl nonempty
  | cons t rest ih =>
    rw [List.forall_mem_cons] at each
    cases rest with
    | nil =>
      obtain ⟨x, read, finds⟩ := each.1 (some .rightBracket) (by decide)
      refine ⟨_, .lastItem untraced (Automaton.reduces_of_mem_closers (by decide)) read, fun w free => ?_⟩
      exact (finds w (free.item List.mem_cons_self)).bind fun u after _ is =>
        finds_makeList untraced (.cons is .nil)
    | cons u rest =>
      obtain ⟨x, read, finds⟩ := each.1 (some .comma) (by decide)
      obtain ⟨y, readOn, findsOn⟩ := ih (List.cons_ne_nil _ _) each.2
      refine ⟨_, .item (Automaton.reduces_of_mem_closers (by decide)) read readOn, fun w free => ?_⟩
      refine (finds w (free.item List.mem_cons_self)).bind fun v after grown is => ?_
      have others : (list (u :: rest)).Free after.bindings := by
        rw [show after.bindings = w.bindings from grown.bindings_eq]
        exact free.rest
      refine (findsOn after others).bind fun rows last grown' are => ?_
      cases are with
      | list old each =>
        refine .item untraced fun final cell grown'' new same => .list new ?_
        rw [same]
        exact .cons (is.grow (grown'.store.trans grown'')) (each.imp fun _ _ is => is.grow grown'')

theorem readable (t : Template) (follower : Option Kind) (closes : follower ∈ Automaton.closers) :
    t.ReadFrom s .expr follower t.words := by
  have follows := Automaton.closers_subset closes
  induction t using induction generalizing follower with
  | number n short =>
    have operand : ReadsOperand s [.number n] (Eval.make s (.int (.int n))) := fun _ follows =>
      .number untraced (Automaton.reduces_of_mem_afterFactor (by decide) follows) n
    exact ⟨_, operand.expr untraced follows, fun w _ => .make untraced .number⟩
  | name id =>
    have operand : ReadsOperand s [.name id] (Meaning.name s id) := fun _ follows =>
      .name (Automaton.reduces_of_mem_afterFactor (by decide) follows) id
    refine ⟨_, operand.expr untraced follows, fun w free => ?_⟩
    have unbound := (free id (List.mem_singleton_self _)).2.2
    exact ⟨_, w, Meaning.name_of_unbound untraced unbound, .refl _, rfl, .name rfl⟩
  | list items ih =>
    cases items with
    | nil =>
      have read : ReadsTerm s .expr follower (list []).words (Eval.makeList s []) :=
        .ofList untraced (Automaton.reduces_of_mem_closers closes)
          (.emptyList untraced (Automaton.reduces_of_mem_closers closes))
      exact ⟨_, read, fun w _ => finds_makeList untraced .nil⟩
    | cons t rest =>
      obtain ⟨x, read, finds⟩ := readable_items untraced (List.cons_ne_nil t rest) fun t member _ closes =>
        ih t member _ closes (Automaton.closers_subset closes)
      exact ⟨x, .ofList untraced (Automaton.reduces_of_mem_closers closes)
        (.listOf untraced (Automaton.reduces_of_mem_closers closes) read), finds⟩

theorem readable_curried (body : Template) (params : List String) :
    ∃ x, ReadsTerm s .exprList none (body.curriedWords params) x ∧
      ∀ w : World, body.Free w.bindings → Finds w x fun after u => body.Under after [] params u := by
  induction params with
  | nil =>
    obtain ⟨x, read, finds⟩ := body.readable untraced .none (by decide)
    exact ⟨x, .ofExpr untraced (Automaton.reduces_of_mem_closers (by decide)) read, finds⟩
  | cons y params ih =>
    obtain ⟨x, read, finds⟩ := ih
    refine ⟨_, .ofExpr untraced (Automaton.reduces_of_mem_closers (by decide))
      (.function untraced (Automaton.reduces_of_mem_closers (by decide)) y read), fun w free => ?_⟩
    exact (finds w free).bind fun u _ _ under => .make untraced ⟨u, rfl, under⟩
end

end Template

/-! ## Lines -/

section Lines

variable {s : Settings} (untraced : s.tracing = false) {f : String} {params : List String} {body : Template}
  (deep : params.length + body.height < s.depth) (lexical : ∀ w ∈ body.words, w.Lexical)
include untraced deep lexical

/-- A line that defines a function stores a body under its parameters. -/
theorem Session.step_define {session : Session} (free : body.Free session.bindings) {line : String}
    (scanned : (Scan.ofText line).Of (.name f :: .sign .assign ":=" :: body.curriedWords params)) :
    ∃ reply stored store, session.step s line = (reply, ⟨session.bindings.insert f stored, store⟩) ∧
      reply.Succeeds ∧ body.Under store [] params stored := by
  obtain ⟨x, read, finds⟩ := body.readable_curried untraced params
  obtain ⟨stored, ⟨_, store, _⟩, found, ⟨rfl, -⟩, rfl, under⟩ := finds ⟨session.bindings, session.store, #[]⟩ free
  obtain ⟨shown, dumped⟩ := Term.dumped_of_printed ⟨_, under.printed_eq lexical (Nat.le_of_lt deep)⟩
  have done : (do
      let t ← x
      Meaning.assign s f t
      pure (.accepted (.done none)) : Eval (Parse.Outcome Meaning)) ⟨session.bindings, session.store, #[]⟩ =
        .ok (.accepted (.done none)) ⟨session.bindings.insert f stored, store, #[.assigned f shown]⟩ := by
    rw [Eval.bind_of_ok found, Eval.bind_of_ok (Meaning.assign_eq f dumped)]
    rfl
  exact ⟨_, stored, store, Session.step_of_parse scanned (fun _ => parse_assign read) done, ⟨rfl, rfl⟩, under⟩

omit lexical in
theorem Meaning.finds_chain {w : World} (free : body.Free w.bindings) {fill : Filling} {u rest : Term}
    (under : body.Under w.store fill params u) {args : List Argument} (nonempty : args ≠ [])
    (given : List.Forall₂ Argument.Given args rest.links) :
    Finds w (Meaning.chain s u rest) fun after v =>
      body.Leaves after (fill ++ params.zip args) (params.drop args.length) (args.drop params.length) v := by
  have applied := under.finds_application untraced free deep given
  rw [Meaning.chain_eq untraced, Meaning.simplifyNow]
  refine .get ?_
  cases links : rest.links with
  | nil =>
    rw [links, List.forall₂_nil_right_iff] at given
    exact absurd given nonempty
  | cons next others =>
    rw [links] at applied
    exact applied

/-- What is left of an application is printed. -/
theorem Meaning.print_leaves {w : World} (free : body.Free w.bindings) {fill : Filling} {args : List Argument}
    {t : Term} (leaves : body.Leaves w.store fill params args t) (used : params = [] ∨ args = []) :
    ∃ store, Meaning.print s t w =
      .ok () ⟨w.bindings, store, w.output.push (.line (body.leftText fill params args))⟩ := by
  obtain ⟨u, ⟨_, store, _⟩, simplified, ⟨rfl, -⟩, rfl, left⟩ := leaves.finds_simplify untraced free deep used
  obtain ⟨shown, printed, peeled⟩ := left.exists_printed lexical deep
  have read : (get : Eval World) w = .ok w w := rfl
  have now : Meaning.simplifyNow s t w = .ok u ⟨w.bindings, store, w.output⟩ := by
    rw [Meaning.simplifyNow, Eval.bind_of_ok read, simplified]
  refine ⟨store, ?_⟩
  rw [Meaning.print, Eval.bind_of_ok now, Eval.bind_of_ok (Eval.examine_of_ok printed), peeled]
  rfl

/-- A line that prints a function before arguments prints what is left of the application. -/
theorem Session.step_apply {session : Session} {stored : Term} (free : body.Free session.bindings)
    (truthful : session.bindings.Truthful)
    (found : session.bindings.find? f = some stored) (under : body.Under session.store [] params stored)
    {args : List Argument} (nonempty : args ≠ []) {line : String} (scanned : (Scan.ofText line).Of
      (.sign .printWord "print" :: (Word.name f :: args.map Argument.word).intersperse (.sign .dot "."))) :
    (session.step s line).1 = ⟨[.line
      (body.leftText (params.zip args) (params.drop args.length) (args.drop params.length))], .ok none⟩ := by
  let w : World := ⟨session.bindings, session.store, #[]⟩
  have positive := body.height_pos
  obtain ⟨y, readRow, rest, foundRow, given⟩ := Argument.readable_row (w := w) untraced truthful (by omega) nonempty
  have operand : ReadsOperand s [.name f] (Meaning.name s f) := fun _ follows =>
    .name (Automaton.reduces_of_mem_afterFactor (by decide) follows) f
  have read : ReadsTerm s .exprList none ((Word.name f :: args.map Argument.word).intersperse (.sign .dot "."))
      (do let a ← Meaning.name s f; let b ← y; Meaning.chain s a b) := by
    obtain ⟨a, others, rfl⟩ := List.exists_cons_of_ne_nil nonempty
    exact .chain untraced (Automaton.reduces_of_mem_closers (by decide)) (operand.expr untraced (by decide)) readRow
  -- the function is applied once when the chain is read, and what is left is simplified again to be printed
  obtain ⟨t, ⟨_, store, _⟩, applied, ⟨rfl, -⟩, rfl, leaves⟩ :=
    Meaning.finds_chain (w := w) untraced deep free under nonempty given
  have used : params.drop args.length = [] ∨ args.drop params.length = [] :=
    (Nat.le_total params.length args.length).imp List.drop_eq_nil_of_le List.drop_eq_nil_of_le
  have fewer : (params.drop args.length).length + body.height < s.depth := by
    rw [List.length_drop]
    omega
  obtain ⟨last, printed⟩ := Meaning.print_leaves untraced fewer lexical free leaves used
  have done : (do
      let t ← (do let a ← Meaning.name s f; let b ← y; Meaning.chain s a b)
      Meaning.print s t
      pure (.accepted (.done none)) : Eval (Parse.Outcome Meaning)) w =
        .ok (.accepted (.done none)) ⟨session.bindings, last, #[.line
          (body.leftText (params.zip args) (params.drop args.length) (args.drop params.length))]⟩ := by
    rw [bind_assoc, Eval.bind_of_ok (Meaning.name_of_bound untraced found), bind_assoc, Eval.bind_of_ok foundRow,
      Eval.bind_of_ok applied, Eval.bind_of_ok printed]
    rfl
  have stepped : session.step s line = (⟨[.line
      (body.leftText (params.zip args) (params.drop args.length) (args.drop params.length))], .ok none⟩,
      ⟨session.bindings, last⟩) := Session.step_of_parse scanned (fun _ => parse_print read) done
  rw [stepped]

end Lines

/-- A function of several parameters, whose body is made of numbers, lists and names that stand for themselves, uses
each argument once and in order. Applied to fewer literals than it has parameters, it prints as a function of the
parameters that are left; with as many, as its body; with more of them, as its body before those that are left. In
the body the first parameters are replaced by the arguments, each by its own (where two parameters have the same name,
the outer one counts). Evaluations have to nest a little deeper than the function. -/
theorem curried_application_in_order {s : Settings} (untraced : s.tracing = false) {f : String}
    (notTrue : f ≠ "true") (notFalse : f ≠ "false") {params : List String} {body : Template} {args : List Argument}
    (nonempty : args ≠ []) (deep : params.length + body.height < s.depth) {session : Session}
    (truthful : session.bindings.Truthful) (free : body.Free session.bindings) (other : .name f ∉ body.words)
    {definition application : String}
    (defines : (Scan.ofText definition).Of (.name f :: .sign .assign ":=" :: body.curriedWords params))
    (applies : (Scan.ofText application).Of
      (.sign .printWord "print" :: (Word.name f :: args.map Argument.word).intersperse (.sign .dot "."))) :
    (session.step s definition).1.Succeeds ∧
      ∃ text, ((session.step s definition).2.step s application).1 = ⟨[.line text], .ok none⟩ ∧
        (args.length < params.length → text = body.curriedText (params.zip args) (params.drop args.length)) ∧
        (args.length = params.length → text = body.text (params.zip args)) ∧
        (params.length < args.length → text = " . ".intercalate
          (body.text (params.zip args) :: (args.drop params.length).map Argument.text)) := by
  have lexical : ∀ w ∈ body.words, w.Lexical := fun w inside =>
    defines.lexical w (List.mem_cons_of_mem _ (List.mem_cons_of_mem _ (body.mem_curriedWords params inside)))
  obtain ⟨reply, stored, store, stepped, succeeds, under⟩ := Session.step_define untraced deep lexical free defines
  let after : Session := ⟨session.bindings.insert f stored, store⟩
  have kept {id : String} (different : id ≠ f) : after.bindings.find? id = session.bindings.find? id :=
    Bindings.find?_insert_of_ne stored session.bindings different
  have truthful' : after.bindings.Truthful :=
    ⟨(kept notTrue.symm).trans truthful.1, (kept notFalse.symm).trans truthful.2⟩
  have free' : body.Free after.bindings := by
    intro id inside
    have different : id ≠ f := fun same => other (same ▸ inside)
    rw [kept different]
    exact free id inside
  have found : after.bindings.find? f = some stored := Bindings.find?_insert_self f stored session.bindings
  have prints := Session.step_apply untraced deep lexical free' truthful' found under nonempty applies
  rw [stepped]
  refine ⟨succeeds, _, prints, fun fewer => ?_, fun same => ?_, fun more => ?_⟩
  · simp [Template.leftText, List.drop_eq_nil_of_le (Nat.le_of_lt fewer)]
  · simp [Template.leftText, Template.curriedText, List.drop_eq_nil_of_le same.le, List.drop_eq_nil_of_le same.ge]
  · simp [Template.leftText, Template.curriedText, List.drop_eq_nil_of_le (Nat.le_of_lt more)]

/-- A function of two parameters that stand in a nested list, in reverse order and beside another name, applied to
one argument, to two and to four. -/
theorem curried_application_in_order_of_nested :
    let s : Settings := ⟨false, 6⟩
    let defined := Session.fresh.step s "f := \\ x => \\ y => [[y, x], z, 7]"
    let shown (line : String) := (defined.2.step s line).1
    defined.1.Succeeds ∧
      shown "print f . true" = ⟨[.line "\\ y => [ [ y, True ], z, 7 ]"], .ok none⟩ ∧
      shown "print f . true . 5" = ⟨[.line "[ [ 5, True ], z, 7 ]"], .ok none⟩ ∧
      shown "print f . true . 5 . false . 0" = ⟨[.line "[ [ 5, True ], z, 7 ] . False . 0"], .ok none⟩ := by
  intro s defined shown
  let body : Template := .list [.list [.name "y", .name "x"], .name "z", .number 7 (by decide +kernel)]
  have defines : (Scan.ofText "f := \\ x => \\ y => [[y, x], z, 7]").Of
      (.name "f" :: .sign .assign ":=" :: body.curriedWords ["x", "y"]) := by decide +kernel
  have free : body.Free Session.fresh.bindings := by
    intro id inside
    obtain rfl | rfl | rfl : id = "y" ∨ id = "x" ∨ id = "z" := by
      simpa [body, Template.words, Template.wordsAll, Word.name, Word.sign, Word.number] using inside
    all_goals decide
  have deep : ["x", "y"].length + body.height < s.depth := by decide
  have applied {args : List Argument} (nonempty : args ≠ []) {line : String} (applies : (Scan.ofText line).Of
      (.sign .printWord "print" :: (Word.name "f" :: args.map Argument.word).intersperse (.sign .dot "."))) :=
    curried_application_in_order (s := s) rfl (by decide) (by decide) nonempty deep ⟨rfl, rfl⟩ free (by decide) defines
      applies
  let five : Argument := .number 5 (by decide +kernel)
  let zero : Argument := .number 0 (by decide +kernel)
  obtain ⟨succeeds, text, few, rest, -⟩ := @applied [.truth true] (by simp) "print f . true" (by decide +kernel)
  obtain rfl : text = "\\ y => [ [ y, True ], z, 7 ]" := (rest (by decide)).trans (by decide +kernel)
  obtain ⟨-, text, enough, -, whole, -⟩ :=
    @applied [.truth true, five] (by simp) "print f . true . 5" (by decide +kernel)
  obtain rfl : text = "[ [ 5, True ], z, 7 ]" := (whole (by decide)).trans (by decide +kernel)
  obtain ⟨-, text, many, -, -, more⟩ := @applied [.truth true, five, .truth false, zero] (by simp)
    "print f . true . 5 . false . 0" (by decide +kernel)
  obtain rfl : text = "[ [ 5, True ], z, 7 ] . False . 0" := (more (by decide)).trans (by decide +kernel)
  exact ⟨succeeds, few, enough, many⟩

end DotLambda
