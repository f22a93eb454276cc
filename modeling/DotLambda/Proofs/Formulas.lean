import DotLambda.Proofs.Equations

/-!
Formulas of truth values. A formula is written with parentheses only where the usual precedence needs them: `not`
binds most tightly, then `and`, then `or`. The language knows no such precedence: a `not`, an `and` and an `or`
each take all that stands to their right, up to the end of the group. Main statement: a formula prints as the
value of what it is read as, and this is its own value where in each group a `not` comes last and no `or` comes
after an `and`.
-/

namespace DotLambda

/-- What joins two formulas. -/
inductive Connective where
  | and | or
deriving DecidableEq

namespace Connective

/-- The truth table of a connective. -/
def apply : Connective → Bool → Bool → Bool
  | and => (· && ·)
  | or => (· || ·)

theorem apply_assoc (c : Connective) (x y z : Bool) : c.apply x (c.apply y z) = c.apply (c.apply x y) z := by
  cases c
  · exact (Bool.and_assoc x y z).symm
  · exact (Bool.or_assoc x y z).symm

/-- How tightly a connective binds. -/
def tightness : Connective → Nat
  | or => 0
  | and => 1

def kind : Connective → Kind
  | and => .andWord
  | or => .orWord

def text : Connective → String
  | and => "and"
  | or => "or"

def word (c : Connective) : Word := .sign c.kind c.text

end Connective

/-- A formula. -/
inductive Formula where
  | truth (value : Bool)
  | not (f : Formula)
  | join (c : Connective) (lhs rhs : Formula)
deriving DecidableEq

namespace Formula

/-- What a formula comes to under the usual truth tables. -/
def value : Formula → Bool
  | truth value => value
  | not f => !f.value
  | join c f g => c.apply f.value g.value

/-- How tightly a formula holds together. -/
def tightness : Formula → Nat
  | join c _ _ => c.tightness
  | not _ => 2
  | truth _ => 3

/-- The word for a truth value. -/
def literal (value : Bool) : String := if value then "true" else "false"

/-- Words, in parentheses if they need them. -/
def group (needed : Bool) (words : List Word) : List Word :=
  if needed then .sign .leftParen "(" :: (words ++ [.sign .rightParen ")"]) else words

/-- The words of a formula, with parentheses around what binds less tightly than what stands beside it. -/
def words : Formula → List Word
  | truth value => [.name (literal value)]
  | not f => .sign .notWord "not" :: group (f.tightness < 2) f.words
  | join c f g => group (f.tightness < c.tightness) f.words ++
      c.word :: group (g.tightness < c.tightness) g.words

/-! ## What formulas are read as -/

/-- What stands to the right of a formula in its group: a connective and the formula after it, or nothing. -/
abbrev Tail : Type := Option (Connective × Formula)

/-- A formula that is read on its own, before a tail. -/
def before (f : Formula) : Tail → Formula
  | none => f
  | some (c, g) => .join c f g

/-- What a formula is read as before a tail: in parentheses it is read on its own. -/
def grouped (needed : Bool) (read : Tail → Formula) (tail : Tail) : Formula :=
  if needed then (read none).before tail else read tail

/-- What a formula that stands without parentheses is read as before a tail. -/
def readBefore : Formula → Tail → Formula
  | truth value, tail => (truth value).before tail
  | not f, tail => .not (grouped (f.tightness < 2) f.readBefore tail)
  | join c f g, tail =>
    grouped (f.tightness < c.tightness) f.readBefore
      (some (c, grouped (g.tightness < c.tightness) g.readBefore tail))

/-- What a formula is read as. -/
def asRead (f : Formula) : Formula := f.readBefore none

/-- Whether a formula is read with its own value before a connective: a `not` stands at the end of its group,
and what a connective joins at the end or before the same connective. -/
def alignedBefore : Formula → Option Connective → Bool
  | truth _, _ => true
  | not f, next => next.isNone && f.alignedBefore none
  | join c f g, next =>
    (next.isNone || next = some c) &&
      f.alignedBefore (if f.tightness < c.tightness then none else some c) &&
      g.alignedBefore (if g.tightness < c.tightness then none else next)

/-- Whether a formula is read with its own value, whatever the values of its parts are. -/
def Aligned (f : Formula) : Prop := f.alignedBefore none = true

instance (f : Formula) : Decidable f.Aligned := inferInstanceAs (Decidable (_ = true))

theorem value_before {f g : Formula} (same : f.value = g.value) (tail : Tail) :
    (f.before tail).value = (g.before tail).value := by
  cases tail with
  | none => exact same
  | some next => simp [before, value, same]

/-- What is aligned without parentheses is so with them. -/
theorem value_grouped {f : Formula} {needed : Bool} {tail : Tail}
    (settled : ∀ tail : Tail, f.alignedBefore (tail.map Prod.fst) = true →
      (f.readBefore tail).value = ((truth f.value).before tail).value)
    (aligned : f.alignedBefore (if needed then none else tail.map Prod.fst) = true) :
    (grouped needed f.readBefore tail).value = ((truth f.value).before tail).value := by
  cases needed with
  | true => exact value_before (settled none aligned) tail
  | false => exact settled tail aligned

/-- A formula that is aligned before its tail is read there with its own value. -/
theorem value_readBefore (f : Formula) (tail : Tail) (aligned : f.alignedBefore (tail.map Prod.fst) = true) :
    (f.readBefore tail).value = ((truth f.value).before tail).value := by
  induction f generalizing tail with
  | truth => rfl
  | not f ih =>
    simp only [alignedBefore, Bool.and_eq_true, Option.isNone_map, Option.isNone_iff_eq_none] at aligned
    obtain ⟨rfl, inside⟩ := aligned
    have operand : (grouped (f.tightness < 2) f.readBefore none).value = f.value :=
      value_grouped ih (by simpa using inside)
    simp only [readBefore, before, value, operand]
  | join c f g ihf ihg =>
    simp only [alignedBefore, Bool.and_eq_true, Bool.or_eq_true, Option.isNone_map, Option.isNone_iff_eq_none,
      decide_eq_true_eq] at aligned
    obtain ⟨⟨next, left⟩, right⟩ := aligned
    have rest := @value_grouped g (g.tightness < c.tightness) tail ihg (by simpa using right)
    have whole := @value_grouped f (f.tightness < c.tightness)
      (some (c, grouped (g.tightness < c.tightness) g.readBefore tail)) ihf (by simpa using left)
    rw [readBefore, whole]
    simp only [before, value, rest]
    rcases next with rfl | same
    · rfl
    · obtain ⟨⟨d, h⟩, rfl, rfl⟩ := Option.map_eq_some_iff.1 same
      exact Connective.apply_assoc ..

end Formula

/-! ## What they come to -/

/-- A term that stands for a truth value: its literal, or the word for it. -/
def Term.Stands (t : Term) (value : Bool) : Prop :=
  t = .bool (.bool value) ∨ t = .name (Formula.literal value)

/-- The words for the truth values are bound to nothing. -/
def Bindings.Truthful (bindings : Bindings Term) : Prop :=
  bindings.find? "true" = none ∧ bindings.find? "false" = none

theorem Bindings.Truthful.literal {bindings : Bindings Term} (truthful : bindings.Truthful) (value : Bool) :
    bindings.find? (Formula.literal value) = none := by
  cases value
  · exact truthful.2
  · exact truthful.1

/-- What a connective makes of two terms. -/
def Connective.meaning (s : Settings) : Connective → Term → Term → Eval Term
  | and => Meaning.conjunction s
  | or => Meaning.disjunction s

section Untraced

variable {s : Settings} (untraced : s.tracing = false) (deep : 0 < s.depth)
include untraced deep

theorem Term.Stands.simplifyNow {t : Term} {value : Bool} (stands : t.Stands value) (w : World) :
    Meaning.simplifyNow s t w = .ok (.bool (.bool value)) w := by
  obtain ⟨depth, deeper⟩ := Nat.exists_eq_add_of_lt deep
  have literal : simplify s w.bindings s.depth t = pure (.bool (.bool value)) := by
    rw [deeper, simplify_untraced untraced]
    rcases stands with rfl | rfl
    · exact Eval.make_untraced untraced _
    · cases value <;> exact Eval.make_untraced untraced _
  have read : (get : Eval World) w = .ok w w := rfl
  rw [Meaning.simplifyNow, Eval.bind_of_ok read, literal]
  rfl

theorem Term.Stands.valueOf {t : Term} {value : Bool} (stands : t.Stands value) (w : World) :
    Meaning.valueOf s t w = .ok (.bool value) w := by
  rw [Meaning.valueOf, Eval.bind_of_ok (stands.simplifyNow untraced deep w)]
  rfl

theorem Term.Stands.negation {t : Term} {value : Bool} (stands : t.Stands value) (w : World) :
    Meaning.negation s t w = .ok (.bool (.bool !value)) w := by
  rw [Meaning.negation, Eval.bind_of_ok (stands.valueOf untraced deep w), Eval.make_untraced untraced]
  rfl

theorem Connective.meaning_eq (c : Connective) {t u : Term} {left right : Bool} (lhs : t.Stands left)
    (rhs : u.Stands right) (w : World) :
    c.meaning s t u w = .ok (.bool (.bool (c.apply left right))) w := by
  have first := lhs.valueOf untraced deep w
  have second := rhs.valueOf untraced deep w
  have made (value : Datum) : Eval.make s (.bool value) w = .ok (.bool value) w := by
    rw [Eval.make_untraced untraced]
    rfl
  cases c with
  | and =>
    rw [Connective.meaning, Meaning.conjunction, Eval.bind_of_ok first]
    cases left with
    | true => exact (Eval.bind_of_ok second).trans (made _)
    | false => exact made _
  | or =>
    rw [Connective.meaning, Meaning.disjunction, Eval.bind_of_ok first]
    cases left with
    | true => exact made _
    | false => exact (Eval.bind_of_ok second).trans (made _)

theorem Term.Stands.print {t : Term} {value : Bool} (stands : t.Stands value) (w : World) :
    Meaning.print s t w =
      .ok () ⟨w.bindings, w.store, w.output.push (.line (if value then "True" else "False"))⟩ := by
  have shown : (Term.bool (.bool value)).printed w.store s.depth = .ok (if value then "True" else "False") := by
    obtain ⟨depth, deeper⟩ := Nat.exists_eq_add_of_lt deep
    rw [deeper]
    cases value <;> rfl
  rw [Meaning.print, Eval.bind_of_ok (stands.simplifyNow untraced deep w),
    Eval.bind_of_ok (Eval.examine_of_ok shown)]
  cases value <;> rfl

end Untraced

/-! ## How they are read -/

/-- An evaluation that gives a term for a truth value, where the words for these are free, and does nothing else. -/
def Eval.Decides (x : Eval Term) (value : Bool) : Prop :=
  ∀ w : World, w.bindings.Truthful → ∃ t : Term, t.Stands value ∧ x w = .ok t w

/-- Words that are read as an expression for a truth value. -/
def Asserts (s : Settings) (follower : Option Kind) (words : List Word) (value : Bool) : Prop :=
  ∃ x, ReadsTerm s .expr follower words x ∧ x.Decides value

/-- The words of a tail: a connective and what is read after it. -/
inductive Formula.Trails (s : Settings) (follower : Option Kind) : Formula.Tail → List Word → Prop where
  | none : Trails s follower none []
  | some {c : Connective} {g : Formula} {words : List Word} (asserts : Asserts s follower words g.value) :
      Trails s follower (some (c, g)) (c.word :: words)

section Reading

variable {s : Settings} (untraced : s.tracing = false) (deep : 0 < s.depth) {follower : Option Kind}
  (closes : follower ∈ Automaton.closers)
include untraced deep closes

/-- A connective between an expression and what is read after it. -/
theorem Asserts.join (c : Connective) {front words : List Word} {left right : Bool}
    (lhs : Asserts s (some c.kind) front left) (rhs : Asserts s follower words right) :
    Asserts s follower (front ++ c.word :: words) (c.apply left right) := by
  obtain ⟨x, readLeft, decidesLeft⟩ := lhs
  obtain ⟨y, readRight, decidesRight⟩ := rhs
  refine ⟨do let a ← x; let b ← y; c.meaning s a b, ?_, ?_⟩
  · cases c with
    | and => exact .conjunction (Automaton.reduces_of_mem_closers closes) readLeft readRight
    | or => exact .disjunction (Automaton.reduces_of_mem_closers closes) readLeft readRight
  · intro w truthful
    obtain ⟨t, standsLeft, doneLeft⟩ := decidesLeft w truthful
    obtain ⟨u, standsRight, doneRight⟩ := decidesRight w truthful
    refine ⟨_, .inl rfl, ?_⟩
    rw [Eval.bind_of_ok doneLeft, Eval.bind_of_ok doneRight]
    exact c.meaning_eq untraced deep standsLeft standsRight w

theorem Asserts.not {words : List Word} {value : Bool} (operand : Asserts s follower words value) :
    Asserts s follower (.sign .notWord "not" :: words) (!value) := by
  obtain ⟨x, read, decides⟩ := operand
  refine ⟨_, .negation (Automaton.reduces_of_mem_closers closes) read, fun w truthful => ?_⟩
  obtain ⟨t, stands, done⟩ := decides w truthful
  refine ⟨_, .inl rfl, ?_⟩
  rw [Eval.bind_of_ok done]
  exact stands.negation untraced deep w

omit deep closes in
/-- A factor is an expression wherever a connective or a closer comes next. -/
theorem Asserts.ofFactor {words : List Word} {value : Bool} {x : Eval Term} {next : Option Kind}
    (follows : next ∈ Automaton.afterLoneTerm) (read : ReadsTerm s .factor next words x)
    (decides : x.Decides value) : Asserts s next words value :=
  ⟨x, .ofTerm untraced (Automaton.reduces_of_mem_afterLoneTerm (by decide) follows)
    (.ofFactor untraced (Automaton.reduces_of_mem_afterFactor (by decide)
      (Automaton.afterLoneTerm_subset follows)) read), decides⟩

/-- A factor before a tail is its first operand. -/
theorem Formula.Trails.after {tail : Formula.Tail} {rest words : List Word} {f : Formula} {x : Eval Term}
    (trails : Formula.Trails s follower tail rest)
    (read : ∀ next ∈ Automaton.afterLoneTerm, ReadsTerm s .factor next words x) (decides : x.Decides f.value) :
    Asserts s follower (words ++ rest) (f.before tail).value := by
  cases trails with
  | none =>
    rw [List.append_nil]
    exact .ofFactor untraced (Automaton.closers_subset closes) (read _ (Automaton.closers_subset closes)) decides
  | @some c g rest asserts =>
    have follows : Option.some c.kind ∈ Automaton.afterLoneTerm := by cases c <;> decide
    exact .join untraced deep closes c (.ofFactor untraced follows (read _ follows) decides) asserts

omit closes in
/-- The words of a formula before those of a tail are read as what the formula is read as there. The induction
is on the formula, for every tail: what stands to the right of a part goes into the tail of the part. -/
theorem Formula.asserts (f : Formula) {follower : Option Kind} (closes : follower ∈ Automaton.closers)
    {tail : Formula.Tail} {rest : List Word} (trails : Formula.Trails s follower tail rest) :
    Asserts s follower (f.words ++ rest) (f.readBefore tail).value := by
  -- what is in parentheses is read up to the closing one, and then it is a factor
  have grouped {f : Formula} (ih : ∀ {follower : Option Kind}, follower ∈ Automaton.closers →
        ∀ {tail : Formula.Tail} {rest : List Word}, Formula.Trails s follower tail rest →
          Asserts s follower (f.words ++ rest) (f.readBefore tail).value)
      (needed : Bool) {follower : Option Kind} (closes : follower ∈ Automaton.closers)
      {tail : Formula.Tail} {rest : List Word} (trails : Formula.Trails s follower tail rest) :
      Asserts s follower (group needed f.words ++ rest) (Formula.grouped needed f.readBefore tail).value := by
    cases needed with
    | false => exact ih closes trails
    | true =>
      have closing : some Kind.rightParen ∈ Automaton.closers := by decide
      obtain ⟨x, read, decides⟩ := ih closing .none
      rw [List.append_nil] at read
      exact trails.after untraced deep closes (fun next follows =>
        .parenthesized untraced (Automaton.reduces_of_mem_afterFactor (by decide)
            (Automaton.afterLoneTerm_subset follows))
          (.ofExpr untraced (Automaton.reduces_of_mem_closers closing) read)) decides
  induction f generalizing follower tail rest with
  | truth value =>
    refine trails.after untraced deep closes (fun next follows => .name
      (Automaton.reduces_of_mem_afterFactor (by decide) (Automaton.afterLoneTerm_subset follows)) _) ?_
    intro w truthful
    exact ⟨.name (literal value), .inr rfl, Meaning.name_of_unbound untraced (truthful.literal value)⟩
  | not f ih => exact .not untraced deep closes (grouped ih _ closes trails)
  | join c f g ihf ihg =>
    have right := grouped ihg (g.tightness < c.tightness) closes trails
    have whole := grouped ihf (f.tightness < c.tightness) closes (.some (c := c) right)
    rwa [words, List.append_assoc]

end Reading

/-! ## Printing -/

/-- The reply to a question for a truth value. -/
def Reply.truth (value : Bool) : Reply := ⟨[.line (if value then "True" else "False")], .ok none⟩

/-- A formula prints as the value of what it is read as. -/
theorem Session.step_formula {s : Settings} (untraced : s.tracing = false) (deep : 0 < s.depth) {session : Session}
    (truthful : session.bindings.Truthful) (f : Formula) {line : String}
    (scanned : (Scan.ofText line).Of (.sign .printWord "print" :: f.words)) :
    session.step s line = (.truth f.asRead.value, session) := by
  let w : World := ⟨session.bindings, session.store, #[]⟩
  have asserts : Asserts s none (f.words ++ []) f.asRead.value := f.asserts untraced deep (by decide) .none
  rw [List.append_nil] at asserts
  obtain ⟨x, read, decides⟩ := asserts
  obtain ⟨t, stands, done⟩ := decides w truthful
  have parsed (tokens : List Token) (same : tokens.map Token.word = .sign .printWord "print" :: f.words) :=
    parse_print (.ofExpr untraced (Automaton.reduces_of_mem_closers (by decide)) read) same
  have printed : (do
      let t ← x
      Meaning.print s t
      pure (.accepted (.done none)) : Eval (Parse.Outcome Meaning)) w = .ok (.accepted (.done none))
        ⟨session.bindings, session.store, #[.line (if f.asRead.value then "True" else "False")]⟩ := by
    rw [Eval.bind_of_ok done, Eval.bind_of_ok (stands.print untraced deep w)]
    rfl
  exact Session.step_of_parse scanned parsed printed

/-- However long a formula is, it prints as the value of what it is read as, and as its own value where it is
aligned. -/
theorem print_formula {s : Settings} (untraced : s.tracing = false) (deep : 0 < s.depth) {session : Session}
    (truthful : session.bindings.Truthful) (f : Formula) {line : String}
    (scanned : (Scan.ofText line).Of (.sign .printWord "print" :: f.words)) :
    session.step s line = (.truth f.asRead.value, session) ∧
      (f.Aligned → session.step s line = (.truth f.value, session)) := by
  have printed := Session.step_formula untraced deep truthful f scanned
  refine ⟨printed, fun aligned => ?_⟩
  rw [printed, Formula.asRead, f.value_readBefore none aligned]
  rfl

/-- A `not` at the end of a formula is read as it is meant. -/
theorem print_formula_of_last_not :
    (Session.fresh.step ⟨false, 1⟩ "print false or not (true and false)").1 = .truth true := by
  let f : Formula := .join .or (.truth false) (.not (.join .and (.truth true) (.truth false)))
  have scanned : (Scan.ofText "print false or not (true and false)").Of (.sign .printWord "print" :: f.words) := by
    decide +kernel
  have truthful : Session.fresh.bindings.Truthful := ⟨rfl, rfl⟩
  rw [(print_formula rfl (by decide) truthful f scanned).2 (by decide)]
  rfl

/-- A `not` before a connective takes what stands after the connective too, and an `and` takes an `or`. -/
theorem precedence_differs :
    let negated : Formula := .join .or (.not (.truth true)) (.truth true)
    let joined : Formula := .join .or (.join .and (.truth false) (.truth true)) (.truth true)
    (negated.value = true ∧ (Scan.ofText "print not true or true").Of (.sign .printWord "print" :: negated.words) ∧
        (Session.fresh.step ⟨false, 1⟩ "print not true or true").1 = .truth false) ∧
      joined.value = true ∧
        (Scan.ofText "print false and true or true").Of (.sign .printWord "print" :: joined.words) ∧
        (Session.fresh.step ⟨false, 1⟩ "print false and true or true").1 = .truth false := by
  intro negated joined
  have truthful : Session.fresh.bindings.Truthful := ⟨rfl, rfl⟩
  have first : (Scan.ofText "print not true or true").Of (.sign .printWord "print" :: negated.words) := by
    decide +kernel
  have second : (Scan.ofText "print false and true or true").Of (.sign .printWord "print" :: joined.words) := by
    decide +kernel
  refine ⟨⟨rfl, first, ?_⟩, rfl, second, ?_⟩
  · rw [Session.step_formula rfl (by decide) truthful negated first]
    rfl
  · rw [Session.step_formula rfl (by decide) truthful joined second]
    rfl

end DotLambda
