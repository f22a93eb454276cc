import DotLambda.Grammar.Automaton

/-!
How the automaton walks from state to state. Main statement: wherever a phrase may come next, the symbols
of each of its rules lead to the one state in which that rule is complete.
-/

namespace DotLambda

namespace Automaton

/-- The tokens with which no expression goes on, and the end of the input. -/
def closers : List (Option Kind) :=
  [none, some .rightParen, some .thenWord, some .elseWord, some .endifWord, some .rightBracket,
    some .comma]

end Automaton

/-- What may close a phrase. -/
def Nonterminal.closers : Nonterminal → List (Option Kind)
  | statement => [none]
  | items => [some .rightBracket]
  | exprList | expr | term | factor | list => Automaton.closers

namespace Automaton

/-- The state after a symbol: the token is read, or the phrase has been formed. -/
def next? (state : Nat) : Symbol → Option Nat
  | .terminal kind => (row state).shifts.lookup kind
  | .nonterminal phrase => goto? state phrase

/-- The state after several symbols. -/
def walk (state : Nat) : List Symbol → Option Nat
  | [] => some state
  | s :: rest => (next? state s).bind fun target => walk target rest

/-- The state in which all symbols of a rule have been read. -/
def complete (rule : Rule) : Nat :=
  rows.toList.findIdx fun row => row.reduction.any fun reduction => reduction.1 = rule

/-- The automaton uses a rule once it is complete, before a token or at the end of the input. -/
def Reduces (rule : Rule) (next : Option Kind) : Prop :=
  action? (complete rule) next = some (.reduce rule)

instance (rule : Rule) (next : Option Kind) : Decidable (Reduces rule next) :=
  inferInstanceAs (Decidable (_ = _))

/-- All rules. -/
def rules : List Rule :=
  [.append, .dump, .print, .assign, .lastInChain, .chain, .negation, .disjunction, .conjunction,
    .listExpr, .comparison, .equality, .conditional, .termExpr, .sum, .function, .factorTerm, .product,
    .length, .sort, .sign, .tail, .head, .parenthesized, .name, .string, .number, .listOf, .emptyList,
    .item, .lastItem]

theorem mem_rules (rule : Rule) : rule ∈ rules := by
  cases rule <;> decide

/-- The rules of factors and terms that nothing goes on to the right. -/
def factorRules : List Rule :=
  [.number, .string, .name, .parenthesized, .sign, .factorTerm, .product]

/-- The rules of expressions that stop where a term does. -/
def sumRules : List Rule := [.termExpr, .sum]

/-- What may follow a rule where it is used: what closes its phrase, and more after a factor or a sum. -/
def followers (rule : Rule) : List (Option Kind) :=
  rule.lhs.closers ++ (if rule ∈ factorRules then afterFactor else []) ++
    (if rule ∈ sumRules then afterLoneTerm else [])

/-! ## The table, state by state -/

private theorem walk_rhs_inside : ∀ state < rows.size, ∀ rule ∈ rules,
    (goto? state rule.lhs).isSome → walk state rule.rhs = some (complete rule) := by
  decide +kernel

private theorem default?_shift_inside : ∀ state < rows.size, ∀ entry ∈ (row state).shifts,
    entry.1 ≠ .dumpWord → default? entry.2 = none := by
  decide +kernel

private theorem reduces_inside : ∀ rule ∈ rules, ∀ follower ∈ followers rule, Reduces rule follower := by
  decide +kernel

theorem row_of_le {state : Nat} (outside : rows.size ≤ state) : row state = ⟨[], none, []⟩ := by
  simp [row, outside]

/-- Wherever a phrase may come next, each of its rules can be walked through. -/
theorem walk_rhs {state target : Nat} {rule : Rule} (awaited : goto? state rule.lhs = some target) :
    walk state rule.rhs = some (complete rule) := by
  by_cases inside : state < rows.size
  · exact walk_rhs_inside state inside rule (mem_rules rule) (by simp [awaited])
  · simp [goto?, row_of_le (Nat.le_of_not_lt inside)] at awaited

/-- Every rule is used before each closer of its phrase. -/
theorem reduces_of_mem_closers {rule : Rule} {follower : Option Kind}
    (closes : follower ∈ rule.lhs.closers) : Reduces rule follower :=
  reduces_inside rule (mem_rules rule) follower (by simp [followers, closes])

theorem reduces_of_mem_afterFactor {rule : Rule} {follower : Option Kind} (listed : rule ∈ factorRules)
    (follows : follower ∈ afterFactor) : Reduces rule follower :=
  reduces_inside rule (mem_rules rule) follower (by simp [followers, listed, follows])

theorem reduces_of_mem_afterLoneTerm {rule : Rule} {follower : Option Kind} (listed : rule ∈ sumRules)
    (follows : follower ∈ afterLoneTerm) : Reduces rule follower :=
  reduces_inside rule (mem_rules rule) follower (by simp [followers, listed, follows])

theorem afterLoneTerm_subset : afterLoneTerm ⊆ afterFactor := by decide

theorem closers_subset : closers ⊆ afterLoneTerm := by decide

/-- Only a dump has the word for it, and no rule has a statement within it. -/
theorem dumpless {rule : Rule} (other : rule ≠ .dump) :
    .nonterminal .statement ∉ rule.rhs ∧ .terminal .dumpWord ∉ rule.rhs := by
  cases rule with
  | dump => exact absurd rfl other
  | _ => decide

/-- After every token but one the automaton looks at the next one before it does anything. -/
theorem default?_shift {state target : Nat} {kind : Kind}
    (reads : next? state (.terminal kind) = some target) (other : kind ≠ .dumpWord) :
    default? target = none := by
  by_cases inside : state < rows.size
  · obtain ⟨front, back, found, -⟩ := List.lookup_eq_some_iff.1 reads
    exact default?_shift_inside state inside (kind, target) (by simp [found]) other
  · simp [next?, row_of_le (Nat.le_of_not_lt inside)] at reads

/-- A state that reads a token looks at it first. -/
theorem default?_eq_none_of_shift {state target : Nat} {kind : Kind}
    (reads : next? state (.terminal kind) = some target) : default? state = none := by
  unfold default?
  split
  · rename_i found
    simp [next?, found] at reads
  · rfl

theorem action?_shift {state target : Nat} {kind : Kind}
    (reads : next? state (.terminal kind) = some target) :
    action? state (some kind) = some (.shift target) := by
  simp only [next?] at reads
  simp [action?, reads]

/-- A rule that is used without looking is the one that would be used after looking. -/
theorem default?_eq_of_reduce {state : Nat} {rule used : Rule} {next : Option Kind}
    (unseen : default? state = some used) (looked : action? state next = some (.reduce rule)) :
    used = rule := by
  unfold default? at unseen
  split at unseen
  · rename_i reduction follower gotos found
    simp only [Option.some.injEq] at unseen
    subst unseen
    simp only [action?, found, List.lookup_nil] at looked
    split at looked
    · simp at looked
    · cases next <;> simp_all
  · simp at unseen

end Automaton

end DotLambda
