import DotLambda.Token

/-!
The grammar of the language. It is ambiguous: what binds more tightly is settled by the automaton,
which prefers to read on. Main statement: a rule replaces symbols by a lighter one, which bounds how
long a parse can take.
-/

namespace DotLambda

/-- The phrases of the language. -/
inductive Nonterminal where
  | statement | exprList | expr | term | factor | list | items
deriving DecidableEq

/-- A token kind or a phrase. -/
inductive Symbol where
  | terminal (kind : Kind)
  | nonterminal (phrase : Nonterminal)
deriving DecidableEq

/-- The rules of the grammar. -/
inductive Rule where
  | append | dump | print | assign
  | lastInChain | chain
  | negation | disjunction | conjunction
  | listExpr | comparison | equality | conditional | termExpr | sum | function
  | factorTerm | product
  | length | sort | sign | tail | head | parenthesized | name | string | number
  | listOf | emptyList | item | lastItem
deriving DecidableEq

namespace Rule

/-- The phrase that a rule forms. -/
def lhs : Rule → Nonterminal
  | append | dump | print | assign => .statement
  | lastInChain | chain => .exprList
  | negation | disjunction | conjunction | listExpr | comparison | equality | conditional | termExpr
  | sum | function => .expr
  | factorTerm | product => .term
  | length | sort | sign | tail | head | parenthesized | name | string | number => .factor
  | listOf | emptyList => .list
  | item | lastItem => .items

/-- The symbols from which a rule forms its phrase. -/
def rhs : Rule → List Symbol
  | append =>
    [.terminal .appendWord, .terminal .dot, .terminal .identifier, .terminal .dot, .nonterminal .expr]
  | dump => [.terminal .dumpWord]
  | print => [.terminal .printWord, .nonterminal .exprList]
  | assign => [.terminal .identifier, .terminal .assign, .nonterminal .exprList]
  | lastInChain => [.nonterminal .expr]
  | chain => [.nonterminal .expr, .terminal .dot, .nonterminal .exprList]
  | negation => [.terminal .notWord, .nonterminal .expr]
  | disjunction => [.nonterminal .expr, .terminal .orWord, .nonterminal .expr]
  | conjunction => [.nonterminal .expr, .terminal .andWord, .nonterminal .expr]
  | listExpr => [.nonterminal .list]
  | comparison => [.nonterminal .term, .terminal .compareOp, .nonterminal .term]
  | equality => [.nonterminal .term, .terminal .equalOp, .nonterminal .term]
  | conditional =>
    [.terminal .ifWord, .nonterminal .expr, .terminal .thenWord, .nonterminal .expr,
      .terminal .elseWord, .nonterminal .expr, .terminal .endifWord]
  | termExpr => [.nonterminal .term]
  | sum => [.nonterminal .expr, .terminal .addOp, .nonterminal .term]
  | function =>
    [.terminal .lambda, .terminal .identifier, .terminal .arrow, .nonterminal .exprList]
  | factorTerm => [.nonterminal .factor]
  | product => [.nonterminal .term, .terminal .multOp, .nonterminal .factor]
  | length => [.terminal .lengthWord, .terminal .dot, .nonterminal .expr]
  | sort => [.terminal .sortWord, .terminal .dot, .nonterminal .expr]
  | sign => [.terminal .addOp, .nonterminal .factor]
  | tail => [.terminal .tailWord, .terminal .dot, .nonterminal .expr]
  | head => [.terminal .headWord, .terminal .dot, .nonterminal .expr]
  | parenthesized => [.terminal .leftParen, .nonterminal .exprList, .terminal .rightParen]
  | name => [.terminal .identifier]
  | string => [.terminal .string]
  | number => [.terminal .number]
  | listOf => [.terminal .leftBracket, .nonterminal .items, .terminal .rightBracket]
  | emptyList => [.terminal .leftBracket, .terminal .rightBracket]
  | item => [.nonterminal .expr, .terminal .comma, .nonterminal .items]
  | lastItem => [.nonterminal .expr]

end Rule

namespace Symbol

/-- The weight of a symbol: how many rules can still be used on it alone, and one. -/
def weight : Symbol → Nat
  | terminal _ => 6
  | nonterminal .factor => 5
  | nonterminal .term => 4
  | nonterminal .list => 4
  | nonterminal .expr => 3
  | nonterminal .exprList => 2
  | nonterminal .items => 2
  | nonterminal .statement => 1

/-- The weight of several symbols together. -/
def totalWeight : List Symbol → Nat
  | [] => 0
  | s :: rest => s.weight + totalWeight rest

theorem totalWeight_append (front back : List Symbol) :
    totalWeight (front ++ back) = totalWeight front + totalWeight back := by
  induction front with
  | nil => simp [totalWeight]
  | cons s rest ih => simp [totalWeight, ih, Nat.add_assoc]

theorem totalWeight_reverse (symbols : List Symbol) :
    totalWeight symbols.reverse = totalWeight symbols := by
  induction symbols with
  | nil => rfl
  | cons s rest ih => simp [totalWeight_append, totalWeight, ih, Nat.add_comm]

end Symbol

/-- A rule replaces symbols by a lighter one. -/
theorem Rule.weight_lhs_lt (r : Rule) :
    (Symbol.nonterminal r.lhs).weight < Symbol.totalWeight r.rhs := by
  cases r <;> decide

end DotLambda
