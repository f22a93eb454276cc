import DotLambda.Grammar

/-!
The automaton that reads statements. In each state a row says which tokens it reads on and which rule
it uses before which tokens; the end of the input counts as a token that is `none`. Where the grammar
would allow both to read on and to use a rule, the automaton reads on.
-/

namespace DotLambda

/-- What the automaton does next. -/
inductive Action where
  /-- Read the token and go to a state. -/
  | shift (state : Nat)
  /-- Replace the symbols of a rule by its phrase. -/
  | reduce (rule : Rule)
  | accept
deriving DecidableEq

/-- What the automaton does in one state. -/
structure Row where
  /-- The tokens it reads on, each with the state it goes to. -/
  shifts : List (Kind × Nat)
  /-- The rule it uses, and before which tokens. -/
  reduction : Option (Rule × List (Option Kind))
  /-- The phrases it goes on from, each with the state it goes to. -/
  gotos : List (Nonterminal × Nat)

namespace Automaton

/-- What can follow a factor. -/
def afterFactor : List (Option Kind) :=
  [none, some .addOp, some .multOp, some .rightParen, some .dot, some .equalOp, some .compareOp,
    some .thenWord, some .elseWord, some .endifWord, some .rightBracket, some .comma, some .andWord,
    some .orWord]

/-- What ends a term that is an operand. -/
def afterTerm : List (Option Kind) :=
  [none, some .addOp, some .rightParen, some .dot, some .equalOp, some .compareOp, some .thenWord,
    some .elseWord, some .endifWord, some .rightBracket, some .comma, some .andWord, some .orWord]

/-- What ends a term that is a whole expression. -/
def afterLoneTerm : List (Option Kind) :=
  [none, some .addOp, some .rightParen, some .dot, some .thenWord, some .elseWord, some .endifWord,
    some .rightBracket, some .comma, some .andWord, some .orWord]

/-- What ends an expression that cannot be continued. -/
def afterExpr : List (Option Kind) :=
  [none, some .multOp, some .rightParen, some .dot, some .equalOp, some .compareOp, some .thenWord,
    some .elseWord, some .endifWord, some .rightBracket, some .comma]

/-- What ends the last expression of a chain. -/
def afterLastExpr : List (Option Kind) :=
  [none, some .multOp, some .rightParen, some .equalOp, some .compareOp, some .thenWord,
    some .elseWord, some .endifWord, some .rightBracket, some .comma]

/-- The tokens that begin a factor. -/
def factorStart : List (Kind × Nat) :=
  [(.addOp, 14), (.headWord, 22), (.identifier, 16), (.lengthWord, 19), (.leftParen, 23),
    (.number, 25), (.sortWord, 20), (.string, 24), (.tailWord, 21)]

/-- The tokens that begin an expression. -/
def exprStart : List (Kind × Nat) :=
  [(.addOp, 14), (.headWord, 22), (.identifier, 16), (.ifWord, 13), (.lambda, 15),
    (.leftBracket, 17), (.lengthWord, 19), (.leftParen, 23), (.notWord, 10), (.number, 25),
    (.sortWord, 20), (.string, 24), (.tailWord, 21)]

/-- The tokens that continue an expression. -/
def connectives : List (Kind × Nat) := [(.addOp, 31), (.andWord, 30), (.orWord, 29)]

/-- The phrases that an expression can be formed from. -/
def exprParts : List (Nonterminal × Nat) := [(.term, 12), (.factor, 18), (.list, 11)]

/-- The rows of the automaton, by state. -/
def rows : Array Row := #[
  /- 0 -/ ⟨[(.appendWord, 2), (.dumpWord, 4), (.identifier, 3), (.printWord, 5)], none,
    [(.statement, 1)]⟩,
  /- 1 -/ ⟨[], none, []⟩,
  /- 2 -/ ⟨[(.dot, 6)], none, []⟩,
  /- 3 -/ ⟨[(.assign, 7)], none, []⟩,
  /- 4 -/ ⟨[], some (.dump, [none]), []⟩,
  /- 5 -/ ⟨exprStart, none, (.exprList, 8) :: (.expr, 9) :: exprParts⟩,
  /- 6 -/ ⟨[(.identifier, 26)], none, []⟩,
  /- 7 -/ ⟨exprStart, none, (.exprList, 27) :: (.expr, 9) :: exprParts⟩,
  /- 8 -/ ⟨[], some (.print, [none]), []⟩,
  /- 9 -/ ⟨(.dot, 28) :: connectives, some (.lastInChain, afterLastExpr), []⟩,
  /- 10 -/ ⟨exprStart, none, (.expr, 32) :: exprParts⟩,
  /- 11 -/ ⟨[], some (.listExpr, afterFactor), []⟩,
  /- 12 -/ ⟨[(.compareOp, 33), (.equalOp, 34), (.multOp, 35)], some (.termExpr, afterLoneTerm), []⟩,
  /- 13 -/ ⟨exprStart, none, (.expr, 36) :: exprParts⟩,
  /- 14 -/ ⟨factorStart, none, [(.factor, 37)]⟩,
  /- 15 -/ ⟨[(.identifier, 38)], none, []⟩,
  /- 16 -/ ⟨[], some (.name, afterFactor), []⟩,
  /- 17 -/ ⟨(.rightBracket, 40) :: exprStart, none, (.expr, 41) :: (.items, 39) :: exprParts⟩,
  /- 18 -/ ⟨[], some (.factorTerm, afterFactor), []⟩,
  /- 19 -/ ⟨[(.dot, 42)], none, []⟩,
  /- 20 -/ ⟨[(.dot, 43)], none, []⟩,
  /- 21 -/ ⟨[(.dot, 44)], none, []⟩,
  /- 22 -/ ⟨[(.dot, 45)], none, []⟩,
  /- 23 -/ ⟨exprStart, none, (.exprList, 46) :: (.expr, 9) :: exprParts⟩,
  /- 24 -/ ⟨[], some (.string, afterFactor), []⟩,
  /- 25 -/ ⟨[], some (.number, afterFactor), []⟩,
  /- 26 -/ ⟨[(.dot, 47)], none, []⟩,
  /- 27 -/ ⟨[], some (.assign, [none]), []⟩,
  /- 28 -/ ⟨exprStart, none, (.exprList, 48) :: (.expr, 9) :: exprParts⟩,
  /- 29 -/ ⟨exprStart, none, (.expr, 49) :: exprParts⟩,
  /- 30 -/ ⟨exprStart, none, (.expr, 50) :: exprParts⟩,
  /- 31 -/ ⟨factorStart, none, [(.term, 51), (.factor, 18)]⟩,
  /- 32 -/ ⟨connectives, some (.negation, afterExpr), []⟩,
  /- 33 -/ ⟨factorStart, none, [(.term, 52), (.factor, 18)]⟩,
  /- 34 -/ ⟨factorStart, none, [(.term, 53), (.factor, 18)]⟩,
  /- 35 -/ ⟨factorStart, none, [(.factor, 54)]⟩,
  /- 36 -/ ⟨(.thenWord, 55) :: connectives, none, []⟩,
  /- 37 -/ ⟨[], some (.sign, afterFactor), []⟩,
  /- 38 -/ ⟨[(.arrow, 56)], none, []⟩,
  /- 39 -/ ⟨[(.rightBracket, 57)], none, []⟩,
  /- 40 -/ ⟨[], some (.emptyList, afterFactor), []⟩,
  /- 41 -/ ⟨(.comma, 58) :: connectives, some (.lastItem, [some .rightBracket]), []⟩,
  /- 42 -/ ⟨exprStart, none, (.expr, 59) :: exprParts⟩,
  /- 43 -/ ⟨exprStart, none, (.expr, 60) :: exprParts⟩,
  /- 44 -/ ⟨exprStart, none, (.expr, 61) :: exprParts⟩,
  /- 45 -/ ⟨exprStart, none, (.expr, 62) :: exprParts⟩,
  /- 46 -/ ⟨[(.rightParen, 63)], none, []⟩,
  /- 47 -/ ⟨exprStart, none, (.expr, 64) :: exprParts⟩,
  /- 48 -/ ⟨[], some (.chain, afterFactor), []⟩,
  /- 49 -/ ⟨connectives, some (.disjunction, afterExpr), []⟩,
  /- 50 -/ ⟨connectives, some (.conjunction, afterExpr), []⟩,
  /- 51 -/ ⟨[(.multOp, 35)], some (.sum, afterTerm), []⟩,
  /- 52 -/ ⟨[(.multOp, 35)], some (.comparison, afterTerm), []⟩,
  /- 53 -/ ⟨[(.multOp, 35)], some (.equality, afterTerm), []⟩,
  /- 54 -/ ⟨[], some (.product, afterFactor), []⟩,
  /- 55 -/ ⟨exprStart, none, (.expr, 65) :: exprParts⟩,
  /- 56 -/ ⟨exprStart, none, (.exprList, 66) :: (.expr, 9) :: exprParts⟩,
  /- 57 -/ ⟨[], some (.listOf, afterFactor), []⟩,
  /- 58 -/ ⟨exprStart, none, (.expr, 41) :: (.items, 67) :: exprParts⟩,
  /- 59 -/ ⟨connectives, some (.length, afterExpr), []⟩,
  /- 60 -/ ⟨connectives, some (.sort, afterExpr), []⟩,
  /- 61 -/ ⟨connectives, some (.tail, afterExpr), []⟩,
  /- 62 -/ ⟨connectives, some (.head, afterExpr), []⟩,
  /- 63 -/ ⟨[], some (.parenthesized, afterFactor), []⟩,
  /- 64 -/ ⟨connectives, some (.append, [none]), []⟩,
  /- 65 -/ ⟨(.elseWord, 68) :: connectives, none, []⟩,
  /- 66 -/ ⟨[], some (.function, afterFactor), []⟩,
  /- 67 -/ ⟨[], some (.item, [some .rightBracket]), []⟩,
  /- 68 -/ ⟨exprStart, none, (.expr, 69) :: exprParts⟩,
  /- 69 -/ ⟨(.endifWord, 70) :: connectives, none, []⟩,
  /- 70 -/ ⟨[], some (.conditional, afterFactor), []⟩]

/-- The state in which a whole statement has been read. -/
def accepting : Nat := 1

/-- The row of a state. -/
def row (state : Nat) : Row := (rows[state]?).getD ⟨[], none, []⟩

/-- What the automaton does in a state before a token, or at the end of the input. -/
def action? (state : Nat) (next : Option Kind) : Option Action :=
  if state = accepting ∧ next = none then some .accept
  else
    match next.bind fun kind => (row state).shifts.lookup kind with
    | some target => some (.shift target)
    | none =>
      match (row state).reduction with
      | some (rule, followers) => if next ∈ followers then some (.reduce rule) else none
      | none => none

/-- The rule of a state that can do nothing but use it before one token. Such a state uses its rule
without looking at the next token. -/
def default? (state : Nat) : Option Rule :=
  match row state with
  | ⟨[], some (rule, [_]), _⟩ => some rule
  | _ => none

/-- The state after a phrase. -/
def goto? (state : Nat) (phrase : Nonterminal) : Option Nat := (row state).gotos.lookup phrase

end Automaton

end DotLambda
