import DotLambda.Parse
import DotLambda.Sorting

/-!
What phrases mean. A phrase is evaluated as soon as its rule is used: an expression becomes a term, in
which known variables stand for their terms and operations on numbers are computed at once, and a
statement has its effect.
-/

namespace DotLambda

/-- What a symbol means. -/
inductive Meaning where
  | token (t : Token)
  | term (t : Term)
  /-- A statement that has been carried out, with the list it changed, if it changed one. -/
  | done (result : Option Term)

namespace Meaning

/-- A line about a rule, which is written to the trace. -/
def traceRule (s : Settings) (rule : String) (shown : Store → Except Error String) : Eval Unit :=
  Eval.trace s .green fun store => do
    let text ← shown store
    pure (rule ++ " (" ++ text ++ ")")

/-- The rule's line about a term in its dumped form. -/
def traceDumped (s : Settings) (rule : String) (t : Term) : Eval Unit :=
  traceRule s rule fun store => t.dumped store s.depth

/-- The rule's line about a term in its printed form. -/
def tracePrinted (s : Settings) (rule : String) (t : Term) : Eval Unit :=
  traceRule s rule fun store => t.printed store s.depth

/-- A term simplified with the variables as they are. -/
def simplifyNow (s : Settings) (t : Term) : Eval Term := do
  let w ← get
  simplify s w.bindings s.depth t

/-! ## Expressions -/

/-- An operation between a term and another, which is computed at once if both are numbers. -/
def arithmetic (s : Settings) (lhs : Term) (op : Operator) (rhs : Term) : Eval Term :=
  match lhs, rhs with
  | .int l, .int r => do
    let result ← Eval.apply s op l r
    Eval.make s (.int result)
  | _, _ => Eval.make s (.operation lhs op rhs)

/-- A comparison in order, which is computed at once if both sides are numbers. -/
def comparison (s : Settings) (lhs : Term) (op : Operator) (rhs : Term) : Eval Term :=
  match lhs, rhs with
  | .int l, .int r => do
    let result ← Eval.apply s op l r
    Eval.make s (.bool result)
  | _, _ => Eval.make s (.operation lhs op rhs)

/-- An equation, which is decided at once between two numbers or two booleans. -/
def equality (s : Settings) (lhs : Term) (op : Operator) (rhs : Term) : Eval Term :=
  match lhs, rhs with
  | .int l, .int r | .bool l, .bool r => do
    let result ← Eval.apply s op l r
    Eval.make s (.bool result)
  | _, _ => Eval.make s (.operation lhs op rhs)

/-- A conditional, which is decided at once if its condition is a boolean. -/
def conditional (s : Settings) (condition yes no : Term) : Eval Term :=
  match condition with
  | .bool value => pure (if value.truth then yes else no)
  | _ => Eval.make s (.conditional condition yes no)

/-- An expression before a chain, simplified together with it. -/
def chain (s : Settings) (first rest : Term) : Eval Term := do
  let t ← Eval.make s (.chain
    (match rest with
    | .chain items => first :: items
    | _ => [first, rest]))
  simplifyNow s t

/-- What a name stands for: a known variable for its term, an unknown one for itself. -/
def name (s : Settings) (id : String) : Eval Term := do
  let w ← get
  match w.bindings.find? id with
  | some t => do
    traceRule s "Rule: id -> factor" fun store => do
      let shown ← t.printed store s.depth
      pure (id ++ ", " ++ shown)
    pure t
  | none => do
    traceRule s "Rule: id -> factor" fun _ => pure id
    Eval.make s (.name id)

/-- The value that a term comes to. -/
def valueOf (s : Settings) (t : Term) : Eval Datum := do
  let t ← simplifyNow s t
  Eval.ofExcept t.value

/-- Both of two values: the first that does not count as true, else the second. -/
def conjunction (s : Settings) (lhs rhs : Term) : Eval Term := do
  let l ← valueOf s lhs
  let value ← if l.truth then valueOf s rhs else pure l
  Eval.make s (.bool value)

/-- One of two values: the first that counts as true, else the second. -/
def disjunction (s : Settings) (lhs rhs : Term) : Eval Term := do
  let l ← valueOf s lhs
  let value ← if l.truth then pure l else valueOf s rhs
  Eval.make s (.bool value)

/-- Whether a value does not count as true. -/
def negation (s : Settings) (t : Term) : Eval Term := do
  let value ← valueOf s t
  Eval.make s (.bool (.bool !value.truth))

/-- A sign: a minus stands for a difference from zero, a plus for nothing. -/
def sign (s : Settings) (symbol : String) (t : Term) : Eval Term := do
  if symbol = "-" then
    let nought ← Eval.make s (.int (.int 0))
    Eval.make s (.operation nought .sub t)
  else pure t

/-! ## Lists -/

/-- The failure of a list function on a term that is no list. -/
def notAList {α : Type} (s : Settings) (function : String) (t : Term) : Eval α := do
  let shown ← Eval.examine fun store => t.printed store s.depth
  throw (.notAList function shown)

/-- The items of the list that a term comes to. -/
def itemsOf (s : Settings) (function : String) (t : Term) : Eval (List Term) := do
  let t ← simplifyNow s t
  match t with
  | .list cell => Eval.examine fun store => pure (store.items cell)
  | t => notAList s function t

/-- The first item of a list. -/
def head (s : Settings) (t : Term) : Eval Term := do
  let items ← itemsOf s "head" t
  match items with
  | [] => throw .emptyHead
  | first :: _ => pure first

/-- A new list with all items but the first. -/
def tail (s : Settings) (t : Term) : Eval Term := do
  let items ← itemsOf s "tail" t
  Eval.makeList s (items.drop 1)

/-- A new list with the items in order. -/
def sort (s : Settings) (t : Term) : Eval Term := do
  let items ← itemsOf s "sort" t
  let w ← get
  let items ← Sorting.sort s w.bindings id items
  Eval.makeList s items

/-- The length of a list or a string. -/
def length (s : Settings) (t : Term) : Eval Term := do
  let t ← simplifyNow s t
  match t with
  | .list cell => do
    let items ← Eval.examine fun store => pure (store.items cell)
    Eval.make s (.int (.int items.length))
  | .string value => do
    let n ← Eval.ofExcept value.length
    Eval.make s (.int (.int n))
  | t => notAList s "length" t

/-- A list with one more item at its front. -/
def item (s : Settings) (first rest : Term) : Eval Term := do
  let items ←
    match rest with
    | .list cell => Eval.examine fun store => pure (store.items cell)
    | _ => pure []
  let t ← Eval.makeList s (first :: items)
  traceDumped s "Rule: expr COMMA comma_sep_list -> comma_sep_list" t
  pure t

/-! ## Statements -/

/-- Binds a variable, and says so even when not tracing. -/
def assign (s : Settings) (id : String) (t : Term) : Eval Unit := do
  let shown ← Eval.examine fun store => t.dumped store s.depth
  Eval.emit (.colored .green
    ("Rule: statement => ID ASSIGN expr_list (" ++ id ++ ", " ++ shown ++ ")"))
  modify fun w => { w with bindings := w.bindings.insert id t }

/-- Prints what a term comes to, without its outer parentheses. -/
def print (s : Settings) (t : Term) : Eval Unit := do
  let result ← simplifyNow s t
  let shown ← Eval.examine fun store => result.printed store s.depth
  Eval.emit (.line (Text.Peeled.peel "(" ")" shown))

/-- Shows all variables. -/
def dump (s : Settings) : Eval Unit := do
  let w ← get
  w.bindings.forM fun entry => do
    let shown ← Eval.examine fun store => entry.2.dumped store s.depth
    Eval.emit (.line (entry.1 ++ ": " ++ shown))

/-- Puts a term at the end of the list that a variable stands for. -/
def append (id : String) (t : Term) : Eval Term := do
  let w ← get
  match w.bindings.find? id with
  | some (.list cell) => do
    set { w with store := w.store.append cell t }
    pure (.list cell)
  | some _ => throw (.appendToNonList id)
  | none => throw (.undefinedVariable id)

/-! ## Rules -/

/-- What the phrase of a rule means, given what its symbols mean. The last case cannot arise: the
symbols are those of the rule. -/
def ofRule (s : Settings) : Rule → List Meaning → Eval Meaning
  | .assign, [.token id, _, .term t] => do
    assign s id.text t
    pure (.done none)
  | .print, [_, .term t] => do
    print s t
    pure (.done none)
  | .dump, [_] => do
    dump s
    pure (.done none)
  | .append, [_, _, .token id, _, .term t] => do
    let target ← append id.text t
    pure (.done (some target))
  | .lastInChain, [.term t] => do
    tracePrinted s "Rule: expr_list -> expr" t
    pure (.term t)
  | .chain, [.term first, _, .term rest] => do
    let t ← chain s first rest
    traceDumped s "Rule: expr_list -> expr SEP expr_list" t
    pure (.term t)
  | .function, [_, .token id, _, .term body] => do
    let t ← Eval.make s (.function (.text id.text) body)
    traceDumped s "Rule: expr -> LAMBDA ID ARROW expr_list" t
    pure (.term t)
  | .sum, [.term lhs, .token op, .term rhs] => do
    let t ← arithmetic s lhs (.ofSymbol op.text) rhs
    traceDumped s "Rule: expr -> expr ADD_OP term" t
    pure (.term t)
  | .termExpr, [.term t] => do
    tracePrinted s "Rule: expr -> term" t
    pure (.term t)
  | .conditional, [_, .term condition, _, .term yes, _, .term no, _] => do
    let t ← conditional s condition yes no
    traceDumped s "Rule: expr -> IF expr THEN expr ELSE expr ENDIF" t
    pure (.term t)
  | .equality, [.term lhs, .token op, .term rhs] => do
    let t ← equality s lhs (.ofSymbol op.text) rhs
    traceDumped s "Rule: expr -> term EQUAL_OP term" t
    pure (.term t)
  | .comparison, [.term lhs, .token op, .term rhs] => do
    let t ← comparison s lhs (.ofSymbol op.text) rhs
    traceDumped s "Rule: expr -> term COMPARE_OP term" t
    pure (.term t)
  | .product, [.term lhs, .token op, .term rhs] => do
    let t ← arithmetic s lhs (.ofSymbol op.text) rhs
    traceDumped s "expr -> term MULT_OP term" t
    pure (.term t)
  | .factorTerm, [.term t] => do
    traceDumped s "Rule: term -> factor" t
    pure (.term t)
  | .number, [.token t] => do
    traceRule s "Rule: factor -> NUMBER" fun _ => t.content.plain
    let t ← Eval.make s (.int t.datum)
    pure (.term t)
  | .string, [.token t] => do
    let t ← Eval.make s (.string t.datum)
    pure (.term t)
  | .name, [.token id] => do
    let t ← name s id.text
    pure (.term t)
  | .parenthesized, [_, .term t, _] => do
    tracePrinted s "Rule: LPAREN expr_list RPAREN" t
    pure (.term t)
  | .listExpr, [.term t] => do
    traceDumped s "Rule: list -> expr" t
    pure (.term t)
  | .emptyList, [_, _] => do
    traceRule s "Rule: LBRACKET RBRACKET -> list" fun _ => pure "[]"
    let t ← Eval.makeList s []
    pure (.term t)
  | .listOf, [_, .term t, _] => do
    traceDumped s "Rule: LBRACKET comma_sep_list RBRACKET -> list" t
    pure (.term t)
  | .lastItem, [.term t] => do
    traceRule s "Rule: expr -> comma_sep_list" fun store => do
      let shown ← t.dumped store s.depth
      pure ("[" ++ shown ++ "]")
    let t ← Eval.makeList s [t]
    pure (.term t)
  | .item, [.term first, _, .term rest] => do
    let t ← item s first rest
    pure (.term t)
  | .head, [_, _, .term t] => do
    let t ← head s t
    pure (.term t)
  | .tail, [_, _, .term t] => do
    let t ← tail s t
    pure (.term t)
  | .sort, [_, _, .term t] => do
    let t ← sort s t
    pure (.term t)
  | .length, [_, _, .term t] => do
    let t ← length s t
    pure (.term t)
  | .sign, [.token op, .term t] => do
    let t ← sign s op.text t
    pure (.term t)
  | .conjunction, [.term lhs, _, .term rhs] => do
    let t ← conjunction s lhs rhs
    pure (.term t)
  | .disjunction, [.term lhs, _, .term rhs] => do
    let t ← disjunction s lhs rhs
    pure (.term t)
  | .negation, [_, .term t] => do
    let t ← negation s t
    pure (.term t)
  | _, _ => pure (.done none)

/-- The report of a syntax error, at a token or at the end of the input. -/
def syntaxReport : Option Token → String
  | some t => "sly: Syntax error at line " ++ Nat.repr t.line ++ ", token=" ++ t.kind.name
  | none => "sly: Parse error in input. EOF"

/-- Parsing that evaluates what it reads. -/
def reading (s : Settings) : Parse.Reading Eval Meaning where
  leaf := .token
  reduce := ofRule s
  stray character line := Eval.emit (.line (Item.strayReport character line))
  overlong digits := throw (.numeralTooLong digits)
  report t := Eval.emit (.complaint (syntaxReport t))

end Meaning

end DotLambda
