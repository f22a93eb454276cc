import DotLambda.Eval

/-!
Simplification and replacement. To simplify a term is to look its names up, to compute its operations, to
decide its conditionals and to apply its functions. A function is applied to a number or a boolean by
replacing its parameter in its body. Replacement decides the conditionals it meets, which simplifies
them, so the two need each other; both go down to a given depth only.
-/

namespace DotLambda

namespace Simplify

/-- What names stand for. -/
abbrev Lookup : Type := Bindings Term

/-- The parameter and the body of the function that a term is or names. -/
def functionOf? (lookup : Lookup) : Term → Option (Datum × Term)
  | .function parameter body => some (parameter, body)
  | .name id =>
    match lookup.find? id with
    | some (.function parameter body) => some (parameter, body)
    | _ => none
  | _ => none

/-- Applies the first term of a chain to the next one, and what comes out to the one after that, as
long as a function meets an argument; where one does not, the next term takes its place. -/
def contract (lookup : Lookup) (apply : Datum → Term → Term → Eval Term) :
    Term → List Term → Eval (List Term)
  | first, [] => pure [first]
  | first, next :: rest =>
    match functionOf? lookup first, next.isArgument with
    | some (parameter, body), true => do
      let result ← apply parameter next body
      contract lookup apply result rest
    | _, _ => do
      let others ← contract lookup apply next rest
      pure (first :: others)

/-- Applies the functions of a chain. -/
def contractAll (lookup : Lookup) (apply : Datum → Term → Term → Eval Term) :
    List Term → Eval (List Term)
  | [] => pure []
  | first :: rest => contract lookup apply first rest

/-- A name that is bound is simplified once more. -/
def resolve (lookup : Lookup) (simplify : Term → Eval Term) : Term → Eval Term
  | .name id =>
    match lookup.find? id with
    | some t => simplify t
    | none => pure (.name id)
  | t => pure t

/-- The literal for what an operator computes on numbers or booleans. -/
def literal (op : Operator) (result : Datum) : Term :=
  if op.isArithmetic then .int result else .bool result

/-- The literal for what an operator computes on strings. -/
def stringLiteral (op : Operator) (result : Datum) : Term :=
  match op with
  | .add => .string result
  | op => literal op result

/-- The literal that an operation on two literals of one kind gives. -/
def compute (s : Settings) (op : Operator) (lhs rhs : Term) : Eval Term := do
  match lhs, rhs with
  | .int l, .int r | .bool l, .bool r => do
    let result ← Eval.apply s op l r
    Eval.make s (literal op result)
  | .string l, .string r => do
    let result ← Eval.apply s op l r
    Eval.make s (stringLiteral op result)
  | l, r => do
    let symbol ← Eval.plain s op.sign
    throw (.incompatibleKinds symbol l.kind r.kind)

/-- Simplifies a term, given how to simplify and to replace in the terms it leads to. -/
def simplified (s : Settings) (lookup : Lookup) (simplify : Term → Eval Term)
    (replace : Datum → Term → Term → Eval Term) : Term → Eval Term
  | .int value => Eval.make s (.int value)
  | .bool value => Eval.make s (.bool value)
  | .string value => Eval.make s (.string value)
  | .name id =>
    if id = "true" then Eval.make s (.bool (.bool true))
    else if id = "false" then Eval.make s (.bool (.bool false))
    else
      match lookup.find? id with
      | some t => simplify t
      | none => Eval.make s (.name id)
  | .nameless id =>
    match id with
    | .list _ => throw (.unhashable id.typeName)
    | _ => Eval.make s (.nameless id)
  | .function parameter body => do
    let x ← Eval.plain s parameter
    let b ← simplify body
    Eval.make s (.function (.text x) b)
  | .operation lhs op rhs => do
    let l ← simplify lhs
    let r ← simplify rhs
    let l ← resolve lookup simplify l
    let r ← resolve lookup simplify r
    compute s op l r
  | .conditional condition yes no => do
    let c ← simplify condition
    match c with
    | .bool value => if value.truth then simplify yes else simplify no
    | c => Eval.make s (.conditional c yes no)
  | .chain items => do
    let items ← items.mapM simplify
    let items ← contractAll lookup replace items
    match items with
    | [t] => simplify t
    | items => Eval.make s (.chain items)
  | .list cell => do
    let w ← get
    let items ← (w.store.items cell).mapM simplify
    Eval.makeList s items
  | .wrapped inner => do
    let t ← simplify inner
    Eval.announce s "expr" [("expr", .term t)]
    throw (.noComponent "expression")
  | .itemless _ owner => throw (.notIterable owner)
  | .unknown _ => do
    Eval.emit (.line "ERROR:  fall through in simplify")
    throw (.unset "v")
  | .datum d => throw (.noPart d.typeName "simplify")

/-- Replaces a name by a term, given how to simplify and to replace in the terms it leads to. -/
def replaced (s : Settings) (simplify : Term → Eval Term) (x : Datum) (value : Term)
    (replace : Term → Eval Term) : Term → Eval Term
  | .int v => Eval.make s (.int v)
  | .bool v => Eval.make s (.bool v)
  | .name id =>
    match x with
    | .text name => if id = name then Eval.copy value else Eval.make s (.name id)
    | _ => Eval.make s (.name id)
  | .nameless id => if id.equal x then Eval.copy value else Eval.make s (.nameless id)
  | .function parameter body => do
    let y ← Eval.plain s parameter
    let b ← replace body
    Eval.make s (.function (.text y) b)
  | .operation lhs op rhs => do
    let l ← replace lhs
    let r ← replace rhs
    Eval.make s (.operation l op r)
  | .conditional condition yes no => do
    let c ← replace condition
    let c ← simplify c
    match c with
    | .bool v => do
      let chosen ← replace (if v.truth then yes else no)
      simplify chosen
    | c => do
      let y ← replace yes
      let n ← replace no
      Eval.make s (.conditional c y n)
  | .chain items => do
    let items ← items.mapM replace
    Eval.make s (.chain items)
  | .list cell => do
    let w ← get
    let items ← (w.store.items cell).mapM replace
    Eval.makeList s items
  | .wrapped inner => throw (.noPart (Term.wrapped inner).typeName "expr")
  | .itemless _ owner => throw (.notIterable owner)
  | t => do
    Eval.emit (.line "ERROR:  fall through in replace")
    if s.tracing then
      let _ ← Eval.examine fun store => t.printed store s.depth
    throw (.unset "v")

/-- Why nothing can be replaced in a datum where a term should stand. In a text only texts could be. -/
def replacementFailure (x : Datum) (value : Term) : Datum → Error
  | .text _ =>
    match x, value with
    | .text _, .datum (.text _) => .notAnInteger "dict"
    | .text _, value => .notAText "replace" 2 value.typeName
    | x, _ => .notAText "replace" 1 x.typeName
  | d => .noPart d.typeName "replace"

/-- Traces a replacement that changes how a term prints. -/
def traceReplacement (s : Settings) (x : Datum) (value before after : Term) : Eval Unit :=
  if s.tracing then do
    let changed ← Eval.examine fun store => do
      let b ← before.printed store s.depth
      let a ← after.printed store s.depth
      pure (b != a)
    if changed then
      Eval.trace s .cyan fun store => do
        let name ← x.plain (Term.wording store s.depth)
        let b ← before.dumped store s.depth
        let v ← value.dumped store s.depth
        let a ← after.dumped store s.depth
        pure ("Replace " ++ name ++ " in " ++ b ++ " with " ++ v ++ " to get " ++ a)
  else pure ()

end Simplify

open Simplify in
mutual

/-- Simplifies a term, going down at most to a depth. -/
def simplify (s : Settings) (lookup : Lookup) : (depth : Nat) → Term → Eval Term
  | 0, _ => throw .endless
  | _ + 1, .datum d => throw (.noPart d.typeName "simplify")
  | depth + 1, t => do
    Eval.trace s .yellow fun store => do
      let shown ← t.dumped store s.depth
      pure ("Simplifying " ++ shown)
    let result ← simplified s lookup (simplify s lookup depth) (replace s lookup depth) t
    Eval.trace s .yellow fun store => do
      let before ← t.dumped store s.depth
      let after ← result.dumped store s.depth
      pure ("Simplified " ++ before ++ " to " ++ after)
    pure result

/-- Replaces a name by a term in another term, going down at most to a depth. -/
def replace (s : Settings) (lookup : Lookup) :
    (depth : Nat) → (x : Datum) → (value : Term) → Term → Eval Term
  | 0, _, _, _ => throw .endless
  | _ + 1, x, value, .datum d => throw (replacementFailure x value d)
  | depth + 1, x, value, t => do
    let result ←
      replaced s (simplify s lookup depth) x value (replace s lookup depth x value) t
    traceReplacement s x value t result
    pure result

end

end DotLambda
