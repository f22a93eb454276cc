import DotLambda.Term
import DotLambda.Text.Peeled

/-!
The two texts of a term. The printed form is what `print` shows: operations and chains stand in
parentheses, of which doubled outer ones are dropped. The dumped form is what `dump` shows: it names the
kind of every part. Each needs the other: a literal shows a term that it holds in the printed form, and
the terms of a list that it holds in the dumped form. A list that holds itself has neither form, so both
are found to a given depth of nesting only.
-/

namespace DotLambda.Term

/-- A text between double quotes, as it is. -/
def inQuotes (s : String) : String := "\x22" ++ s ++ "\x22"

mutual

/-- The printed form, with terms nested at most to a depth. -/
def printed (store : Store) : (depth : Nat) → Term → Except Error String
  | 0, _ => throw .endless
  | depth + 1, t => do
    let held : Wording := ⟨fun cell => printed store depth (store.term cell),
      fun cell => dumped store depth (store.term cell)⟩
    let shown ←
      match t with
      | int value | bool value | datum value => value.plain held
      | string value => do
        let s ← value.plain held
        pure (inQuotes s)
      | name id => pure id
      | nameless id => throw (.noPart id.typeName "startswith")
      | function parameter body => do
        let x ← parameter.plain held
        let b ← printed store depth body
        pure ("\\ " ++ x ++ " => " ++ b)
      | operation lhs operator rhs => do
        let l ← printed store depth lhs
        let r ← printed store depth rhs
        match operator.sign with
        | .text symbol => pure ("( " ++ l ++ " " ++ symbol ++ " " ++ r ++ " )")
        | sign => throw (.notJoined 2 sign.typeName)
      | conditional condition yes no => do
        let c ← printed store depth condition
        let y ← printed store depth yes
        let n ← printed store depth no
        pure ("if " ++ c ++ " then " ++ y ++ " else " ++ n)
      | chain items => do
        let shown ← items.mapM (printed store depth)
        pure ("(" ++ " . ".intercalate shown ++ ")")
      | list cell => do
        let shown ← (store.items cell).mapM (printed store depth)
        pure ("[ " ++ ", ".intercalate shown ++ " ]")
      | wrapped _ => throw (.noPart t.typeName "expr")
      | itemless _ owner => throw (.notIterable owner)
      | unknown _ => throw (.unset "s")
    match t with
    | datum _ => pure shown
    | _ => pure (Text.Peeled.peel "((" "))" shown)

/-- The dumped form, with terms nested at most to a depth. -/
def dumped (store : Store) : (depth : Nat) → Term → Except Error String
  | 0, _ => throw .endless
  | depth + 1, t =>
    let held : Wording := ⟨fun cell => printed store depth (store.term cell),
      fun cell => dumped store depth (store.term cell)⟩
    match t with
    | int value => do
      let s ← value.plain held
      pure ("Value(int, " ++ s ++ ")")
    | bool value => do
      let s ← value.plain held
      pure ("Value(bool, " ++ s ++ ")")
    | string value => do
      let s ← value.plain held
      pure ("Value(string, " ++ inQuotes s ++ ")")
    | name id => pure ("Value(id, " ++ id ++ ")")
    | nameless id => do
      let s ← id.plain held
      pure ("Value(id, " ++ s ++ ")")
    | function parameter body => do
      let x ← parameter.plain held
      let b ← dumped store depth body
      pure ("Value(function, " ++ x ++ ", " ++ b ++ ")")
    | operation lhs operator rhs => do
      let l ← dumped store depth lhs
      let o ← operator.sign.plain held
      let r ← dumped store depth rhs
      pure ("Value(operation, " ++ l ++ ", " ++ o ++ ", " ++ r ++ ")")
    | conditional condition yes no => do
      let c ← dumped store depth condition
      let y ← dumped store depth yes
      let n ← dumped store depth no
      pure ("Value(conditional, " ++ c ++ ", " ++ y ++ ", " ++ n ++ ")")
    | chain items => do
      let shown ← items.mapM (dumped store depth)
      pure ("Value(expr_list, [" ++ ", ".intercalate shown ++ "])")
    | list cell => do
      let shown ← (store.items cell).mapM (dumped store depth)
      pure ("[ " ++ ", ".intercalate shown ++ " ]")
    | wrapped _ => throw (.noPart t.typeName "expr")
    | itemless _ owner => throw (.notIterable owner)
    | unknown _ => throw .noDescription
    | datum d => d.quoted held

end

/-- The texts of the terms in cells, with terms nested at most to a depth. -/
def wording (store : Store) (depth : Nat) : Wording :=
  ⟨fun cell => (store.term cell).printed store depth,
    fun cell => (store.term cell).dumped store depth⟩

end DotLambda.Term

namespace DotLambda.Component

/-- A component with its texts in quotes and its terms dumped. -/
def dumped (store : Store) (depth : Nat) : Component → Except Error String
  | datum d => d.quoted (Term.wording store depth)
  | term t => t.dumped store depth
  | terms items => do
    let shown ← items.mapM (Term.dumped store depth)
    pure ("[" ++ ", ".intercalate shown ++ "]")

/-- Named components with their texts in quotes and their terms dumped. -/
def dumpedBindings (store : Store) (depth : Nat) (components : Bindings Component) :
    Except Error String := do
  let shown ← components.mapM fun entry => do
    let c ← entry.2.dumped store depth
    pure (Text.Quoted.quote entry.1 ++ ": " ++ c)
  pure ("\x7b" ++ ", ".intercalate shown ++ "\x7d")

end DotLambda.Component
