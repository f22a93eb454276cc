import DotLambda.Output
import DotLambda.Term.Form
import DotLambda.Term.Reference

/-!
Evaluations: what they read and change, and how terms are made in them. An evaluation that fails keeps
what it has written and changed before. Making a term is written to the trace.
-/

namespace DotLambda

/-- How to evaluate. -/
structure Settings where
  /-- Whether every step is written to the trace. -/
  tracing : Bool
  /-- How deeply evaluations and texts may nest. -/
  depth : Nat

/-- What evaluations change: the variables, the lists, and what has been written. -/
structure World where
  bindings : Bindings Term
  store : Store
  output : Array Event

/-- An evaluation. -/
abbrev Eval : Type → Type := EStateM Error World

namespace Eval

/-- Writes an event. -/
def emit (e : Event) : Eval Unit := modify fun w => { w with output := w.output.push e }

/-- The result of a computation, or its failure. -/
def ofExcept {α : Type} : Except Error α → Eval α
  | .ok a => pure a
  | .error e => throw e

/-- A result or a failure, without failing. -/
def attempt {α : Type} (x : Eval α) : Eval (Except Error α) := fun w =>
  match x w with
  | .ok a w => .ok (.ok a) w
  | .error e w => .ok (.error e) w

theorem bind_of_ok {α β : Type} {x : Eval α} {f : α → Eval β} {w after : World} {a : α}
    (ended : x w = .ok a after) : (x >>= f) w = f a after := by
  simp only [bind, EStateM.bind, ended]

theorem bind_of_error {α β : Type} {x : Eval α} {f : α → Eval β} {w after : World} {e : Error}
    (ended : x w = .error e after) : (x >>= f) w = .error e after := by
  simp only [bind, EStateM.bind, ended]

/-- The result of a computation that looks at the lists. -/
def examine {α : Type} (f : Store → Except Error α) : Eval α := do
  let w ← get
  ofExcept (f w.store)

theorem examine_of_ok {α : Type} {f : Store → Except Error α} {w : World} {a : α} (found : f w.store = .ok a) :
    examine f w = .ok a w := by
  change ofExcept (f w.store) w = _
  rw [found]
  rfl

theorem examine_of_error {α : Type} {f : Store → Except Error α} {w : World} {e : Error}
    (failed : f w.store = .error e) : examine f w = .error e w := by
  change ofExcept (f w.store) w = _
  rw [failed]
  rfl

/-- Writes a line to the trace. Its text is made only when tracing, and may fail. -/
def trace (s : Settings) (color : Color) (text : Store → Except Error String) : Eval Unit :=
  if s.tracing then do
    let line ← examine text
    emit (.trace color line)
  else pure ()

/-- A datum shown plainly. -/
def plain (s : Settings) (d : Datum) : Eval String :=
  examine fun store => d.plain (Term.wording store s.depth)

/-- What an operator computes. -/
def apply (s : Settings) (op : Operator) (lhs rhs : Datum) : Eval Datum :=
  examine fun store => op.apply (Term.wording store s.depth) lhs rhs

/-- Puts a list into a new cell. -/
def newList (items : List Term) : Eval Term := do
  let w ← get
  set { w with store := w.store.allocate items }
  pure (.list w.store.size)

/-- A copy of a term. -/
def copy (t : Term) : Eval Term := do
  let w ← get
  let copied := w.store.copy t
  set { w with store := copied.2 }
  pure copied.1

/-- A datum that gives a term: the datum that stands in its place, else one that refers to it, for which
it is put into a new cell. -/
def keep : Term → Eval Datum
  | .datum d => pure d
  | t => do
    let w ← get
    set { w with store := w.store.keep [t] }
    pure (.term w.store.terms.size)

/-! ## Making terms -/

/-- Traces from what a term is about to be made. -/
def announce (s : Settings) (kind : String) (components : Bindings Component) : Eval Unit :=
  trace s .magenta fun store => do
    let shown ← Component.dumpedBindings store s.depth components
    pure ("Value construction " ++ kind ++ " " ++ shown)

/-- Traces a term that has been made. -/
def announceResult (s : Settings) (t : Term) : Eval Unit :=
  trace s .magenta fun store => do
    let shown ← t.dumped store s.depth
    pure ("Constructor result " ++ shown)

/-- Makes a term that is no list. -/
def make (s : Settings) (t : Term) : Eval Term := do
  announce s t.kind t.components
  announceResult s t
  pure t

/-- Makes a list. -/
def makeList (s : Settings) (items : List Term) : Eval Term := do
  announce s "list" [("elements", .terms items)]
  let t ← newList items
  announceResult s t
  pure t

/-- A component by its key. -/
def component (components : Bindings Datum) (key : String) : Except Error Datum :=
  match components.find? key with
  | some d => pure d
  | none => throw (.noComponent key)

/-- The term that components give, if they give one of a kind that is no list. -/
def ofComponents (store : Store) (kind : String) (components : Bindings Datum) :
    Option (Except Error Term) :=
  let datum := component components
  let term key := store.termOf <$> component components key
  match kind with
  | "int" => some do
    let value ← datum "value"
    pure (.int value)
  | "bool" => some do
    let value ← datum "value"
    pure (.bool value)
  | "string" => some do
    let value ← datum "value"
    pure (.string value)
  | "expr" => some do
    let inner ← term "expression"
    pure (.wrapped inner)
  | "expr_list" => some do
    let items ← datum "expressions"
    match items.items? with
    | some items => pure (.chain (items.map store.termOf))
    | none => pure (.itemless kind items.typeName)
  | "function" => some do
    let parameter ← datum "variable"
    let body ← term "result"
    pure (.function parameter body)
  | "operation" => some do
    let lhs ← term "lhs"
    let sign ← datum "operation"
    let rhs ← term "rhs"
    pure (.operation lhs (.ofSign sign) rhs)
  | "id" => some do
    let id ← datum "id"
    match id with
    | .text id => pure (.name id)
    | id => pure (.nameless id)
  | "conditional" => some do
    let condition ← term "condition"
    let yes ← term "then_clause"
    let no ← term "else_clause"
    pure (.conditional condition yes no)
  | _ => none

/-- The list that components give. -/
def listOfComponents (components : Bindings Datum) : Eval Term := do
  let w ← get
  let items ← ofExcept (component components "elements")
  match items.items? with
  | some items => newList (items.map w.store.termOf)
  | none => pure (.itemless "list" items.typeName)

/-- Complains about a kind that is not known. -/
def unknown (s : Settings) (kind : String) (components : Bindings Component) : Eval Term := do
  let shown ← examine fun store => Component.dumpedBindings store s.depth components
  emit (.line ("ERROR: constructor fall through " ++ kind ++ " " ++ shown))
  pure (.unknown kind)

/-- Makes a term of a kind from components. -/
def build (s : Settings) (kind : String) (components : Bindings Datum) : Eval Term := do
  let given := components.map fun entry => (entry.1, Component.datum entry.2)
  announce s kind given
  let w ← get
  let t ←
    match ofComponents w.store kind components with
    | some t => ofExcept t
    | none => if kind = "list" then listOfComponents components else unknown s kind given
  announceResult s t
  pure t

end Eval

end DotLambda
