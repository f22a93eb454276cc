import DotLambda.Meaning

/-!
Sessions: variables and lists that live from line to line. A line that fails ends there; what it has
changed before stays.
-/

namespace DotLambda

/-- What is known from one line to the next. -/
structure Session where
  bindings : Bindings Term
  store : Store

/-- What a line has written and come to: the list that it changed, if it changed one. -/
structure Reply where
  events : List Event
  result : Except Error (Option Term)

namespace Session

/-- A session in which nothing is known. -/
def fresh : Session := ⟨[], .empty⟩

/-- The result of a line that has been parsed. -/
def resultOf : Parse.Outcome Meaning → Option Term
  | .accepted (.done result) => result
  | _ => none

/-- The evaluation of a line. -/
def evaluation (s : Settings) (line : String) : Eval (Option Term) := do
  let outcome ← Parse.parse (Meaning.reading s) (Scan.ofText line).items
  pure (resultOf outcome)

/-- Runs an evaluation in a session. -/
def run (session : Session) (x : Eval (Option Term)) : Reply × Session :=
  match x ⟨session.bindings, session.store, #[]⟩ with
  | .ok result w => (⟨w.output.toList, .ok result⟩, ⟨w.bindings, w.store⟩)
  | .error e w => (⟨w.output.toList, .error e⟩, ⟨w.bindings, w.store⟩)

/-- Evaluates a line. -/
def step (s : Settings) (session : Session) (line : String) : Reply × Session :=
  session.run (evaluation s line)

/-- Evaluates lines one after another, and gives the session after each. -/
def steps (s : Settings) : Session → List String → List (Reply × Session)
  | _, [] => []
  | session, line :: rest =>
    let reply := session.step s line
    reply :: steps s reply.2 rest

/-- The depth to which evaluations usually go. One that nests deeper is taken for endless. -/
def usualDepth : Nat := 1000

end Session

end DotLambda
