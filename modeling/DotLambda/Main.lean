import DotLambda.Dialogue

/-!
The command line: a dialogue on the standard streams.
-/

namespace DotLambda

/-- Goes on with a dialogue until the input ends or a line fails. -/
partial def converse (session : Session) : IO UInt32 := do
  let input ← IO.getStdin
  let output ← IO.getStdout
  let errors ← IO.getStderr
  output.putStr (Event.standardOutput [.prompt])
  output.flush
  let text ← input.getLine
  match Dialogue.linesOf text.toList with
  | [] => return 0
  | line :: _ =>
    let (reply, session) := session.run (Dialogue.turn (String.ofList line))
    output.putStr (Event.standardOutput reply.events)
    output.flush
    errors.putStr (Event.errorStream reply.events)
    match reply.result with
    | .ok _ => converse session
    | .error e =>
      errors.putStrLn e.message
      return 1

end DotLambda

def main : IO UInt32 := DotLambda.converse .fresh
