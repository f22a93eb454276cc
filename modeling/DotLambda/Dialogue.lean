import DotLambda.Session

/-!
Dialogues: a prompt, a line, its tokens, its evaluation, and so on to the end of the input or to the
first failure. Every step is traced.
-/

namespace DotLambda.Dialogue

/-- How lines of a dialogue are evaluated. -/
def settings : Settings := ⟨true, Session.usualDepth⟩

/-- Shows what a scan meets. -/
def showItem : Item → Eval Unit
  | .token t => do
    let shown ← Eval.ofExcept t.description
    Eval.emit (.colored .blue shown)
  | .stray character line => Eval.emit (.line (Item.strayReport character line))
  | .overlong digits => throw (.numeralTooLong digits)

/-- Shows the tokens of a line, then evaluates it. -/
def turn (line : String) : Eval (Option Term) := do
  (Scan.ofText line).items.forM showItem
  Session.evaluation settings line

/-- The lines of a text. What follows the last line end is a line if it is not empty. -/
def linesOf : List Char → List (List Char)
  | [] => []
  | '\n' :: rest => [] :: linesOf rest
  | c :: rest =>
    match linesOf rest with
    | line :: others => (c :: line) :: others
    | [] => [[c]]

/-- What a dialogue writes, and the failure that ends it, if one does. -/
structure Transcript where
  events : List Event
  failure : Option Error

/-- The dialogue over some lines. After the last one the prompt is written once more. -/
def overLines : Session → List String → Transcript
  | _, [] => ⟨[.prompt], none⟩
  | session, line :: rest =>
    match session.run (turn line) with
    | (⟨events, .error e⟩, _) => ⟨.prompt :: events, some e⟩
    | (⟨events, .ok _⟩, session) =>
      let others := overLines session rest
      ⟨.prompt :: events ++ others.events, others.failure⟩

/-- The dialogue over an input. -/
def overText (input : String) : Transcript :=
  overLines .fresh ((linesOf input.toList).map String.ofList)

end DotLambda.Dialogue
