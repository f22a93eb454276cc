import DotLambda.Grammar.Automaton
import DotLambda.Token.Scan

/-!
Parsing: the automaton run over what a scan meets, with a stack of the symbols read so far. What the
symbols mean, and what happens on the way, is left to a `Reading`. After an error the stack and the
offending token are dropped and parsing starts afresh with the tokens that follow; an error is
reported only when three tokens have been read since the last one. Main statement: every move makes
the configuration lighter, so `parse` never runs out of steps.
-/

namespace DotLambda.Parse

/-- A symbol that has been read, the state after it, and what it means. -/
structure Frame (α : Type) where
  symbol : Symbol
  state : Nat
  meaning : α

/-- What is known of the next token. -/
inductive Lookahead where
  | unread
  | token (t : Token)
  /-- There is none. -/
  | finished

/-- A stage of a parse. The top of the stack comes first. -/
structure Configuration (α : Type) where
  stack : List (Frame α)
  next : Lookahead
  rest : List Item
  /-- How many more tokens have to be read before an error is reported again. -/
  grace : Nat

/-- How a parse ends. -/
inductive Outcome (α : Type) where
  | accepted (meaning : α)
  /-- The input ended in the middle of a statement, or without one. -/
  | rejected
  /-- The automaton and the grammar do not fit together. -/
  | stuck
  | exhausted

/-- One move of a parse, with the configuration after it. -/
inductive Move (α : Type) where
  /-- Look at the next token, or read it. -/
  | advance (c : Configuration α)
  | stray (character : Char) (line : Nat) (c : Configuration α)
  | overlong (digits : Nat) (c : Configuration α)
  /-- Use a rule on symbols with these meanings; the phrase goes on top of the stack that is left. -/
  | reduce (rule : Rule) (meanings : List α) (state : Nat) (c : Configuration α)
  /-- Give up the statement at a token. -/
  | recover (t : Token) (reported : Bool) (c : Configuration α)
  | accept (meaning : α)
  /-- Give up at the end of the input. -/
  | reject (reported : Bool)
  | stuck

/-- What symbols mean, and what is done on the way. -/
structure Reading (m : Type → Type) (α : Type) where
  /-- The meaning of a token. -/
  leaf : Token → α
  /-- The meaning of a phrase from those of its symbols. -/
  reduce : Rule → List α → m α
  /-- A character that begins no token has been met. -/
  stray : Char → Nat → m Unit
  /-- A run of digits that is too long has been met. -/
  overlong : Nat → m Unit
  /-- An error is reported, at a token or at the end of the input. -/
  report : Option Token → m Unit

namespace Configuration

variable {α : Type}

/-- The configuration before anything has been read. -/
def start (items : List Item) : Configuration α := ⟨[], .unread, items, 0⟩

/-- The state on top of a stack. -/
def stateOf : List (Frame α) → Nat
  | [] => 0
  | frame :: _ => frame.state

/-- The state of the automaton. -/
def state (c : Configuration α) : Nat := stateOf c.stack

/-- Puts a symbol on top of the stack. -/
def push (c : Configuration α) (symbol : Symbol) (state : Nat) (meaning : α) : Configuration α :=
  { c with stack := ⟨symbol, state, meaning⟩ :: c.stack }

/-- Takes the symbols of a rule from the stack. -/
def pop? (symbols : List Symbol) (stack : List (Frame α)) : Option (List α × List (Frame α)) :=
  let taken := (stack.take symbols.length).reverse
  if taken.map Frame.symbol = symbols then
    some (taken.map Frame.meaning, stack.drop symbols.length)
  else none

/-- Use a rule. -/
def reduction (c : Configuration α) (rule : Rule) : Move α :=
  match pop? rule.rhs c.stack with
  | none => .stuck
  | some (meanings, stack) =>
    match Automaton.goto? (stateOf stack) rule.lhs with
    | none => .stuck
    | some target => .reduce rule meanings target { c with stack }

/-- Look at the next token. -/
def look (c : Configuration α) : Move α :=
  match c.rest with
  | [] => .advance { c with next := .finished }
  | .token t :: rest => .advance { c with next := .token t, rest }
  | .stray character line :: rest => .stray character line { c with rest }
  | .overlong digits :: rest => .overlong digits { c with rest }

/-- Read a token and go to a state. -/
def shift (leaf : Token → α) (t : Token) (target : Nat) (c : Configuration α) : Configuration α :=
  { c with
    stack := ⟨.terminal t.kind, target, leaf t⟩ :: c.stack
    next := .unread
    grace := c.grace - 1 }

/-- Start afresh after an error. -/
def afresh (c : Configuration α) : Configuration α :=
  { c with stack := [], next := .unread, grace := 3 }

/-- The move before a token. -/
def before (leaf : Token → α) (t : Token) (c : Configuration α) : Move α :=
  match Automaton.action? c.state (some t.kind) with
  | some (.shift target) => .advance (c.shift leaf t target)
  | some (.reduce rule) => c.reduction rule
  | some .accept => .stuck
  | none => .recover t (c.grace == 0) c.afresh

/-- The move at the end of the input. -/
def atEnd (c : Configuration α) : Move α :=
  match Automaton.action? c.state none with
  | some (.shift _) => .stuck
  | some (.reduce rule) => c.reduction rule
  | some .accept =>
    match c.stack with
    | [] => .stuck
    | frame :: _ => .accept frame.meaning
  | none => .reject (c.grace == 0)

/-- The next move of a parse. -/
def move (leaf : Token → α) (c : Configuration α) : Move α :=
  match Automaton.default? c.state with
  | some rule => c.reduction rule
  | none =>
    match c.next with
    | .unread => c.look
    | .token t => c.before leaf t
    | .finished => c.atEnd

/-- The weight of a lookahead. -/
def lookaheadWeight : Lookahead → Nat
  | .unread => 1
  | .token _ => 8
  | .finished => 0

/-- The weight of a stack. -/
def stackWeight (stack : List (Frame α)) : Nat := Symbol.totalWeight (stack.map Frame.symbol)

/-- The weight of a configuration, which bounds the moves still to come. -/
def weight (c : Configuration α) : Nat :=
  stackWeight c.stack + lookaheadWeight c.next + 9 * c.rest.length

end Configuration

/-- Parses for at most a number of moves. -/
def run {m : Type → Type} [Monad m] {α : Type} (r : Reading m α) :
    Nat → Configuration α → m (Outcome α)
  | 0, _ => pure .exhausted
  | moves + 1, c =>
    match c.move r.leaf with
    | .advance c => run r moves c
    | .stray character line c => do
      r.stray character line
      run r moves c
    | .overlong digits c => do
      r.overlong digits
      run r moves c
    | .reduce rule meanings state c => do
      let meaning ← r.reduce rule meanings
      run r moves (c.push (.nonterminal rule.lhs) state meaning)
    | .recover t reported c => do
      if reported then r.report (some t)
      run r moves c
    | .accept meaning => pure (.accepted meaning)
    | .reject reported => do
      if reported then r.report none
      pure .rejected
    | .stuck => pure .stuck

/-- Parses what a scan meets. -/
def parse {m : Type → Type} [Monad m] {α : Type} (r : Reading m α) (items : List Item) :
    m (Outcome α) :=
  let c := Configuration.start items
  run r (c.weight + 1) c

/-! ## Every move makes the configuration lighter -/

namespace Move

variable {α : Type}

/-- Whether the configuration after a move is lighter than a bound, whatever a phrase means. -/
def Below (bound : Nat) : Move α → Prop
  | advance c | stray _ _ c | overlong _ c | recover _ _ c => c.weight < bound
  | reduce rule _ state c =>
    ∀ meaning, (c.push (.nonterminal rule.lhs) state meaning).weight < bound
  | accept _ | reject _ | stuck => True

end Move

namespace Configuration

variable {α : Type}

theorem stackWeight_pop? {symbols : List Symbol} {stack rest : List (Frame α)} {meanings : List α}
    (popped : pop? symbols stack = some (meanings, rest)) :
    Symbol.totalWeight symbols + stackWeight rest = stackWeight stack := by
  simp only [pop?] at popped
  split at popped
  · rename_i same
    simp only [Option.some.injEq, Prod.mk.injEq] at popped
    obtain ⟨-, rfl⟩ := popped
    have taken : Symbol.totalWeight symbols = stackWeight (stack.take symbols.length) := by
      rw [← congrArg Symbol.totalWeight same, List.map_reverse, Symbol.totalWeight_reverse,
        stackWeight]
    rw [taken, stackWeight, stackWeight, ← Symbol.totalWeight_append, ← List.map_append,
      List.take_append_drop, stackWeight]
  · simp at popped

theorem reduction_below (c : Configuration α) (rule : Rule) : (c.reduction rule).Below c.weight := by
  unfold reduction
  split
  · trivial
  · rename_i meanings stack popped
    split
    · trivial
    · intro meaning
      have popWeight := stackWeight_pop? popped
      have lighter := rule.weight_lhs_lt
      simp only [weight, push, stackWeight, List.map_cons, Symbol.totalWeight] at popWeight ⊢
      omega

/-- Every move makes the configuration lighter. -/
theorem move_below (leaf : Token → α) (c : Configuration α) : (c.move leaf).Below c.weight := by
  unfold move
  split
  · exact reduction_below c _
  split
  · rename_i unread
    unfold look
    split
    all_goals simp_all [Move.Below, weight, lookaheadWeight]
    all_goals omega
  · rename_i t seen
    unfold before
    split
    · simp [Move.Below, weight, shift, stackWeight, Symbol.totalWeight, Symbol.weight,
        lookaheadWeight, seen]
      omega
    · exact reduction_below c _
    · trivial
    · simp [Move.Below, weight, afresh, stackWeight, Symbol.totalWeight, lookaheadWeight, seen]
  · unfold atEnd
    split
    · trivial
    · exact reduction_below c _
    · split <;> trivial
    · trivial

end Configuration

end DotLambda.Parse
