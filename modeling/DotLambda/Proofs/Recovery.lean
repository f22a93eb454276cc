import DotLambda.Proofs.Atomicity

/-!
What a line does that is no statement. After an error the parser starts afresh behind the token at which it
met the error, and a statement may have been carried out by then. Main statement: the tokens at which errors are
met cut a line into pieces, and the line does what those of its pieces do that are whole statements, one after
another, and nothing else. An assignment is carried out before an error only if the error is at a token that
could end its expression elsewhere, and an append only at the end of the line.
-/

namespace DotLambda

open Eval Parse Meaning

variable {w : World} {s : Settings}

/-! ## What moves do to the stack and to the tokens to come -/

namespace Automaton

/-- Behind a statement nothing is done before a token. -/
theorem action?_accepting (kind : Kind) : action? accepting (some kind) = none := by
  have nothing : row accepting = ⟨[], none, []⟩ := rfl
  simp [action?, nothing]

theorem reduction_of_action? {state : Nat} {next : Option Kind} {rule : Rule}
    (acts : action? state next = some (.reduce rule)) :
    ∃ followers, (row state).reduction = some (rule, followers) ∧ next ∈ followers := by
  unfold action? at acts
  split at acts
  · cases acts
  · split at acts
    · cases acts
    · split at acts
      · rename_i found
        split at acts
        · rename_i follows
          cases acts
          exact ⟨_, found, follows⟩
        · cases acts
      · cases acts

theorem reduction_of_default? {state : Nat} {rule : Rule} (unseen : default? state = some rule) :
    ∃ followers, (row state).reduction = some (rule, followers) := by
  unfold default? at unseen
  split at unseen
  · rename_i found
    cases unseen
    exact ⟨_, by rw [found]⟩
  · cases unseen

private theorem followers_inside : ∀ state < rows.size, ∀ reduction ∈ (row state).reduction.toList,
    (reduction.1 = .lastInChain → default? state = none ∧ reduction.2 = afterLastExpr) ∧
      (reduction.1 = .append → default? state = none ∧ reduction.2 = [none]) := by
  decide +kernel

/-- The rules for the last expression of a chain and for an append are used only before certain tokens. -/
theorem followers_eq {state : Nat} {rule : Rule} {followers : List (Option Kind)}
    (found : (row state).reduction = some (rule, followers)) :
    (rule = .lastInChain → default? state = none ∧ followers = afterLastExpr) ∧
      (rule = .append → default? state = none ∧ followers = [none]) := by
  by_cases inside : state < rows.size
  · exact followers_inside state inside (rule, followers) (by simp [found])
  · simp [row_of_le (Nat.le_of_not_lt inside)] at found

end Automaton

namespace Parse

/-- The kind of the next token, as far as it is known; the end of the input has none. -/
def Lookahead.kind? : Lookahead → Option (Option Kind)
  | unread => none
  | token t => some (some t.kind)
  | finished => some none

/-- A rule that the automaton uses in a state, without looking at the next token or before it. -/
def Chosen (state : Nat) (next : Lookahead) (rule : Rule) : Prop :=
  Automaton.default? state = some rule ∨
    ∃ kind, next.kind? = some kind ∧ Automaton.action? state kind = some (.reduce rule)

/-- The last expression of a chain is found before a token that may end it, and an append at the end. -/
theorem Chosen.followers {state : Nat} {next : Lookahead} {rule : Rule} (chosen : Chosen state next rule) :
    (rule = .lastInChain → ∃ kind ∈ Automaton.afterLastExpr, next.kind? = some kind) ∧
      (rule = .append → next.kind? = some none) := by
  obtain unseen | ⟨kind, seen, acts⟩ := chosen
  · obtain ⟨_, found⟩ := Automaton.reduction_of_default? unseen
    obtain ⟨last, append⟩ := Automaton.followers_eq found
    rw [unseen] at last append
    refine ⟨fun is => ?_, fun is => ?_⟩
    · cases (last is).1
    · cases (append is).1
  · obtain ⟨_, found, follows⟩ := Automaton.reduction_of_action? acts
    obtain ⟨last, append⟩ := Automaton.followers_eq found
    refine ⟨fun is => ⟨kind, (last is).2 ▸ follows, seen⟩, fun is => ?_⟩
    rw [(append is).2, List.mem_singleton] at follows
    rw [seen, follows]

end Parse

namespace Parse.Configuration

variable {α : Type}

/-- The tokens that have not been read. -/
def upcoming (c : Configuration α) : List Token :=
  (match c.next with
  | .token t => [t]
  | .unread | .finished => []) ++ c.rest.filterMap Item.token?

/-- What a move does to the stack and to the tokens to come: nothing, or a token is read, or the symbols of a
rule are taken from the stack, or the parse starts afresh behind a token. Behind a statement there is nothing
to do but to accept it at the end or to start afresh. -/
def Leads (leaf : Token → α) (c : Configuration α) : Move α → Prop
  | .advance after =>
    c.next = .unread ∧ after.stack = c.stack ∧ after.upcoming = c.upcoming ∨
      c.state ≠ Automaton.accepting ∧ ∃ t target,
        Automaton.next? c.state (.terminal t.kind) = some target ∧
          after.stack = ⟨.terminal t.kind, target, leaf t⟩ :: c.stack ∧ c.upcoming = t :: after.upcoming
  | .stray _ _ after => after = { c with rest := after.rest } ∧ after.upcoming = c.upcoming
  | .overlong _ _ => c.next = .unread
  | .reduce rule meanings target after =>
    c.state ≠ Automaton.accepting ∧ Chosen c.state c.next rule ∧
      pop? rule.rhs c.stack = some (meanings, after.stack) ∧
      Automaton.goto? (stateOf after.stack) rule.lhs = some target ∧ after = { c with stack := after.stack }
  | .recover t _ after => c.next = .token t ∧ after.stack = [] ∧ c.upcoming = t :: after.upcoming
  | .accept _ => c.next = .finished
  | .reject _ | .stuck => c.state ≠ Automaton.accepting

theorem leads_reduction (leaf : Token → α) {c : Configuration α} (away : c.state ≠ Automaton.accepting)
    {rule : Rule} (chosen : Chosen c.state c.next rule) : c.Leads leaf (c.reduction rule) := by
  unfold reduction
  split
  · exact away
  · rename_i meanings stack popped
    split
    · exact away
    · rename_i target awaited
      exact ⟨away, chosen, popped, awaited, rfl⟩

theorem leads_look (leaf : Token → α) {c : Configuration α} (unread : c.next = .unread) :
    c.Leads leaf c.look := by
  unfold look
  split
  · rename_i empty
    exact .inl ⟨unread, rfl, by simp [upcoming, unread, empty]⟩
  · rename_i found
    exact .inl ⟨unread, rfl, by simp [upcoming, unread, found, Item.token?]⟩
  · rename_i found
    exact ⟨rfl, by simp [upcoming, unread, found, Item.token?, List.filterMap_cons]⟩
  · exact unread

theorem leads_before (leaf : Token → α) {c : Configuration α} {t : Token} (seen : c.next = .token t) :
    c.Leads leaf (c.before leaf t) := by
  have away {action : Action} (acts : Automaton.action? c.state (some t.kind) = some action) :
      c.state ≠ Automaton.accepting := by
    intro accepts
    rw [accepts, Automaton.action?_accepting] at acts
    cases acts
  unfold before
  split
  · rename_i target shifts
    refine .inr ⟨away shifts, t, target, Automaton.next?_of_shift shifts, rfl, ?_⟩
    simp [upcoming, seen, shift]
  · rename_i acts
    exact leads_reduction leaf (away acts) (.inr ⟨some t.kind, by rw [seen]; rfl, acts⟩)
  · rename_i acts
    exact away acts
  · exact ⟨seen, rfl, by simp [upcoming, seen, afresh]⟩

theorem leads_atEnd (leaf : Token → α) {c : Configuration α} (finished : c.next = .finished) :
    c.Leads leaf c.atEnd := by
  have away (other : Automaton.action? c.state none ≠ some .accept) : c.state ≠ Automaton.accepting := by
    intro accepts
    exact other (by simp [accepts, Automaton.action?])
  unfold atEnd
  split
  · rename_i acts
    exact away (by simp [acts])
  · rename_i acts
    exact leads_reduction leaf (away (by simp [acts])) (.inr ⟨none, by rw [finished]; rfl, acts⟩)
  · split
    · rename_i empty
      simp [Leads, state, empty, stateOf, Automaton.accepting]
    · exact finished
  · rename_i acts
    exact away (by simp [acts])

theorem leads_move (leaf : Token → α) (c : Configuration α) : c.Leads leaf (c.move leaf) := by
  unfold move
  split
  · rename_i rule unseen
    refine leads_reduction leaf (fun accepts => ?_) (.inl unseen)
    have looks : Automaton.default? Automaton.accepting = none := by decide
    rw [accepts, looks] at unseen
    cases unseen
  split
  · rename_i unread
    exact leads_look leaf unread
  · rename_i seen
    exact leads_before leaf seen
  · rename_i finished
    exact leads_atEnd leaf finished

/-- Nothing is left to read at the end of the input. -/
def Ends (c : Configuration α) : Prop := c.next = .finished → c.rest = []

end Parse.Configuration

/-- A move after which nothing is left to read at the end of the input. -/
def Parse.Move.Ends {α : Type} : Move α → Prop
  | advance c | stray _ _ c | overlong _ c | recover _ _ c | reduce _ _ _ c => c.Ends
  | accept _ | reject _ | stuck => True

namespace Parse.Configuration.Ends

variable {α : Type} {c : Configuration α}

theorem reduction (ends : c.Ends) (rule : Rule) : (c.reduction rule).Ends := by
  unfold Configuration.reduction
  split
  · trivial
  · split
    · trivial
    · exact ends

theorem move (ends : c.Ends) (leaf : Token → α) : (c.move leaf).Ends := by
  unfold Configuration.move
  split
  · exact ends.reduction _
  split
  · rename_i unread
    have looking : ∀ rest, ({ c with rest } : Configuration α).Ends := by simp [Configuration.Ends, unread]
    unfold look
    split
    · rename_i empty
      exact fun _ => empty
    · exact nofun
    · exact looking _
    · exact looking _
  · unfold before
    split
    · exact nofun
    · exact ends.reduction _
    · trivial
    · exact nofun
  · unfold atEnd
    split
    · trivial
    · exact ends.reduction _
    · split <;> trivial
    · trivial

end Parse.Configuration.Ends

/-! ## The tokens for which a stack stands -/

namespace Parse

/-- The symbols of tokens. -/
def symbols (tokens : List Token) : List Symbol := tokens.map fun t => .terminal t.kind

/-- The tokens for which a frame stands: a token itself, or those from which a phrase has been made. -/
def Frame.Covers (frame : Frame Meaning) (tokens : List Token) : Prop :=
  match frame.symbol with
  | .terminal kind => ∃ t, tokens = [t] ∧ t.kind = kind ∧ frame.meaning = .token t
  | .nonterminal phrase => Derives [.nonterminal phrase] (symbols tokens)

/-- The tokens for which frames in a row stand. -/
def Spans : List (Frame Meaning) → List Token → Prop
  | [], tokens => tokens = []
  | frame :: rest, tokens => ∃ front back, tokens = front ++ back ∧ frame.Covers front ∧ Spans rest back

namespace Spans

theorem singleton {frame : Frame Meaning} {tokens : List Token} (covers : frame.Covers tokens) :
    Spans [frame] tokens :=
  ⟨tokens, [], by simp, covers, rfl⟩

theorem derives {frames : List (Frame Meaning)} {tokens : List Token} (spans : Spans frames tokens) :
    Derives (frames.map Frame.symbol) (symbols tokens) := by
  induction frames generalizing tokens with
  | nil =>
    obtain rfl := spans
    exact .refl
  | cons frame rest ih =>
    obtain ⟨front, back, rfl, covers, spans⟩ := spans
    have first : Derives [frame.symbol] (symbols front) := by
      unfold Frame.Covers at covers
      split at covers
      · rename_i kind is
        obtain ⟨t, rfl, rfl, -⟩ := covers
        rw [is]
        exact .refl
      · rename_i phrase is
        rw [is]
        exact covers
    simpa [symbols] using first.append (ih spans)

end Spans

end Parse

/-! ## What a line does -/

/-- What a piece of a line does, by the kind of the token at which an error ends it, or at the end of the line:
nothing, or it is a whole assignment or append and has the effect of its command. -/
inductive Piece.Does (tokens : List Token) (next : Option Kind) (before after : Session) : Prop
  | nothing (kept : before.Kept after)
  | assigns {id : String} (sentence : Sentence (tokens.map Token.kind))
    (given : Command.ofTokens tokens = some (.assign id)) (effect : (Command.assign id).Effect before after)
    (follows : next ∈ Automaton.afterLastExpr)
  | appends {id : String} (sentence : Sentence (tokens.map Token.kind))
    (given : Command.ofTokens tokens = some (.append id)) (effect : (Command.append id).Effect before after)
    (last : next = none)

/-- What tokens do that errors cut into pieces: each piece does what it does, in order, and the tokens at which
the errors are met do nothing. -/
inductive Carried : List Token → Session → Session → Prop
  | piece {tokens : List Token} {before after : Session} (does : Piece.Does tokens none before after) :
    Carried tokens before after
  | cut {front back : List Token} {t : Token} {before middle after : Session}
    (does : Piece.Does front (some t.kind) before middle) (onward : Carried back middle after) :
    Carried (front ++ t :: back) before after

/-- Tokens that make a statement which changes something. -/
def Changing (tokens : List Token) : Prop :=
  Sentence (tokens.map Token.kind) ∧
    ∃ id, Command.ofTokens tokens = some (.assign id) ∨ Command.ofTokens tokens = some (.append id)

theorem Piece.Does.kept {tokens : List Token} {next : Option Kind} {before after : Session}
    (does : Piece.Does tokens next before after) (harmless : ¬ Changing tokens) : before.Kept after := by
  cases does with
  | nothing kept => exact kept
  | assigns sentence given => exact absurd ⟨sentence, _, .inl given⟩ harmless
  | appends sentence given => exact absurd ⟨sentence, _, .inr given⟩ harmless

/-- Tokens among which there is no assignment and no append leave all as it was. -/
theorem Carried.kept {tokens : List Token} {before after : Session} (carried : Carried tokens before after)
    (harmless : ∀ front stretch back, tokens = front ++ stretch ++ back → ¬ Changing stretch) :
    before.Kept after := by
  induction carried with
  | piece does => exact does.kept (harmless [] _ [] (by simp))
  | @cut front back t before middle after does _ ih =>
    have first := does.kept (harmless [] front (t :: back) (by simp))
    refine first.trans (ih fun more stretch others split => harmless (front ++ t :: more) stretch others ?_)
    simp [split]

/-- An evaluation that leaves a good world, whether it succeeds or fails. -/
def Eval.Leaves {α : Type} (w : World) (x : Eval α) (good : World → Prop) : Prop :=
  match x w with
  | .ok _ after => good after
  | .error _ after => good after

theorem Eval.leaves_iff {α : Type} {x : Eval α} {good : World → Prop} :
    Leaves w x good ↔ Finishes w x (fun after _ => good after) fun after _ => good after :=
  Iff.rfl

theorem Eval.Leaves.mono {α : Type} {x : Eval α} {good better : World → Prop} (leaves : Leaves w x good)
    (widens : ∀ after, good after → better after) : Leaves w x better :=
  (leaves_iff.1 leaves).mono (fun after _ => widens after) fun after _ => widens after

theorem Eval.Leaves.map {α β : Type} {x : Eval α} {good : World → Prop} (leaves : Leaves w x good) (f : α → β) :
    Leaves w (do let a ← x; pure (f a)) good :=
  leaves_iff.2 ((leaves_iff.1 leaves).bind fun _ _ _ fine => fine)

theorem Eval.Commits.and {α : Type} {x : Eval α} {first second : World → α → Prop} (left : Commits w x first)
    (right : Commits w x second) : Commits w x fun after a => first after a ∧ second after a := by
  refine commits_iff.2 (.intro (fun a after ended => ?_) fun e after failed => (commits_iff.1 left).of_error failed)
  obtain ⟨closed, here⟩ := left.of_ok ended
  exact ⟨closed, here, (right.of_ok ended).2⟩

theorem Eval.Commits.leaves {α β : Type} {x : Eval α} {f : α → Eval β} {effect : World → α → Prop}
    {good : World → Prop} (first : Commits w x effect) (failed : ∀ after, w.Grows after → good after)
    (next : ∀ a after, after.Closed → effect after a → Leaves after (f a) good) : Leaves w (x >>= f) good := by
  have started := (commits_iff.1 first).mono (fun _ _ done => done) fun after _ kept => failed after kept.2
  exact leaves_iff.2 (started.bind fun a after _ done => leaves_iff.1 (next a after done.1 done.2))

namespace Command

end Command

/-- What has been done behind a statement, as far as the next token is known. -/
def Done (before now : Session) (read : List Token) : Option (Option Kind) → Prop
  | none => before.Kept now
  | some next => Piece.Does read next before now

theorem Done.ofKept {before now : Session} {read : List Token} {next : Option (Option Kind)}
    (kept : before.Kept now) : Done before now read next := by
  cases next with
  | none => exact kept
  | some kind => exact .nothing kept

/-- A stage of a parse since it last started afresh. In the middle of a statement nothing has been changed, and a
chain of expressions has been found only before a token that may end it. -/
inductive Stage (before now : Session) (read : List Token) (next : Lookahead) : List (Frame Meaning) → Prop
  | inside {stack : List (Frame Meaning)} (kept : before.Kept now) (spans : Spans stack.reverse read)
    (ended : ∀ frame ∈ stack.head?, frame.symbol = .nonterminal .exprList →
      ∃ kind ∈ Automaton.afterLastExpr, next.kind? = some kind) : Stage before now read next stack
  | done {frame : Frame Meaning} (accepts : frame.state = Automaton.accepting)
    (does : Done before now read next.kind?) : Stage before now read next [frame]

namespace Stage

variable {before now : Session} {read : List Token} {next : Lookahead} {stack : List (Frame Meaning)}

theorem start (session : Session) (next : Lookahead) : Stage session session [] next [] :=
  .inside (.refl session) rfl (by simp)

/-- Before the next token is looked at, nothing has been changed. -/
theorem kept (stage : Stage before now read .unread stack) : before.Kept now := by
  cases stage with
  | inside kept => exact kept
  | done _ does => exact does

theorem does (stage : Stage before now read next stack) {kind : Option Kind} (seen : next.kind? = some kind) :
    Piece.Does read kind before now := by
  cases stage with
  | inside kept => exact .nothing kept
  | done _ does =>
    rw [seen] at does
    exact does

theorem look (stage : Stage before now read .unread stack) (next : Lookahead) :
    Stage before now read next stack := by
  cases stage with
  | inside kept spans ended =>
    refine .inside kept spans fun frame top is => ?_
    obtain ⟨_, _, unread⟩ := ended frame top is
    cases unread
  | done accepts does => exact .done accepts (.ofKept does)

end Stage

end DotLambda
