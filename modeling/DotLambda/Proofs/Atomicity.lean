import DotLambda.Proofs.Effects
import DotLambda.Proofs.Recognition

/-!
Statements are atomic. Main statement: a line that is one statement leaves all variables and lists as they
were if it fails, and if it succeeds it changes only what the statement names. This holds in every session
that lines lead to, however its variables share their lists.
-/

namespace DotLambda

open Eval Parse Meaning

variable {w : World} {s : Settings}

/-! ## Whatever is read, the session stays closed -/

namespace Parse

/-- The meanings on the stack are such as their symbols may have. -/
def Configuration.Suited (size : Nat) (c : Configuration Meaning) : Prop :=
  ∀ frame ∈ c.stack, Suits size frame.symbol frame.meaning

/-- A move to a suited configuration, with meanings such as the symbols of its rule may have. -/
def Move.Suited (size : Nat) : Move Meaning → Prop
  | advance c | stray _ _ c | overlong _ c | recover _ _ c => c.Suited size
  | reduce rule meanings _ c => Fills size rule.rhs meanings ∧ c.Suited size
  | accept _ | reject _ | stuck => True

namespace Configuration

variable {size : Nat}

private theorem fills_map {frames : List (Frame Meaning)}
    (suited : ∀ frame ∈ frames, Suits size frame.symbol frame.meaning) :
    Fills size (frames.map Frame.symbol) (frames.map Frame.meaning) := by
  induction frames with
  | nil => rfl
  | cons frame rest ih =>
    exact .cons (suited frame List.mem_cons_self)
      (ih fun other member => suited other (List.mem_cons_of_mem frame member))

theorem Suited.mono {more : Nat} {c : Configuration Meaning} (suited : c.Suited size)
    (le : size ≤ more) : c.Suited more :=
  fun frame member => (suited frame member).mono le

theorem Suited.reduction {c : Configuration Meaning} (suited : c.Suited size) (rule : Rule) :
    (c.reduction rule).Suited size := by
  unfold Configuration.reduction
  split
  · trivial
  · rename_i meanings stack popped
    split
    · trivial
    · simp only [pop?] at popped
      split at popped
      · rename_i same
        simp only [Option.some.injEq, Prod.mk.injEq] at popped
        obtain ⟨rfl, rfl⟩ := popped
        have filled := fills_map fun frame (member : frame ∈ (c.stack.take rule.rhs.length).reverse) =>
          suited frame (List.mem_of_mem_take (List.mem_reverse.1 member))
        rw [same] at filled
        exact ⟨filled, fun frame member => suited frame (List.mem_of_mem_drop member)⟩
      · cases popped

theorem Suited.shift {c : Configuration Meaning} (suited : c.Suited size) (t : Token) (target : Nat) :
    (c.shift .token t target).Suited size :=
  List.forall_mem_cons.2 ⟨.token t, suited⟩

/-- A move leads from a suited configuration to a suited one. -/
theorem Suited.move {c : Configuration Meaning} (suited : c.Suited size) :
    (c.move .token).Suited size := by
  unfold Configuration.move
  split
  · exact suited.reduction _
  split
  · unfold look
    split
    all_goals exact suited
  · unfold before
    split
    · exact suited.shift _ _
    · exact suited.reduction _
    · trivial
    · exact fun _ member => nomatch member
  · unfold atEnd
    split
    · trivial
    · exact suited.reduction _
    · split <;> trivial
    · trivial

end Configuration

end Parse

/-- An evaluation after which the world is closed, whether it succeeds or fails. -/
def Eval.Closes {α : Type} (w : World) (x : Eval α) : Prop :=
  match x w with
  | .ok _ after => after.Closed
  | .error _ after => after.Closed

theorem Eval.closes_iff {α : Type} {x : Eval α} :
    Closes w x ↔ Finishes w x (fun after _ => after.Closed) fun after _ => after.Closed :=
  Iff.rfl

theorem Eval.Commits.closes {α β : Type} {x : Eval α} {f : α → Eval β} {effect : World → α → Prop}
    (first : Commits w x effect) (next : ∀ a after, after.Closed → effect after a → Closes after (f a)) :
    Closes w (x >>= f) := by
  have started := (commits_iff.1 first).mono (fun _ _ done => done) fun _ _ kept => kept.1
  exact closes_iff.2 (started.bind fun a after _ done => closes_iff.1 (next a after done.1 done.2))

theorem Eval.Closes.map {α β : Type} {x : Eval α} (closes : Closes w x) (f : α → β) :
    Closes w (do let a ← x; pure (f a)) :=
  closes_iff.2 ((closes_iff.1 closes).bind fun _ _ _ closed => closed)

/-- A rule makes a meaning such as its phrase may have, in a world with no fewer lists. -/
theorem commits_rule {rule : Rule} {meanings : List Meaning} (closed : w.Closed)
    (fills : Fills w.store.size rule.rhs meanings) :
    Commits w (ofRule s rule meanings) fun after m =>
      w.store.size ≤ after.store.size ∧ Suits after.store.size (.nonterminal rule.lhs) m := by
  by_cases statement : rule.lhs = .statement
  · refine (Command.commits_ofRule statement closed (.refl _) closed fills).mono ?_
    rintro after m ⟨⟨result, rfl⟩, effect⟩
    rw [statement]
    exact ⟨effect.size_le, .done result⟩
  · refine (frames_ofRule statement closed fills).mono ?_
    rintro after m ⟨grows, suits⟩
    exact ⟨grows.store.size_le, suits⟩

/-- A parse leaves the world closed, wherever it ends. -/
theorem closes_run (moves : Nat) {c : Configuration Meaning} (closed : w.Closed)
    (suited : c.Suited w.store.size) : Closes w (run (reading s) moves c) := by
  -- After an error the parser starts afresh, so a line that is no statement may carry out one and then
  -- fail: of such a line only this much can be said.
  induction moves generalizing w c with
  | zero => exact closed
  | succ moves ih =>
    have suits : (c.move (reading s).leaf).Suited w.store.size := suited.move
    rw [run]
    generalize c.move (reading s).leaf = move at suits ⊢
    cases move with
    | advance next => exact ih closed suits
    | stray character line next =>
      exact Commits.closes (Frames.emit closed) fun _ after closed effect =>
        ih closed (suits.mono effect.1.store.size_le)
    | overlong digits next => exact closed
    | reduce rule meanings state next =>
      refine (commits_rule closed suits.1).closes fun m after closed effect => ih closed ?_
      exact List.forall_mem_cons.2 ⟨effect.2, suits.2.mono effect.1⟩
    | recover t reported next =>
      dsimp only
      split
      · exact Commits.closes (Frames.emit closed) fun _ after closed effect =>
          ih closed (suits.mono effect.1.store.size_le)
      · exact ih closed suits
    | accept meaning => exact closed
    | reject reported =>
      dsimp only
      split
      · exact Commits.closes (Frames.emit closed) fun _ after closed _ => closed
      · exact closed
    | stuck => exact closed

namespace Session

/-- The sessions that lines lead to. -/
inductive Reachable : Session → Prop
  | fresh : Reachable fresh
  | step {session : Session} (reached : Reachable session) (s : Settings) (line : String) :
    Reachable (session.step s line).2

theorem closed_fresh : fresh.Closed where
  store _ _ member := nomatch member
  bindings _ _ found := nomatch found

theorem closed_run {session : Session} {x : Eval (Option Term)}
    (closes : Closes ⟨session.bindings, session.store, #[]⟩ x) : (session.run x).2.Closed := by
  rcases (closes_iff.1 closes).run with ⟨_, after, ended, closed⟩ | ⟨_, after, ended, closed⟩
  · exact ended ▸ closed
  · exact ended ▸ closed

theorem Closed.step {session : Session} (closed : session.Closed) (s : Settings) (line : String) :
    (session.step s line).2.Closed := by
  have parsed : Closes ⟨session.bindings, session.store, #[]⟩
      (parse (reading s) (Scan.ofText line).items) :=
    closes_run _ closed fun _ member => nomatch member
  exact closed_run (parsed.map resultOf)

/-- Lines lead only to sessions whose variables and lists hold lists of the store. -/
theorem Reachable.closed {session : Session} (reachable : session.Reachable) : session.Closed := by
  induction reachable with
  | fresh => exact closed_fresh
  | step reached s line ih => exact ih.step s line

end Session

/-! ## Statements -/

theorem frames_heard (closed : w.Closed) (noise : Noise) :
    Frames w (noise.heard (reading s)) fun _ _ => True := by
  cases noise with
  | stray character line => exact .emit closed
  | overlong digits => exact .throw closed

theorem frames_noise (closed : w.Closed) (noise : List Noise) :
    Frames w (noise.forM (Noise.heard (reading s))) fun _ _ => True :=
  .forM closed fun _ closed n _ => frames_heard closed n

namespace Derivation

/-- Meanings that the symbols of a derivation may have: its tokens are what they are. -/
def Yields (size : Nat) : {symbols : List Symbol} → Derivation symbols → List Meaning → Prop
  | _, nil, meanings => meanings = []
  | _, read p _ rest, meanings => ∃ others, meanings = .token p.token :: others ∧ rest.Yields size others
  | .nonterminal phrase :: _, use _ _ _ rest, meanings =>
    ∃ m others, meanings = m :: others ∧ Suits size (.nonterminal phrase) m ∧ rest.Yields size others

theorem Yields.fills {size : Nat} {symbols : List Symbol} {d : Derivation symbols}
    {meanings : List Meaning} (yields : d.Yields size meanings) : Fills size symbols meanings := by
  induction d generalizing meanings with
  | nil => exact yields
  | read p is rest ih =>
    obtain ⟨others, rfl, yields⟩ := yields
    exact ⟨p.token, others, rfl, ih yields⟩
  | use rule forms parts rest _ ih =>
    obtain ⟨m, others, rfl, suits, yields⟩ := yields
    exact .cons suits (ih yields)

/-- Finding the meanings of expressions only adds lists, and where the variables hold only lists of a kind, so
do the terms that are found. -/
theorem adds_meanings {r : Region} {symbols : List Symbol} (d : Derivation symbols)
    (free : .nonterminal .statement ∉ symbols) (inside : w.In r) :
    Adds w (d.meanings (reading s)) fun store meanings =>
      d.Yields store.size meanings ∧ ∀ m ∈ meanings, m.In r store := by
  induction d generalizing w with
  | nil => exact .pure inside.closed ⟨rfl, fun _ member => nomatch member⟩
  | read p is rest ih =>
    rw [List.mem_cons, not_or] at free
    refine (frames_noise inside.closed p.gap).adds.bind fun _ _ grows closed _ => ?_
    refine (ih free.2 (inside.grow grows closed)).bind fun others _ _ closed found => ?_
    exact .pure closed ⟨⟨others, rfl, found.1⟩, List.forall_mem_cons.2 ⟨trivial, found.2⟩⟩
  | use rule forms parts rest partsIh ih =>
    subst forms
    rw [List.mem_cons, not_or] at free
    have expression : rule.lhs ≠ .statement := fun same => free.1 (by rw [same])
    have other : rule ≠ .dump := fun same => expression (by rw [same]; rfl)
    refine (partsIh (Automaton.dumpless other).1 inside).bind fun inner _ grows closed found => ?_
    have inside := inside.grow grows closed
    refine (adds_ofRule expression inside found.1.fills found.2).bind fun m _ grows closed made => ?_
    obtain ⟨t, rfl, here⟩ := made
    refine (ih free.2 (inside.grow grows closed)).bind fun others _ grows closed found => ?_
    have here := grows.carry here
    exact .pure closed ⟨⟨_, others, rfl, .term expression here.within, found.1⟩,
      List.forall_mem_cons.2 ⟨here, found.2⟩⟩

/-- Finding the meanings of expressions leaves all as it was, whether it succeeds or fails. -/
theorem frames_meanings {symbols : List Symbol} (d : Derivation symbols)
    (free : .nonterminal .statement ∉ symbols) (closed : w.Closed) :
    Frames w (d.meanings (reading s)) fun size meanings => d.Yields size meanings :=
  (d.adds_meanings free closed.whole).mono fun _ _ found => ⟨found.1, found.2.1⟩

end Derivation

namespace Command

/-- The command that the tokens of a statement give. -/
def ofTokens : List Token → Option Command
  | [] => none
  | first :: rest =>
    match first.kind, rest with
    | .printWord, _ => some print
    | .dumpWord, _ => some dump
    | .identifier, _ => some (assign first.text)
    | .appendWord, _ :: id :: _ => some (append id.text)
    | _, _ => none

/-- The tokens of a derivation give the command of its rule. -/
theorem ofTokens_eq {size : Nat} {rule : Rule} (statement : rule.lhs = .statement)
    {parts : Derivation rule.rhs} {meanings : List Meaning} (yields : parts.Yields size meanings) :
    ofTokens (parts.pieces.map Piece.token) = some (ofRule rule meanings) := by
  cases rule with
  | print =>
    cases parts with
    | read p is rest =>
      simp only [Derivation.pieces, List.map_cons, ofTokens, show p.token.kind = .printWord from is]
      rfl
  | dump =>
    cases parts with
    | read p is rest =>
      simp only [Derivation.pieces, List.map_cons, ofTokens, show p.token.kind = .dumpWord from is]
      rfl
  | assign =>
    cases parts with
    | read p is rest =>
      obtain ⟨_, rfl, _⟩ := yields
      simp only [Derivation.pieces, List.map_cons, ofTokens, show p.token.kind = .identifier from is]
      rfl
  | append =>
    cases parts with
    | read p is rest =>
      cases rest with
      | read dot _ rest =>
        cases rest with
        | read id _ rest =>
          obtain ⟨_, rfl, _, rfl, _, rfl, _⟩ := yields
          simp only [Derivation.pieces, List.map_cons, ofTokens, show p.token.kind = .appendWord from is]
          rfl
  | _ => exact absurd statement (by decide)

end Command

/-- A line that is one statement either fails and leaves all as it was, or has the effect of its command. -/
theorem commits_parse {items : List Item} (closed : w.Closed)
    (sentence : Sentence ((items.filterMap Item.token?).map Token.kind)) :
    Commits w (parse (reading s) items) fun after _ =>
      ∃ command, Command.ofTokens (items.filterMap Item.token?) = some command ∧
        command.Effect w.session after.session := by
  obtain ⟨noise, pieces, split, tokens⟩ : ∃ (noise : List Noise) (pieces : List Piece),
      items = noise.map Noise.item ++ pieces.flatMap Piece.items ∧
        items.filterMap Item.token? = pieces.map Piece.token :=
    ⟨_, _, (Piece.items_split items).symm, (Piece.token_split items).symm⟩
  rw [tokens, List.map_map] at sentence
  rw [tokens, split]
  rcases Derivation.exists_statement sentence with
    ⟨p, rfl, is⟩ | ⟨rule, statement, other, parts, rfl, fits⟩
  · -- A dump is done before the noise behind it, which may still fail.
    rw [List.flatMap_singleton, parse_dump (reading s) noise p is]
    have dumped : Frames w (do
        noise.forM (Noise.heard (reading s))
        let m ← ofRule s .dump [.token p.token]
        p.gap.forM (Noise.heard (reading s))
        pure (Outcome.accepted m)) fun _ _ => True := by
      refine (frames_noise closed noise).bind fun _ _ _ closed _ => ?_
      have shown : Frames _ (ofRule s .dump [.token p.token]) fun _ _ => True :=
        (frames_dump closed).bind fun _ _ _ closed _ => .pure closed trivial
      refine shown.bind fun m _ _ closed _ => ?_
      exact (frames_noise closed p.gap).bind fun _ _ _ closed _ => .pure closed trivial
    refine dumped.mono fun after _ effect => ⟨.dump, ?_, effect.1⟩
    simp only [List.map_cons, Command.ofTokens, show p.token.kind = .dumpWord from is]
  · rw [parse_statement (reading s) noise statement other parts fits]
    refine (frames_noise closed noise).commits fun _ _ first middle _ => ?_
    refine (parts.frames_meanings (Automaton.dumpless other).1 middle).commits
      fun inner _ second last yields => ?_
    have done := Command.commits_ofRule (s := s) statement closed (first.trans second) last yields.fills
    refine (done.map Outcome.accepted).mono ?_
    rintro after _ ⟨m, rfl, -, effect⟩
    exact ⟨_, Command.ofTokens_eq statement yields, effect⟩

/-- What an evaluation does to a session, by how it ends. -/
theorem Session.run_of_commits {session : Session} {x : Eval (Option Term)} (effect : Session → Prop)
    (commits : Commits ⟨session.bindings, session.store, #[]⟩ x fun after _ => effect after.session) :
    (∀ e, (session.run x).1.result = .error e → session.Kept (session.run x).2) ∧
      ∀ result, (session.run x).1.result = .ok result → effect (session.run x).2 := by
  rcases (commits_iff.1 commits).run with ⟨_, after, ended, -, done⟩ | ⟨_, after, ended, -, kept⟩
  · rw [ended]
    exact ⟨fun _ failed => (nomatch failed), fun _ _ => done⟩
  · rw [ended]
    exact ⟨fun _ _ => kept, fun _ succeeded => nomatch succeeded⟩

/-- A line that is one statement leaves all as it was if it fails, and has the effect of its command if it
succeeds. -/
theorem Session.Closed.step_effects {session : Session} (closed : session.Closed) (s : Settings) {line : String}
    (sentence : Sentence ((Scan.ofText line).tokens.map Token.kind)) :
    (∀ e, (session.step s line).1.result = .error e → session.Kept (session.step s line).2) ∧
    ∀ result, (session.step s line).1.result = .ok result →
      ∃ command, Command.ofTokens (Scan.ofText line).tokens = some command ∧
        command.Effect session (session.step s line).2 := by
  have parsed := @commits_parse ⟨session.bindings, session.store, #[]⟩ s _ closed sentence
  refine Session.run_of_commits (fun after => ∃ command,
    Command.ofTokens (Scan.ofText line).tokens = some command ∧ command.Effect session after) ?_
  refine (parsed.map Session.resultOf).mono ?_
  rintro after _ ⟨_, _, effect⟩
  exact effect

/-- A line that is one statement leaves all variables and all lists that they reach as they were if it
fails, and has only the effect of its command if it succeeds. -/
theorem statement_atomic {session : Session} (reachable : session.Reachable) (s : Settings) {line : String}
    (sentence : Sentence ((Scan.ofText line).tokens.map Token.kind)) :
    (∀ id t cell, session.bindings.find? id = some t → session.store.Reaches t cell →
      cell < session.store.size) ∧
    (∀ e, (session.step s line).1.result = .error e → session.Kept (session.step s line).2) ∧
    ∀ result, (session.step s line).1.result = .ok result →
      ∃ command, Command.ofTokens (Scan.ofText line).tokens = some command ∧
        command.Effect session (session.step s line).2 := by
  have closed := reachable.closed
  refine ⟨fun id t cell found reaches => ?_, ?_⟩
  · exact Store.lt_size_of_reaches closed.store (closed.bindings id t found) reaches
  · have parsed := @commits_parse ⟨session.bindings, session.store, #[]⟩ s _ closed sentence
    refine Session.run_of_commits (fun after => ∃ command,
      Command.ofTokens (Scan.ofText line).tokens = some command ∧ command.Effect session after) ?_
    refine (parsed.map Session.resultOf).mono ?_
    rintro after _ ⟨_, _, effect⟩
    exact effect

/-- A list is appended to itself. -/
theorem statement_atomic_of_self_append : ∃ session : Session,
    session = (Session.fresh.step ⟨false, Session.usualDepth⟩ "x := [1]").2 ∧ session.Reachable ∧
    Sentence ((Scan.ofText "append . x . x").tokens.map Token.kind) ∧
    (Command.append "x").Effect session
      (session.step ⟨false, Session.usualDepth⟩ "append . x . x").2 := by
  have reachable := Session.Reachable.step .fresh ⟨false, Session.usualDepth⟩ "x := [1]"
  have succeeds : ((Session.fresh.step ⟨false, Session.usualDepth⟩ "x := [1]").2.step
      ⟨false, Session.usualDepth⟩ "append . x . x").1.result.toOption.isSome = true := by
    decide +kernel
  generalize same : (Session.fresh.step ⟨false, Session.usualDepth⟩ "x := [1]").2 = session
    at reachable succeeds
  have kinds : (Scan.ofText "append . x . x").tokens.map Token.kind =
      [.appendWord, .dot, .identifier, .dot, .identifier] := by decide +kernel
  have command : Command.ofTokens (Scan.ofText "append . x . x").tokens = some (.append "x") := rfl
  let front : List Symbol :=
    [.terminal .appendWord, .terminal .dot, .terminal .identifier, .terminal .dot]
  have sentence : Sentence ((Scan.ofText "append . x . x").tokens.map Token.kind) := by
    rw [kinds]
    exact .head (.step [] .append []) (.head (.step front .termExpr [])
      (.head (.step front .factorTerm []) (.head (.step front .name []) .refl)))
  refine ⟨session, rfl, reachable, sentence, ?_⟩
  obtain ⟨-, -, succeeded⟩ := statement_atomic reachable ⟨false, Session.usualDepth⟩ sentence
  generalize session.step ⟨false, Session.usualDepth⟩ "append . x . x" = after at succeeds succeeded ⊢
  cases ended : after.1.result with
  | error e =>
    rw [ended] at succeeds
    exact nomatch succeeds
  | ok result =>
    obtain ⟨_, given, effect⟩ := succeeded result ended
    rw [command] at given
    cases given
    exact effect

end DotLambda
