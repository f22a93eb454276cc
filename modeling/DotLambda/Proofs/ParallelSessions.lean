import DotLambda.Proofs.ParallelRules

/-!
Sessions that go side by side, without tracing. Main statement: lines that are alike token by token, in
sessions that are twins, get replies that are alike and lead to sessions that are twins.
-/

namespace DotLambda

open Eval Parse Meaning

variable {p : Pairing} {known more : Known} {slack : Bool} {s s' : Settings} {w w' : World}

/-! ## Parsing -/

/-- Items of two scans that are the same up to what names are called. -/
inductive Item.Alike (p : Pairing) : Item → Item → Prop where
  | token {t t' : Token} (alike : Token.Alike p t t') : Alike p (.token t) (.token t')
  | stray (c : Char) (line : Nat) : Alike p (.stray c line) (.stray c line)
  | overlong (digits : Nat) : Alike p (.overlong digits) (.overlong digits)

namespace Parse

/-- Symbols on two frames with meanings that are alike. -/
structure Frame.Paired (p : Pairing) (known : Known) (frame frame' : Frame Meaning) : Prop where
  symbol_eq : frame'.symbol = frame.symbol
  state_eq : frame'.state = frame.state
  meaning : Meaning.Paired p known frame.symbol frame.meaning frame'.meaning

/-- What is known of the next tokens of two parses. -/
inductive Lookahead.Paired (p : Pairing) : Lookahead → Lookahead → Prop where
  | unread : Paired p .unread .unread
  | token {t t' : Token} (alike : Token.Alike p t t') : Paired p (.token t) (.token t')
  | finished : Paired p .finished .finished

/-- Stages of two parses that are alike. -/
structure Configuration.Paired (p : Pairing) (known : Known) (c c' : Configuration Meaning) : Prop where
  stack : List.Forall₂ (Frame.Paired p known) c.stack c'.stack
  next : Lookahead.Paired p c.next c'.next
  rest : List.Forall₂ (Item.Alike p) c.rest c'.rest
  grace_eq : c'.grace = c.grace

/-- Moves of two parses that are alike. -/
inductive Move.Paired (p : Pairing) (known : Known) : Move Meaning → Move Meaning → Prop where
  | advance {c c' : Configuration Meaning} (paired : c.Paired p known c') : Paired p known (.advance c) (.advance c')
  | stray (character : Char) (line : Nat) {c c' : Configuration Meaning} (paired : c.Paired p known c') :
      Paired p known (.stray character line c) (.stray character line c')
  | overlong (digits : Nat) (c c' : Configuration Meaning) :
      Paired p known (.overlong digits c) (.overlong digits c')
  | reduce (rule : Rule) (state : Nat) {row row' : List Meaning} (meanings : PairedRow p known rule.rhs row row')
      {c c' : Configuration Meaning} (paired : c.Paired p known c') :
      Paired p known (.reduce rule row state c) (.reduce rule row' state c')
  | recover (reported : Bool) {t t' : Token} (alike : Token.Alike p t t') {c c' : Configuration Meaning}
      (paired : c.Paired p known c') : Paired p known (.recover t reported c) (.recover t' reported c')
  | accept (m m' : Meaning) : Paired p known (.accept m) (.accept m')
  | reject (reported : Bool) : Paired p known (.reject reported) (.reject reported)
  | stuck : Paired p known .stuck .stuck

namespace Configuration

theorem Paired.mono {c c' : Configuration Meaning} (paired : c.Paired p known c') (wider : known.Le more) :
    c.Paired p more c' :=
  { paired with
    stack := paired.stack.imp fun _ _ frame => ⟨frame.symbol_eq, frame.state_eq, frame.meaning.mono wider⟩ }

theorem stateOf_eq {stack stack' : List (Frame Meaning)} (paired : List.Forall₂ (Frame.Paired p known) stack stack') :
    stateOf stack' = stateOf stack := by
  cases paired with
  | nil => rfl
  | cons frame _ => exact frame.state_eq

private theorem symbols_eq {frames frames' : List (Frame Meaning)}
    (paired : List.Forall₂ (Frame.Paired p known) frames frames') :
    frames'.map Frame.symbol = frames.map Frame.symbol := by
  induction paired with
  | nil => rfl
  | cons frame _ ih => rw [List.map_cons, List.map_cons, frame.symbol_eq, ih]

private theorem pairedRow {frames frames' : List (Frame Meaning)}
    (paired : List.Forall₂ (Frame.Paired p known) frames frames') :
    PairedRow p known (frames.map Frame.symbol) (frames.map Frame.meaning) (frames'.map Frame.meaning) := by
  induction paired with
  | nil => exact ⟨rfl, rfl⟩
  | cons frame _ ih => exact .cons frame.meaning ih

theorem Paired.reduction {c c' : Configuration Meaning} (paired : c.Paired p known c') (rule : Rule) :
    Move.Paired p known (c.reduction rule) (c'.reduction rule) := by
  have taken := List.forall₂_reverse_iff.2 (List.forall₂_take rule.rhs.length paired.stack)
  have left := List.forall₂_drop rule.rhs.length paired.stack
  simp only [Configuration.reduction, pop?, symbols_eq taken]
  by_cases same : (c.stack.take rule.rhs.length).reverse.map Frame.symbol = rule.rhs
  · simp only [if_pos same, stateOf_eq left]
    split
    · exact .stuck
    · have row := pairedRow taken
      rw [same] at row
      exact .reduce rule _ row { paired with stack := left }
  · simp only [if_neg same]
    exact .stuck

theorem Paired.look {c c' : Configuration Meaning} (paired : c.Paired p known c') :
    Move.Paired p known c.look c'.look := by
  obtain ⟨stack, next, rest, grace⟩ := c
  obtain ⟨stack', next', rest', grace'⟩ := c'
  obtain ⟨frames, lookahead, items, same⟩ := paired
  cases items with
  | nil => exact .advance ⟨frames, .finished, .nil, same⟩
  | cons item others =>
    cases item with
    | token alike => exact .advance ⟨frames, .token alike, others, same⟩
    | stray character line => exact .stray character line ⟨frames, lookahead, others, same⟩
    | overlong digits => exact .overlong digits _ _

theorem Paired.before {c c' : Configuration Meaning} (paired : c.Paired p known c') {t t' : Token}
    (alike : Token.Alike p t t') : Move.Paired p known (c.before .token t) (c'.before .token t') := by
  have state : c'.state = c.state := stateOf_eq paired.stack
  simp only [Configuration.before, state, alike.kind_eq]
  split
  · rename_i target _
    refine .advance ⟨.cons ⟨?_, rfl, .token alike⟩ paired.stack, .unread, paired.rest, ?_⟩
    · exact congrArg Symbol.terminal alike.kind_eq
    · exact congrArg (· - 1) paired.grace_eq
  · exact paired.reduction _
  · exact .stuck
  · rw [paired.grace_eq]
    exact .recover _ alike ⟨.nil, .unread, paired.rest, rfl⟩

theorem Paired.atEnd {c c' : Configuration Meaning} (paired : c.Paired p known c') :
    Move.Paired p known c.atEnd c'.atEnd := by
  have state : c'.state = c.state := stateOf_eq paired.stack
  simp only [Configuration.atEnd, state, paired.grace_eq]
  split
  · exact .stuck
  · exact paired.reduction _
  · obtain ⟨stack, next, rest, grace⟩ := c
    obtain ⟨stack', next', rest', grace'⟩ := c'
    obtain ⟨frames, -, -, -⟩ := paired
    cases frames with
    | nil => exact .stuck
    | cons => exact .accept _ _
  · exact .reject _

/-- Moves from stages that are alike are alike. -/
theorem Paired.move {c c' : Configuration Meaning} (paired : c.Paired p known c') :
    Move.Paired p known (c.move .token) (c'.move .token) := by
  have state : c'.state = c.state := stateOf_eq paired.stack
  have lookahead := paired.next
  simp only [Configuration.move, state]
  cases Automaton.default? c.state with
  | some rule => exact paired.reduction rule
  | none =>
    dsimp only
    generalize c.next = next at lookahead ⊢
    generalize c'.next = next' at lookahead ⊢
    cases lookahead with
    | unread => exact paired.look
    | token alike => exact paired.before alike
    | finished => exact paired.atEnd

end Configuration

end Parse

theorem Meaning.syntaxReport_eq {t t' : Token} (alike : Token.Alike p t t') :
    syntaxReport (some t') = syntaxReport (some t) := by
  change _ ++ t'.line.repr ++ _ ++ t'.kind.name = _ ++ t.line.repr ++ _ ++ t.kind.name
  rw [alike.kind_eq, alike.line_eq]

/-- Parses of lines that are alike go side by side. -/
theorem parallel_run (all : ∀ id, p.names id) (deepens : s.Deepens slack s') (moves : Nat)
    {c c' : Configuration Meaning} (twinned : Twinned p known w w') (paired : c.Paired p known c') :
    Parallel p slack known w w' (run (reading s) moves c) (run (reading s') moves c') fun _ _ _ => True := by
  induction moves generalizing known w w' c c' with
  | zero => exact .pure twinned trivial
  | succ moves ih =>
    have moved : Move.Paired p known (c.move (reading s).leaf) (c'.move (reading s').leaf) := paired.move
    rw [run, run]
    generalize c.move (reading s).leaf = move at moved ⊢
    generalize c'.move (reading s').leaf = move' at moved ⊢
    cases moved with
    | advance paired => exact ih twinned paired
    | stray character line paired =>
      exact (Parallel.emit twinned (.same _)).bind fun _ _ _ _ _ wider twinned _ => ih twinned (paired.mono wider)
    | overlong digits => exact .inr ⟨fun _ => rfl, known, .refl known, twinned⟩
    | reduce rule state meanings paired =>
      refine (parallel_ofRule all deepens rule twinned meanings).bind fun _ _ _ m m' wider twinned result => ?_
      exact ih twinned { paired.mono wider with stack := .cons ⟨rfl, rfl, result⟩ (paired.mono wider).stack }
    | @recover reported t t' alike _ _ paired =>
      cases reported with
      | true =>
        have complained : Parallel p slack known w w' ((reading s).report (some t))
            ((reading s').report (some t')) fun _ _ _ => True := by
          refine .emit twinned ?_
          rw [syntaxReport_eq alike]
          exact .same _
        exact complained.bind fun _ _ _ _ _ wider twinned _ => ih twinned (paired.mono wider)
      | false => exact ih twinned paired
    | accept => exact .pure twinned trivial
    | reject reported =>
      cases reported with
      | true => exact (Parallel.emit twinned (.same _)).bind fun _ _ _ _ _ _ twinned _ => .pure twinned trivial
      | false => exact .pure twinned trivial
    | stuck => exact .pure twinned trivial

/-- Lines of two runs that are alike token by token. -/
def Pairing.Lines (p : Pairing) (line line' : String) : Prop :=
  List.Forall₂ (Item.Alike p) (Scan.ofText line).items (Scan.ofText line').items

theorem parallel_evaluation (all : ∀ id, p.names id) (deepens : s.Deepens slack s') {line line' : String}
    (alike : p.Lines line line') (twinned : Twinned p known w w') :
    Parallel p slack known w w' (Session.evaluation s line) (Session.evaluation s' line') fun _ _ _ => True := by
  have paired : (Configuration.start (Scan.ofText line).items).Paired p known
      (.start (Scan.ofText line').items) := ⟨.nil, .unread, alike, rfl⟩
  have weights : (Configuration.start (Scan.ofText line').items : Configuration Meaning).weight =
      (Configuration.start (Scan.ofText line).items : Configuration Meaning).weight := by
    simp only [Configuration.weight, Configuration.start, alike.length_eq]
  simp only [Session.evaluation, parse, weights]
  exact (parallel_run all deepens _ twinned paired).bind fun _ _ _ _ _ _ twinned _ => .pure twinned trivial

/-! ## Sessions -/

/-- Replies that are alike: what has been written is, and both lines succeed or both fail. -/
structure Reply.Alike (p : Pairing) (reply reply' : Reply) : Prop where
  events : List.Forall₂ (Event.Alike p) reply.events reply'.events
  result : (∃ a b, reply.result = .ok a ∧ reply'.result = .ok b) ∨
    ∃ e e', reply.result = .error e ∧ reply'.result = .error e' ∧ (p.Exact → e' = e)

namespace Session

/-- The world in which the next line of a session is evaluated. -/
abbrev world (session : Session) : World := ⟨session.bindings, session.store, #[]⟩

/-- Sessions in which names stand for twins and lists hold twins. -/
abbrev Twinned (p : Pairing) (known : Known) (session session' : Session) : Prop :=
  DotLambda.Twinned p known session.world session'.world

theorem alike_run {session session' : Session} {x x' : Eval (Option Term)}
    (parallel : Parallel p false known session.world session'.world x x' fun _ _ _ => True) :
    Reply.Alike p (session.run x).1 (session'.run x').1 ∧
      ∃ more, known.Le more ∧ (session.run x).2.Twinned p more (session'.run x').2 := by
  unfold run
  rcases parallel.cases with ⟨a, after, b, after', more, ended, ended', wider, twinned, -⟩ |
    ⟨e, after, e', after', more, ended, ended', same, wider, twinned⟩ | ⟨runs, -⟩
  · rw [ended, ended']
    exact ⟨⟨twinned.output, .inl ⟨a, b, rfl, rfl⟩⟩, more, wider, { twinned with output := .nil }⟩
  · rw [ended, ended']
    exact ⟨⟨twinned.output, .inr ⟨e, e', rfl, rfl, same⟩⟩, more, wider, { twinned with output := .nil }⟩
  · cases runs

/-- A line gets a reply that is alike, and leads to sessions that are twins again. -/
theorem alike_step (all : ∀ id, p.names id) (untraced : s.tracing = false) {line line' : String}
    (alike : p.Lines line line') {session session' : Session} (twinned : session.Twinned p known session') :
    Reply.Alike p (session.step s line).1 (session'.step s line').1 ∧
      ∃ more, known.Le more ∧ (session.step s line).2.Twinned p more (session'.step s line').2 :=
  alike_run (parallel_evaluation all ⟨untraced, untraced, Nat.le_refl _, fun _ => rfl⟩ alike twinned)

/-- Nothing is known in a new session, so it is its own twin. -/
theorem twinned_fresh (p : Pairing) : fresh.Twinned p (fun _ _ => False) fresh where
  lookups := ⟨.nil, fun _ _ => rfl⟩
  stores _ _ is := is.elim
  size_eq := rfl
  range _ _ is := is.elim
  graded _ is := is.elim
  others_eq _ _ _ := rfl
  terms_eq := rfl
  output := .nil

end Session

end DotLambda
