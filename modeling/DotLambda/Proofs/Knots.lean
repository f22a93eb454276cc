import DotLambda.Proofs.Atomicity
import DotLambda.Proofs.ParallelRules
import DotLambda.Proofs.Termination

/-!
How lists come to hold themselves. A list that has just been made holds only what was there before it, so the
expressions of a statement come to finite terms if the variables stand for such; an assignment only gives such a
term a name, and an append is the one statement that changes a list. Main statement: where no list that the
variables reach holds itself, a statement makes one do so exactly if it appends to a list something from which
that list is reached.
-/

namespace DotLambda

open Eval Parse Meaning

/-! ## Finite terms -/

namespace Store

variable {store : Store} {t item : Term} {cell : Nat}

/-- A list of the store whose items are finite. -/
def Loose (store : Store) (cell : Nat) : Prop :=
  cell < store.size ∧ ∀ item ∈ store.items cell, store.Finite item

theorem finite_iff_among : store.Finite t ↔ t.Among store.Loose := by
  constructor
  · intro finite
    cases finite with
    | mk plain known items => exact ⟨fun cell holds => ⟨known cell holds, items cell holds⟩, plain⟩
  · intro among
    exact .mk among.plain (fun cell holds => (among.cells cell holds).1)
      fun cell holds => (among.cells cell holds).2

/-- More lists do not make a finite term less so. -/
theorem Finite.grow {after : Store} (grown : store.Extends after) (finite : store.Finite t) :
    after.Finite t := by
  induction finite with
  | mk plain known _ ih =>
    refine .mk plain (fun cell holds => Nat.lt_of_lt_of_le (known cell holds) grown.size_le) ?_
    intro cell holds item member
    rw [grown.items_eq cell (known cell holds)] at member
    exact ih cell holds item member

theorem Loose.grow {after : Store} (grown : store.Extends after) (loose : store.Loose cell) :
    after.Loose cell := by
  refine ⟨Nat.lt_of_lt_of_le loose.1 grown.size_le, fun item member => ?_⟩
  rw [grown.items_eq cell loose.1] at member
  exact (loose.2 item member).grow grown

theorem loose_allocate {items : List Term} (each : ∀ t ∈ items, t.Among store.Loose) :
    (store.allocate items).Loose store.size := by
  refine ⟨?_, fun item member => ?_⟩
  · rw [size_allocate]
    exact Nat.lt_succ_self _
  · rw [items_allocate_self] at member
    exact (finite_iff_among.2 (each item member)).grow (.allocate store items)

/-- A finite term reaches no list that holds itself. -/
theorem untied_of_finite (finite : store.Finite t) : store.Untied t := by
  induction finite with
  | mk plain known items ih =>
    intro cell reaches item member circle
    cases reaches with
    | here holds => exact ih cell holds item member cell circle item member circle
    | inside holds inner onward => exact ih _ holds _ inner cell onward item member circle
    | referred refers onward =>
      rw [plain] at refers
      cases refers

theorem mem_items_append {u : Term} {other : Nat} (member : u ∈ store.items other) :
    u ∈ (store.append cell item).items other := by
  by_cases same : other = cell
  · subst same
    by_cases old : other < store.size
    · rw [items_append_self store item old]
      exact List.mem_append_left _ member
    · rw [items_of_le (Nat.not_lt.1 old)] at member
      cases member
  · rwa [items_append_of_ne store item same]

/-- What a term reaches it reaches after an append as well. -/
theorem Reaches.append {target : Nat} (reaches : store.Reaches t target) :
    (store.append cell item).Reaches t target := by
  induction reaches with
  | here holds => exact .here holds
  | inside holds member _ ih => exact .inside holds (mem_items_append member) ih
  | referred refers _ ih => exact .referred refers ih

/-- An append to a list leaves the terms finite that do not reach it. -/
theorem Finite.append_of_unreached (finite : store.Finite t) (unreached : ¬ store.Reaches t cell) :
    (store.append cell item).Finite t := by
  induction finite with
  | mk plain known items ih =>
    refine .mk plain (by simpa only [size_append] using known) fun other holds u member => ?_
    have different : other ≠ cell := by
      rintro rfl
      exact unreached (.here holds)
    rw [items_append_of_ne store item different] at member
    exact ih other holds u member fun reaches => unreached (.inside holds member reaches)

/-- An append of a finite item from which the list is not reached leaves all finite terms finite. -/
theorem Finite.append (finite : store.Finite t) (added : store.Finite item)
    (unreached : ¬ store.Reaches item cell) : (store.append cell item).Finite t := by
  induction finite with
  | mk plain known items ih =>
    refine .mk plain (by simpa only [size_append] using known) fun other holds u member => ?_
    by_cases same : other = cell
    · subst same
      rw [items_append_self store item (known other holds), List.mem_append, List.mem_singleton] at member
      rcases member with before | rfl
      · exact ih other holds u before
      · exact added.append_of_unreached unreached
    · rw [items_append_of_ne store item same] at member
      exact ih other holds u member

/-- An append of an item from which the list is reached ties the list to itself. -/
theorem not_untied_append (old : cell < store.size) (reaches : store.Reaches item cell) :
    ¬ (store.append cell item).Untied (.list cell) := by
  intro untied
  have member : item ∈ (store.append cell item).items cell := by
    rw [items_append_self store item old]
    exact List.mem_append_right _ (List.mem_singleton_self item)
  exact untied cell (.here (List.mem_singleton_self cell)) item member reaches.append

end Store

/-- The lists that do not hold themselves, directly or not. -/
def Region.loose : Region where
  holds := Store.Loose
  within loose := loose.1
  items _ loose t member := Store.finite_iff_among.1 (loose.2 t member)
  grow grown loose := loose.grow grown
  fresh each := Store.loose_allocate each

/-- An append to the list of a variable. -/
theorem Meaning.append_of_list {w : World} {id : String} {cell : Nat} (item : Term)
    (known : w.bindings.find? id = some (.list cell)) :
    append id item w = .ok (.list cell) { w with store := w.store.append cell item } := by
  have got : (MonadState.get : Eval World) w = .ok w w := rfl
  refine (bind_of_ok got).trans ?_
  rw [known]
  rfl

namespace Session

/-- No list that the variables reach holds itself, directly or not. -/
def Acyclic (session : Session) : Prop :=
  ∀ id t, session.bindings.find? id = some t → session.store.Untied t

variable {session : Session}

/-- A session whose variables stand for finite terms. -/
abbrev Loose (session : Session) : Prop := session.In .loose

theorem Closed.loose (closed : session.Closed) (acyclic : session.Acyclic) : session.Loose where
  closed := closed
  bindings id t found := Store.finite_iff_among.1
    (Store.finite_of_untied closed.store (closed.bindings id t found) (acyclic id t found))

theorem Loose.finite (loose : session.Loose) {id : String} {t : Term}
    (found : session.bindings.find? id = some t) : session.store.Finite t :=
  Store.finite_iff_among.2 (loose.bindings id t found)

theorem Loose.acyclic (loose : session.Loose) : session.Acyclic :=
  fun _ _ found => Store.untied_of_finite (loose.finite found)

/-- A finite term has its texts within some depth. -/
theorem Loose.ending_texts (loose : session.Loose) {id : String} {t : Term}
    (found : session.bindings.find? id = some t) : ∃ enough, ∀ depth, enough ≤ depth →
      Ending (t.printed session.store depth) ∧ Ending (t.dumped session.store depth) := by
  obtain ⟨height, nests⟩ : ∃ height, Nests [] session.store height t :=
    Nests.exists_of_finite (loose.finite found) fun _ _ _ bound => nomatch bound
  exact ⟨height, fun _ le => nests.ending_texts le⟩

theorem Loose.assign {id : String} {t : Term} (loose : session.Loose) (finite : t.In .loose session.store)
    {after : Session} (bound : after.bindings = session.bindings.insert id t)
    (grown : session.store.Extends after.store) (closed : after.Closed) : after.Loose where
  closed := closed
  bindings other u found := by
    refine Store.finite_iff_among.1 (Store.Finite.grow grown ?_)
    rw [bound] at found
    by_cases same : other = id
    · subst same
      rw [Bindings.find?_insert_self] at found
      cases found
      exact Store.finite_iff_among.2 finite
    · rw [Bindings.find?_insert_of_ne t _ same] at found
      exact loose.finite found

theorem Loose.append {cell : Nat} {item : Term} (loose : session.Loose) (finite : item.In .loose session.store)
    (unreached : ¬ session.store.Reaches item cell) {after : Session}
    (same : after.bindings = session.bindings) (changed : after.store = session.store.append cell item)
    (closed : after.Closed) : after.Loose where
  closed := closed
  bindings id t found := by
    rw [same] at found
    rw [changed]
    exact Store.finite_iff_among.1
      ((loose.finite found).append (Store.finite_iff_among.2 finite) unreached)

/-! ## Lines -/

/-- A line is read as a statement of a rule: its symbols have been given their meanings, and the statement is
next to be carried out. -/
def Prepares (session : Session) (s : Settings) (line : String) (rule : Rule) (meanings : List Meaning)
    (middle : World) : Prop :=
  ∃ parts : Derivation rule.rhs, parts.Fits none ∧ parts.pieces = (Piece.split (Scan.ofText line).items).2 ∧
    (do
      (Piece.split (Scan.ofText line).items).1.forM (Noise.heard (reading s))
      parts.meanings (reading s)) ⟨session.bindings, session.store, #[]⟩ = .ok meanings middle

/-- A line that appends to the list of a variable something from which this list is reached. -/
def SelfAppends (session : Session) (s : Settings) (line : String) : Prop :=
  ∃ (word dot id second : Token) (item : Term) (cell : Nat) (middle : World),
    session.Prepares s line .append [.token word, .token dot, .token id, .token second, .term item] middle ∧
      session.bindings.find? id.text = some (.list cell) ∧ middle.store.Reaches item cell ∧
      (session.step s line).1.result = .ok (some (.list cell))

variable {s : Settings} {line : String}

theorem step_of_ok {result : Option Term} {after : World}
    (ended : evaluation s line ⟨session.bindings, session.store, #[]⟩ = .ok result after) :
    session.step s line = (⟨after.output.toList, .ok result⟩, after.session) := by
  unfold step run
  rw [ended]

/-- The evaluation of a line that is read as a statement. -/
theorem evaluation_of_parts {rule : Rule} (statement : rule.lhs = .statement) (other : rule ≠ .dump)
    {parts : Derivation rule.rhs} (fits : parts.Fits none)
    (pieces : parts.pieces = (Piece.split (Scan.ofText line).items).2) :
    evaluation s line = (do
      let meanings ← (do
        (Piece.split (Scan.ofText line).items).1.forM (Noise.heard (reading s))
        parts.meanings (reading s))
      let m ← ofRule s rule meanings
      pure (resultOf (.accepted m))) := by
  have parsed := parse_statement (reading s) (Piece.split (Scan.ofText line).items).1 statement other parts fits
  rw [pieces, Piece.items_split] at parsed
  rw [evaluation, parsed]
  simp only [bind_assoc, pure_bind]
  rfl

theorem Prepares.evaluation_eq {rule : Rule} {meanings : List Meaning} {middle : World}
    (prepares : session.Prepares s line rule meanings middle) (statement : rule.lhs = .statement)
    (other : rule ≠ .dump) :
    evaluation s line ⟨session.bindings, session.store, #[]⟩ =
      (do let m ← ofRule s rule meanings; pure (resultOf (.accepted m))) middle := by
  obtain ⟨parts, fits, pieces, found⟩ := prepares
  rw [evaluation_of_parts statement other fits pieces, bind_of_ok found]

/-- Before a statement is carried out all is as it was, and its expressions have come to finite terms. -/
theorem Prepares.finite {rule : Rule} {meanings : List Meaning} {middle : World}
    (prepares : session.Prepares s line rule meanings middle) (other : rule ≠ .dump) (loose : session.Loose) :
    middle.session.Loose ∧ session.Kept middle.session ∧ Fills middle.store.size rule.rhs meanings ∧
      ∀ m ∈ meanings, m.In .loose middle.store := by
  obtain ⟨parts, -, -, found⟩ := prepares
  obtain ⟨_, heard, noise, ended⟩ := ok_of_bind found
  obtain ⟨closed, early, -⟩ := (frames_noise loose.closed _).of_ok noise
  obtain ⟨closed, late, yields, finite⟩ :=
    (parts.adds_meanings (Automaton.dumpless other).1 (loose.grow early closed)).of_ok ended
  have kept : session.Kept middle.session := early.trans late
  exact ⟨loose.grow kept closed, kept, yields.fills, finite⟩

/-- A line that appends to a list something from which the list is reached ties the list to itself. -/
theorem SelfAppends.not_acyclic (selfAppends : session.SelfAppends s line) (loose : session.Loose) :
    ¬ (session.step s line).2.Acyclic := by
  obtain ⟨word, dot, id, second, item, cell, middle, prepares, bound, reaches, -⟩ := selfAppends
  obtain ⟨looseMiddle, kept, -⟩ := prepares.finite (by decide) loose
  have known : middle.bindings.find? id.text = some (.list cell) :=
    (congrArg (Bindings.find? · id.text) kept.bindings_eq).trans bound
  have done : ofRule s .append [.token word, .token dot, .token id, .token second, .term item] middle =
      .ok (.done (some (.list cell))) { middle with store := middle.store.append cell item } :=
    bind_of_ok (append_of_list item known)
  rw [step_of_ok ((prepares.evaluation_eq rfl (by decide)).trans (bind_of_ok done))]
  intro acyclic
  have old : cell < middle.store.size := (Term.among_list.1 (looseMiddle.bindings id.text _ known)).1
  exact Store.not_untied_append old reaches (acyclic id.text _ known)

/-- A statement that succeeds leaves the variables standing for finite terms, or it appends to a list something
from which the list is reached. -/
theorem Prepares.loose_or_selfAppends {rule : Rule} {meanings : List Meaning} {middle after : World}
    (prepares : session.Prepares s line rule meanings middle) (statement : rule.lhs = .statement)
    (other : rule ≠ .dump) (loose : session.Loose) {m : Meaning}
    (done : ofRule s rule meanings middle = .ok m after) : after.session.Loose ∨ session.SelfAppends s line := by
  have ended := (prepares.evaluation_eq statement other).trans (bind_of_ok done)
  obtain ⟨looseMiddle, kept, fills, finite⟩ := prepares.finite other loose
  have closed := looseMiddle.closed
  cases rule with
  | print =>
    obtain ⟨_, _, rfl, t, _, rfl, within, rfl⟩ := fills
    obtain ⟨_, _, printed, ⟨⟩⟩ := ok_of_bind done
    obtain ⟨closed, grows, -⟩ := (frames_print closed within).of_ok printed
    exact .inl (looseMiddle.grow grows closed)
  | assign =>
    obtain ⟨id, _, rfl, _, _, rfl, t, _, rfl, within, rfl⟩ := fills
    simp only [List.forall_mem_cons, Meaning.In] at finite
    obtain ⟨_, _, assigned, ⟨⟩⟩ := ok_of_bind done
    obtain ⟨closed, bound, grown⟩ := (commits_assign closed within).of_ok assigned
    exact .inl (looseMiddle.assign finite.2.2.1 bound grown closed)
  | append =>
    obtain ⟨word, _, rfl, dot, _, rfl, id, _, rfl, second, _, rfl, item, _, rfl, within, rfl⟩ := fills
    simp only [List.forall_mem_cons, Meaning.In] at finite
    obtain ⟨_, _, appended, ⟨⟩⟩ := ok_of_bind done
    obtain ⟨closed, same, cell, bound, changed⟩ := (commits_append closed within).of_ok appended
    by_cases reaches : middle.store.Reaches item cell
    · rw [append_of_list item bound] at appended
      cases appended
      have known : session.bindings.find? id.text = some (.list cell) :=
        (congrArg (Bindings.find? · id.text) kept.bindings_eq).symm.trans bound
      refine .inr ⟨word, dot, id, second, item, cell, middle, prepares, known, reaches, ?_⟩
      rw [step_of_ok ended]
      rfl
    · exact .inl (looseMiddle.append finite.2.2.2.2.1 reaches same changed closed)
  | dump => exact absurd rfl other
  | _ => exact absurd statement (by decide)

/-- A line that is one statement leaves the variables standing for finite terms, or it appends to a list
something from which the list is reached. -/
theorem Loose.step (loose : session.Loose) (sentence : Sentence ((Scan.ofText line).tokens.map Token.kind)) :
    (session.step s line).2.Loose ∨ session.SelfAppends s line := by
  have closed := loose.closed.step s line
  let w : World := ⟨session.bindings, session.store, #[]⟩
  obtain ⟨failed, succeeded⟩ := loose.closed.step_effects s sentence
  have tokens := Piece.token_split (Scan.ofText line).items
  cases ended : evaluation s line w with
  | error e after =>
    have result : (session.step s line).1.result = .error e := by
      unfold Session.step run
      rw [ended]
    exact .inl (loose.grow (failed e result) closed)
  | ok result after =>
    have reply := step_of_ok ended
    have pieced : Sentence ((Piece.split (Scan.ofText line).items).2.map Piece.kind) := by
      rw [Scan.tokens, ← tokens, List.map_map] at sentence
      exact sentence
    rcases Derivation.exists_statement pieced with
      ⟨p, single, is⟩ | ⟨rule, statement, other, parts, pieces, fits⟩
    · obtain ⟨command, given, effect⟩ := succeeded result (congrArg (·.1.result) reply)
      rw [Scan.tokens, ← tokens, single] at given
      simp only [List.map_cons, Command.ofTokens, show p.token.kind = .dumpWord from is] at given
      cases given
      exact .inl (loose.grow effect closed)
    · rw [evaluation_of_parts statement other fits pieces] at ended
      obtain ⟨meanings, middle, found, rest⟩ := ok_of_bind ended
      obtain ⟨m, last, done, ⟨⟩⟩ := ok_of_bind rest
      rw [reply]
      exact Prepares.loose_or_selfAppends ⟨parts, fits, pieces, found⟩ statement other loose done

end Session

/-- Where no list that the variables reach holds itself, a line that is one statement makes one do so exactly
if it is an append that succeeds, of an item from which the list it is appended to is reached. After every
other line, failing ones included, there is still none, and the texts of the variables come to an end. -/
theorem knot_iff_self_append {session : Session} (reachable : session.Reachable) (acyclic : session.Acyclic)
    (s : Settings) {line : String} (sentence : Sentence ((Scan.ofText line).tokens.map Token.kind)) :
    (¬ (session.step s line).2.Acyclic ↔ session.SelfAppends s line) ∧
      (¬ session.SelfAppends s line → (session.step s line).2.Acyclic ∧
        ∀ id t, (session.step s line).2.bindings.find? id = some t → ∃ enough, ∀ depth, enough ≤ depth →
          Ending (t.printed (session.step s line).2.store depth) ∧
            Ending (t.dumped (session.step s line).2.store depth)) := by
  have loose := reachable.closed.loose acyclic
  have after := loose.step (s := s) sentence
  refine ⟨⟨fun tied => ?_, fun selfAppends => selfAppends.not_acyclic loose⟩, fun other => ?_⟩
  · exact after.resolve_left fun loose => tied loose.acyclic
  · have loose := after.resolve_right other
    exact ⟨loose.acyclic, fun id t found => loose.ending_texts found⟩

/-- A list of one number holds nothing of itself until it is appended to itself. -/
theorem knot_of_list : ∃ session : Session,
    session = (Session.fresh.step ⟨false, Session.usualDepth⟩ "x := [1]").2 ∧ session.Reachable ∧
      session.Acyclic ∧ Sentence ((Scan.ofText "append . x . x").tokens.map Token.kind) ∧
      ¬ (session.step ⟨false, Session.usualDepth⟩ "append . x . x").2.Acyclic ∧
      session.SelfAppends ⟨false, Session.usualDepth⟩ "append . x . x" := by
  have unbound : Session.fresh.Acyclic := fun _ _ found => nomatch found
  have made : Sentence ((Scan.ofText "x := [1]").tokens.map Token.kind) := by
    have kinds : (Scan.ofText "x := [1]").tokens.map Token.kind =
        [.identifier, .assign, .leftBracket, .number, .rightBracket] := by decide +kernel
    let front : List Symbol := [.terminal .identifier, .terminal .assign]
    let inner : List Symbol := front ++ [.terminal .leftBracket]
    rw [kinds]
    exact .head (.step [] .assign []) (.head (.step front .lastInChain [])
      (.head (.step front .listExpr []) (.head (.step front .listOf [])
        (.head (.step inner .lastItem [.terminal .rightBracket])
          (.head (.step inner .termExpr [.terminal .rightBracket])
            (.head (.step inner .factorTerm [.terminal .rightBracket])
              (.head (.step inner .number [.terminal .rightBracket]) .refl)))))))
  have appended : Sentence ((Scan.ofText "append . x . x").tokens.map Token.kind) := by
    have kinds : (Scan.ofText "append . x . x").tokens.map Token.kind =
        [.appendWord, .dot, .identifier, .dot, .identifier] := by decide +kernel
    let front : List Symbol :=
      [.terminal .appendWord, .terminal .dot, .terminal .identifier, .terminal .dot]
    rw [kinds]
    exact .head (.step [] .append []) (.head (.step front .termExpr [])
      (.head (.step front .factorTerm []) (.head (.step front .name []) .refl)))
  have silent : ((Session.fresh.step ⟨false, Session.usualDepth⟩ "x := [1]").1.result.toOption.bind
      id).isNone = true := by decide +kernel
  have held : (((Session.fresh.step ⟨false, Session.usualDepth⟩ "x := [1]").2.step
      ⟨false, Session.usualDepth⟩ "append . x . x").2.bindings.find? "x").map Term.cells = some [0] := by
    decide +kernel
  have holds : ((((Session.fresh.step ⟨false, Session.usualDepth⟩ "x := [1]").2.step
      ⟨false, Session.usualDepth⟩ "append . x . x").2.store.items 0).map Term.cells) = [[], [0]] := by
    decide +kernel
  have acyclic : (Session.fresh.step ⟨false, Session.usualDepth⟩ "x := [1]").2.Acyclic := by
    refine ((knot_iff_self_append .fresh unbound ⟨false, Session.usualDepth⟩ made).2 ?_).1
    rintro ⟨_, _, _, _, _, _, _, -, -, -, result⟩
    rw [result] at silent
    cases silent
  have reachable := Session.Reachable.step .fresh ⟨false, Session.usualDepth⟩ "x := [1]"
  generalize same : (Session.fresh.step ⟨false, Session.usualDepth⟩ "x := [1]").2 = session
    at acyclic reachable held holds
  have tied : ¬ (session.step ⟨false, Session.usualDepth⟩ "append . x . x").2.Acyclic := by
    generalize (session.step ⟨false, Session.usualDepth⟩ "append . x . x").2 = after at held holds
    obtain ⟨t, found, itself⟩ := Option.map_eq_some_iff.1 held
    obtain ⟨item, member, again⟩ := List.mem_map.1 (show [0] ∈ (after.store.items 0).map Term.cells by
      rw [holds]
      exact List.mem_cons_of_mem _ (List.mem_singleton_self _))
    intro acyclic
    exact acyclic "x" t found 0 (.here (by simp [itself])) item member (.here (by simp [again]))
  exact ⟨session, rfl, reachable, acyclic, appended, tied,
    (knot_iff_self_append reachable acyclic ⟨false, Session.usualDepth⟩ appended).1.1 tied⟩

end DotLambda
