import DotLambda.Proofs.Derivation
import DotLambda.Proofs.Walk

/-!
Runs of the parser along a derivation. A derivation fits if the automaton uses each of its rules at the
place where the derivation does. Main statement: along a derivation that fits, the parser does what a
recursion over the derivation does, from left to right and a phrase after its parts.
-/

namespace DotLambda

open Parse

variable {m : Type → Type} [Monad m] {α : Type}

/-- What is done about noise. -/
def Noise.heard (r : Reading m α) : Noise → m Unit
  | stray character line => r.stray character line
  | overlong digits => r.overlong digits

namespace Piece

/-- The kind of the first token of pieces. -/
def opening (pieces : List Piece) : Option Kind := pieces.head?.map kind

theorem opening_append (front back : List Piece) :
    opening (front ++ back) = (opening front).or (opening back) := by
  cases front <;> simp [opening]

end Piece

namespace Derivation

/-- A derivation that the automaton finds when a token of some kind follows, or the end of the input: it
uses every rule before the token that stands behind the rule's pieces. -/
def Fits : {symbols : List Symbol} → Derivation symbols → (follower : Option Kind) → Prop
  | _, nil, _ => True
  | _, read _ _ rest, follower => rest.Fits follower
  | _, use rule _ parts rest, follower =>
    parts.Fits ((Piece.opening rest.pieces).or follower) ∧
      Automaton.Reduces rule ((Piece.opening rest.pieces).or follower) ∧ rest.Fits follower

/-- The meanings of the symbols of a derivation, found from left to right, each phrase after its parts. -/
def meanings (r : Reading m α) : {symbols : List Symbol} → Derivation symbols → m (List α)
  | _, nil => pure []
  | _, read p _ rest => do
    p.gap.forM (Noise.heard r)
    let others ← rest.meanings r
    pure (r.leaf p.token :: others)
  | _, use rule _ parts rest => do
    let inner ← parts.meanings r
    let meaning ← r.reduce rule inner
    let others ← rest.meanings r
    pure (meaning :: others)

theorem fits_append {front back : List Symbol} (d : Derivation front) (after : Derivation back)
    (follower : Option Kind) : (d.append after).Fits follower ↔
      d.Fits ((Piece.opening after.pieces).or follower) ∧ after.Fits follower := by
  induction d with
  | nil => simp [append, Fits]
  | read p is rest ih => simp [append, Fits, ih]
  | use rule forms parts rest partsIh ih =>
    simp only [append, Fits, ih, pieces_append, Piece.opening_append, Option.or_assoc, and_assoc]

theorem meanings_append [LawfulMonad m] (r : Reading m α) {front back : List Symbol}
    (d : Derivation front) (after : Derivation back) :
    (d.append after).meanings r = (do
      let first ← d.meanings r
      let others ← after.meanings r
      pure (first ++ others)) := by
  induction d with
  | nil => simp [append, meanings]
  | read p is rest ih => simp [append, meanings, ih]
  | use rule forms parts rest partsIh ih => simp [append, meanings, ih]

/-- Only a whole statement is a dump. -/
theorem kind_ne_dumpWord {symbols : List Symbol} (d : Derivation symbols)
    (noStatement : Symbol.nonterminal .statement ∉ symbols)
    (noDump : Symbol.terminal .dumpWord ∉ symbols) :
    ∀ p ∈ d.pieces, p.kind ≠ .dumpWord := by
  induction d with
  | nil => simp [pieces]
  | read p is rest ih =>
    simp only [List.mem_cons, not_or] at noStatement noDump
    simp only [pieces, List.mem_cons, forall_eq_or_imp]
    refine ⟨?_, ih noStatement.2 noDump.2⟩
    rintro same
    exact noDump.1 (by rw [← is, same])
  | use rule forms parts rest partsIh ih =>
    simp only [List.mem_cons, not_or] at noStatement noDump
    have noDumpRule : rule ≠ .dump := by
      rintro rfl
      exact noStatement.1 (by rw [← forms, Rule.lhs])
    obtain ⟨inner, innerDump⟩ := Automaton.dumpless noDumpRule
    intro p member
    rcases List.mem_append.1 member with front | back
    · exact partsIh inner innerDump p front
    · exact ih noStatement.2 noDump.2 p back

/-- Each symbol has one meaning. -/
theorem meanings_bind_congr [LawfulMonad m] {β : Type} (r : Reading m α) {symbols : List Symbol}
    (d : Derivation symbols) {f g : List α → m β}
    (same : ∀ ms, ms.length = symbols.length → f ms = g ms) :
    d.meanings r >>= f = d.meanings r >>= g := by
  induction d generalizing f g with
  | nil => simp [meanings, same]
  | read p is rest ih =>
    simp only [meanings, bind_assoc, pure_bind]
    congr 1
    funext _
    exact ih fun ms length => same _ (by simp [length])
  | use rule forms parts rest partsIh ih =>
    simp only [meanings, bind_assoc, pure_bind]
    congr 1
    funext inner
    congr 1
    funext meaning
    exact ih fun ms length => same _ (by simp [length])

end Derivation

namespace Parse

/-! ## To the end of a parse -/

/-- More moves than the configuration weighs make no difference. -/
theorem run_eq_run (r : Reading m α) (some other : Nat) (c : Configuration α)
    (enough : c.weight < some) (alsoEnough : c.weight < other) : run r some c = run r other c := by
  induction some generalizing other c with
  | zero => omega
  | succ moves ih =>
    obtain ⟨others, rfl⟩ : ∃ others, other = others + 1 := ⟨other - 1, by omega⟩
    have lighter := c.move_below r.leaf
    simp only [run]
    cases moved : c.move r.leaf with
    | advance after | stray _ _ after | overlong _ after | recover _ _ after =>
      rw [moved] at lighter
      simp only [Move.Below] at lighter
      simp only [ih others after (by omega) (by omega)]
    | reduce rule meanings state after =>
      rw [moved] at lighter
      simp only [Move.Below] at lighter
      show r.reduce rule meanings >>= _ = r.reduce rule meanings >>= _
      congr 1
      funext meaning
      have := lighter meaning
      exact ih others _ (by omega) (by omega)
    | accept _ | reject _ | stuck => rfl

/-- Parses to the end. -/
def finish (r : Reading m α) (c : Configuration α) : m (Outcome α) := run r (c.weight + 1) c

theorem parse_eq_finish (r : Reading m α) (items : List Item) :
    parse r items = finish r (.start items) := rfl

section Moves

variable {r : Reading m α} {c after : Configuration α}

theorem finish_advance (moved : c.move r.leaf = .advance after) : finish r c = finish r after := by
  have lighter := c.move_below r.leaf
  rw [moved] at lighter
  rw [finish, run, moved]
  exact run_eq_run r _ _ after lighter (Nat.lt_succ_self _)

theorem finish_stray {character : Char} {line : Nat}
    (moved : c.move r.leaf = .stray character line after) :
    finish r c = (do r.stray character line; finish r after) := by
  have lighter := c.move_below r.leaf
  rw [moved] at lighter
  rw [finish, run, moved]
  simp only [finish, run_eq_run r _ _ after lighter (Nat.lt_succ_self _)]

theorem finish_overlong {digits : Nat} (moved : c.move r.leaf = .overlong digits after) :
    finish r c = (do r.overlong digits; finish r after) := by
  have lighter := c.move_below r.leaf
  rw [moved] at lighter
  rw [finish, run, moved]
  simp only [finish, run_eq_run r _ _ after lighter (Nat.lt_succ_self _)]

theorem finish_reduce {rule : Rule} {meanings : List α} {state : Nat}
    (moved : c.move r.leaf = .reduce rule meanings state after) :
    finish r c = (do
      let meaning ← r.reduce rule meanings
      finish r (after.push (.nonterminal rule.lhs) state meaning)) := by
  have lighter := c.move_below r.leaf
  rw [moved] at lighter
  rw [finish, run, moved]
  simp only [finish]
  congr 1
  funext meaning
  exact run_eq_run r _ _ _ (lighter meaning) (Nat.lt_succ_self _)

theorem finish_accept {meaning : α} (moved : c.move r.leaf = .accept meaning) :
    finish r c = pure (.accepted meaning) := by
  rw [finish, run, moved]

end Moves

/-! ## Along a derivation -/

namespace Configuration

/-- The configuration that has pieces before it and has looked at the first of them. -/
def facing (stack : List (Frame α)) (grace : Nat) : List Piece → Configuration α
  | [] => ⟨stack, .finished, [], grace⟩
  | p :: rest => ⟨stack, .token p.token, p.gap.map Noise.item ++ rest.flatMap Piece.items, grace⟩

/-- The stack after some symbols with their meanings. -/
def pushed (stack : List (Frame α)) : List Symbol → List α → List (Frame α)
  | s :: symbols, meaning :: meanings =>
    pushed (⟨s, (Automaton.next? (stateOf stack) s).getD 0, meaning⟩ :: stack) symbols meanings
  | _, _ => stack

theorem stateOf_pushed {stack : List (Frame α)} {symbols : List Symbol} {meanings : List α}
    {target : Nat} (walked : Automaton.walk (stateOf stack) symbols = some target)
    (length : meanings.length = symbols.length) :
    stateOf (pushed stack symbols meanings) = target := by
  induction symbols generalizing stack meanings with
  | nil => simpa [pushed, Automaton.walk] using walked
  | cons s symbols ih =>
    obtain ⟨meaning, others, rfl⟩ := List.exists_cons_of_length_eq_add_one length
    obtain ⟨state, first, rest⟩ := Option.bind_eq_some_iff.1 walked
    simp only [pushed, first, Option.getD_some]
    exact ih rest (by simpa using length)

theorem exists_pushed_eq (stack : List (Frame α)) {symbols : List Symbol} {meanings : List α}
    (length : meanings.length = symbols.length) :
    ∃ frames : List (Frame α), pushed stack symbols meanings = frames.reverse ++ stack ∧
      frames.map Frame.symbol = symbols ∧ frames.map Frame.meaning = meanings := by
  induction symbols generalizing stack meanings with
  | nil =>
    obtain rfl := List.length_eq_zero_iff.1 length
    exact ⟨[], rfl, rfl, rfl⟩
  | cons s symbols ih =>
    obtain ⟨meaning, others, rfl⟩ := List.exists_cons_of_length_eq_add_one length
    let frame : Frame α := ⟨s, (Automaton.next? (stateOf stack) s).getD 0, meaning⟩
    obtain ⟨frames, same, names, contents⟩ := @ih (frame :: stack) others (by simpa using length)
    exact ⟨frame :: frames, by simpa [pushed] using same, by simp [names, frame],
      by simp [contents, frame]⟩

/-- What has been pushed can be taken back. -/
theorem pop?_pushed (stack : List (Frame α)) {symbols : List Symbol} {meanings : List α}
    (length : meanings.length = symbols.length) :
    pop? symbols (pushed stack symbols meanings) = some (meanings, stack) := by
  obtain ⟨frames, same, names, contents⟩ := exists_pushed_eq stack length
  have count : frames.length = symbols.length := by rw [← names, List.length_map]
  simp [pop?, same, ← count, names, contents]

end Configuration

open Parse.Configuration

/-- A complete rule is used before the token that calls for it. -/
theorem finish_use (r : Reading m α) {stack : List (Frame α)} {rule : Rule} {meanings : List α}
    {grace target : Nat} (after : List Piece) (length : meanings.length = rule.rhs.length)
    (awaited : Automaton.goto? (stateOf stack) rule.lhs = some target)
    (reduces : Automaton.Reduces rule (Piece.opening after)) :
    finish r (facing (pushed stack rule.rhs meanings) grace after) = (do
      let meaning ← r.reduce rule meanings
      finish r (facing (⟨.nonterminal rule.lhs, target, meaning⟩ :: stack) grace after)) := by
  let c : Configuration α := facing (pushed stack rule.rhs meanings) grace after
  have current : c.state = Automaton.complete rule := by
    have walked := stateOf_pushed (Automaton.walk_rhs awaited) length
    cases after <;> exact walked
  have popped : c.reduction rule = .reduce rule meanings target { c with stack } := by
    have taken := pop?_pushed stack length
    cases after <;> simp [reduction, c, facing, taken, awaited]
  have moved : c.move r.leaf = .reduce rule meanings target { c with stack } := by
    rw [← popped, move, current]
    cases unseen : Automaton.default? (Automaton.complete rule) with
    | some used => rw [Automaton.default?_eq_of_reduce unseen reduces]
    | none =>
      simp only [Automaton.Reduces] at reduces
      cases after with
      | nil =>
        have reduces : Automaton.action? c.state none = some (.reduce rule) := current ▸ reduces
        simp [c, facing, atEnd] at reduces ⊢
        simp [reduces]
      | cons p rest =>
        have reduces : Automaton.action? c.state (some p.token.kind) = some (.reduce rule) :=
          current ▸ reduces
        simp [c, facing, before] at reduces ⊢
        simp [reduces]
  rw [finish_reduce moved]
  cases after <;> rfl

theorem finish_statement (r : Reading m α) (grace : Nat) (meaning : α) :
    finish r (facing [⟨.nonterminal .statement, Automaton.accepting, meaning⟩] grace []) =
      pure (.accepted meaning) :=
  finish_accept rfl

variable [LawfulMonad m]

/-- Looking deals with the noise before the next token. -/
theorem finish_unread (r : Reading m α) {stack : List (Frame α)} {grace : Nat} (gap : List Noise)
    (pieces : List Piece) (looks : Automaton.default? (stateOf stack) = none) :
    finish r ⟨stack, .unread, gap.map Noise.item ++ pieces.flatMap Piece.items, grace⟩ =
      (do gap.forM (Noise.heard r); finish r (facing stack grace pieces)) := by
  induction gap with
  | nil =>
    have moved : Configuration.move r.leaf ⟨stack, .unread, pieces.flatMap Piece.items, grace⟩ =
        .advance (facing stack grace pieces) := by
      cases pieces <;> simp [move, state, looks, look, facing, Piece.items]
    simpa using finish_advance moved
  | cons noise gap ih =>
    let after : Configuration α :=
      ⟨stack, .unread, gap.map Noise.item ++ pieces.flatMap Piece.items, grace⟩
    cases noise with
    | stray character line =>
      have moved : Configuration.move r.leaf
          ⟨stack, .unread, .stray character line :: after.rest, grace⟩ =
          .stray character line after := by
        simp [move, state, looks, look, after]
      simpa [ih, Noise.heard, Noise.item, after] using finish_stray moved
    | overlong digits =>
      have moved : Configuration.move r.leaf ⟨stack, .unread, .overlong digits :: after.rest, grace⟩ =
          .overlong digits after := by
        simp [move, state, looks, look, after]
      simpa [ih, Noise.heard, Noise.item, after] using finish_overlong moved

/-- Reading a token deals with the noise after it. -/
theorem finish_read (r : Reading m α) {stack : List (Frame α)} {grace target : Nat} (p : Piece)
    (after : List Piece) (looks : Automaton.default? (stateOf stack) = none)
    (reads : Automaton.next? (stateOf stack) (.terminal p.kind) = some target)
    (other : p.kind ≠ .dumpWord) :
    finish r (facing stack grace (p :: after)) = (do
      p.gap.forM (Noise.heard r)
      finish r (facing (⟨.terminal p.kind, target, r.leaf p.token⟩ :: stack) (grace - 1) after)) := by
  have moved : (facing stack grace (p :: after)).move r.leaf =
      .advance (shift r.leaf p.token target (facing stack grace (p :: after))) := by
    have shifts := Automaton.action?_shift reads
    simp only [Piece.kind] at shifts
    simp [move, state, facing, looks, before, shifts]
  rw [finish_advance moved]
  exact finish_unread r p.gap after (Automaton.default?_shift reads other)

/-- Along a derivation that fits, the parser finds the meanings of its symbols. -/
theorem finish_derivation (r : Reading m α) {symbols : List Symbol} (d : Derivation symbols)
    {stack : List (Frame α)} {grace target : Nat} (after : List Piece)
    (walked : Automaton.walk (stateOf stack) symbols = some target)
    (fits : d.Fits (Piece.opening after)) (other : ∀ p ∈ d.pieces, p.kind ≠ .dumpWord) :
    finish r (facing stack grace (d.pieces ++ after)) = (do
      let meanings ← d.meanings r
      finish r (facing (pushed stack symbols meanings) (grace - d.pieces.length) after)) := by
  induction d generalizing stack grace target after with
  | nil => simp [Derivation.pieces, Derivation.meanings, pushed]
  | read p is rest ih =>
    subst is
    obtain ⟨state, reads, onward⟩ := Option.bind_eq_some_iff.1 walked
    have looks := Automaton.default?_eq_none_of_shift reads
    simp only [Derivation.pieces, List.mem_cons, forall_eq_or_imp] at other
    simp only [Derivation.pieces, Derivation.meanings, List.cons_append, bind_assoc, pure_bind]
    rw [finish_read r p _ looks reads other.1]
    congr 1
    funext _
    have later := @ih (⟨.terminal p.kind, state, r.leaf p.token⟩ :: stack) (grace - 1) target after
      onward fits other.2
    rw [later]
    simp [pushed, reads, Nat.sub_sub, Nat.add_comm]
  | use rule forms parts rest partsIh ih =>
    subst forms
    obtain ⟨state, awaited, onward⟩ := Option.bind_eq_some_iff.1 walked
    obtain ⟨partsFit, reduces, restFits⟩ := fits
    rw [← Piece.opening_append] at partsFit reduces
    simp only [Derivation.pieces, List.mem_append] at other
    simp only [Derivation.pieces, Derivation.meanings, List.append_assoc, bind_assoc, pure_bind]
    rw [partsIh _ (Automaton.walk_rhs awaited) partsFit fun p member => other p (.inl member)]
    refine Derivation.meanings_bind_congr r parts fun inner length => ?_
    rw [finish_use r _ length awaited reduces]
    congr 1
    funext meaning
    have later := @ih (⟨.nonterminal rule.lhs, state, meaning⟩ :: stack) (grace - parts.pieces.length)
      target after onward restFits fun p member => other p (.inr member)
    have next : Automaton.next? (stateOf stack) (.nonterminal rule.lhs) = some state := awaited
    rw [later]
    simp [pushed, next, Nat.sub_sub]

/-! ## Whole statements -/

/-- The meaning of a statement is found after that of its parts, and after the noise before it. -/
theorem parse_statement (r : Reading m α) (noise : List Noise) {rule : Rule}
    (forms : rule.lhs = .statement) (other : rule ≠ .dump) (parts : Derivation rule.rhs)
    (fits : parts.Fits none) :
    parse r (noise.map Noise.item ++ parts.pieces.flatMap Piece.items) = (do
      noise.forM (Noise.heard r)
      let inner ← parts.meanings r
      let meaning ← r.reduce rule inner
      pure (.accepted meaning)) := by
  let d : Derivation [.nonterminal .statement] := .use rule forms parts .nil
  have pieces : d.pieces = parts.pieces := List.append_nil _
  have reduces : Automaton.Reduces rule none :=
    Automaton.reduces_of_mem_closers (by rw [forms]; exact List.mem_singleton_self _)
  obtain ⟨noStatement, noDump⟩ := Automaton.dumpless other
  have along : finish r (facing [] 0 parts.pieces) = (do
      let meanings ← d.meanings r
      finish r (facing (pushed [] [.nonterminal .statement] meanings) 0 [])) := by
    have whole := @finish_derivation m _ α _ r _ d [] 0 Automaton.accepting [] rfl
      ⟨fits, reduces, trivial⟩ (by rw [pieces]; exact parts.kind_ne_dumpWord noStatement noDump)
    simpa [pieces] using whole
  rw [parse_eq_finish, Configuration.start, finish_unread r noise parts.pieces rfl, along]
  simp only [d, Derivation.meanings, bind_assoc, pure_bind]
  rfl

/-- A dump is done before the noise behind it. -/
theorem parse_dump (r : Reading m α) (noise : List Noise) (p : Piece) (is : p.kind = .dumpWord) :
    parse r (noise.map Noise.item ++ p.items) = (do
      noise.forM (Noise.heard r)
      let meaning ← r.reduce .dump [r.leaf p.token]
      p.gap.forM (Noise.heard r)
      pure (.accepted meaning)) := by
  let read : Configuration α :=
    ⟨[⟨.terminal .dumpWord, 4, r.leaf p.token⟩], .unread, p.gap.map Noise.item, 0⟩
  have shifted : (facing [] 0 [p]).move r.leaf = .advance read := by
    simp only [Piece.kind] at is
    simp [move, facing, before, is, read, shift, state, stateOf]
    rfl
  have reduced : read.move r.leaf =
      .reduce .dump [r.leaf p.token] Automaton.accepting { read with stack := [] } := rfl
  have opened : parse r (noise.map Noise.item ++ p.items) = (do
      noise.forM (Noise.heard r)
      finish r (facing [] 0 [p])) := by
    have start := @finish_unread m _ α _ r [] 0 noise [p] rfl
    simpa [parse_eq_finish, Configuration.start] using start
  rw [opened, finish_advance shifted, finish_reduce reduced]
  congr 1
  funext _
  congr 1
  funext meaning
  have closed := @finish_unread m _ α _ r
    [⟨.nonterminal .statement, Automaton.accepting, meaning⟩] 0 p.gap [] rfl
  simpa [finish_statement, read, push, Rule.lhs] using closed

end Parse

end DotLambda
