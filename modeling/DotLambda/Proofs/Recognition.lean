import DotLambda.Proofs.Rearrangement

/-!
Which lines the parser accepts. Whatever it accepts is a sentence, since every move undoes a step of
rewriting or none; and every sentence is accepted, since its derivation can be rearranged for the
automaton. Main statement: the parser accepts a line without reporting an error exactly if its tokens make
one statement.
-/

namespace DotLambda

open Parse

variable {α : Type}

/-- A parse in which every phrase gets some meaning and which fails at the first report of an error. -/
def recognizer (leaf : Token → α) (reduce : Rule → List α → α) : Reading Option α where
  leaf := leaf
  reduce rule meanings := some (reduce rule meanings)
  stray _ _ := some ()
  overlong _ := some ()
  report _ := none

section

variable (leaf : Token → α) (reduce : Rule → List α → α)

@[simp] theorem recognizer_leaf : (recognizer leaf reduce).leaf = leaf := rfl

@[simp] theorem recognizer_reduce (rule : Rule) (meanings : List α) :
    (recognizer leaf reduce).reduce rule meanings = some (reduce rule meanings) := rfl

@[simp] theorem recognizer_heard (gap : List Noise) :
    forM gap (Noise.heard (recognizer leaf reduce)) = some () := by
  induction gap with
  | nil => rfl
  | cons noise gap ih => cases noise <;> exact ih

end

/-! ## Whatever is accepted is a sentence -/

namespace Automaton

private theorem accepting_inside : ∀ state < rows.size,
    (∀ entry ∈ (row state).shifts, entry.2 ≠ 0 ∧ entry.2 ≠ accepting) ∧
      ∀ entry ∈ (row state).gotos, entry.2 ≠ 0 ∧
        (entry.2 = accepting → state = 0 ∧ entry.1 = .statement) := by
  decide +kernel

/-- No symbol leads back to the start, and only a statement at the start leads to acceptance. -/
theorem next?_accepting {state target : Nat} {s : Symbol} (onward : next? state s = some target) :
    target ≠ 0 ∧ (target = accepting → state = 0 ∧ s = .nonterminal .statement) := by
  by_cases inside : state < rows.size
  · obtain ⟨shifts, gotos⟩ := accepting_inside state inside
    cases s with
    | terminal kind =>
      obtain ⟨front, back, found, -⟩ := List.lookup_eq_some_iff.1 onward
      have away := shifts (kind, target) (by simp [found])
      exact ⟨away.1, fun same => absurd same away.2⟩
    | nonterminal phrase =>
      obtain ⟨front, back, found, -⟩ := List.lookup_eq_some_iff.1 onward
      have away := gotos (phrase, target) (by simp [found])
      exact ⟨away.1, fun same => ⟨(away.2 same).1, congrArg _ (away.2 same).2⟩⟩
  · cases s <;> simp [next?, goto?, row_of_le (Nat.le_of_not_lt inside)] at onward

theorem next?_of_shift {state target : Nat} {kind : Kind}
    (shifts : action? state (some kind) = some (.shift target)) :
    next? state (.terminal kind) = some target := by
  simp only [action?, Option.bind_some, reduceCtorEq, and_false, if_false] at shifts
  split at shifts
  · rename_i found
    simpa [next?, found] using shifts
  · split at shifts
    · split at shifts <;> simp at shifts
    · simp at shifts

theorem eq_accepting {state : Nat} {next : Option Kind} (accepts : action? state next = some .accept) :
    state = accepting := by
  unfold action? at accepts
  split at accepts
  · rename_i atEnd
    exact atEnd.1
  · split at accepts
    · simp at accepts
    · split at accepts
      · split at accepts <;> simp at accepts
      · simp at accepts

end Automaton

namespace Parse.Configuration

/-- The state of every frame is the one to which its symbol leads. -/
def Walked : List (Frame α) → Prop
  | [] => True
  | frame :: rest => Automaton.next? (stateOf rest) frame.symbol = some frame.state ∧ Walked rest

theorem Walked.drop {stack : List (Frame α)} (walked : Walked stack) (n : Nat) :
    Walked (stack.drop n) := by
  induction n generalizing stack with
  | zero => exact walked
  | succ n ih =>
    cases stack with
    | nil => trivial
    | cons frame rest => exact ih walked.2

/-- A stack whose top accepts holds one statement and nothing else. -/
theorem Walked.eq_statement {frame : Frame α} {rest : List (Frame α)}
    (walked : Walked (frame :: rest)) (accepts : frame.state = Automaton.accepting) :
    frame.symbol = .nonterminal .statement ∧ rest = [] := by
  have last := Automaton.next?_accepting walked.1
  obtain ⟨start, symbol⟩ := last.2 accepts
  refine ⟨symbol, ?_⟩
  cases rest with
  | nil => rfl
  | cons below deeper => exact absurd start (Automaton.next?_accepting walked.2.1).1

/-- The tokens that have not been read. -/
def remaining (c : Configuration α) : List Kind :=
  (match c.next with
  | .token t => [t.kind]
  | .unread | .finished => []) ++ (c.rest.filterMap Item.token?).map Token.kind

/-- The symbols that have been read, and those of the tokens that have not. -/
def form (c : Configuration α) : List Symbol :=
  (c.stack.map Frame.symbol).reverse ++ c.remaining.map .terminal

/-- A stage of a parse in which no error has been met. -/
structure Sound (c : Configuration α) : Prop where
  walked : Walked c.stack
  ended : c.next = .finished → c.rest = []
  grace : c.grace = 0

theorem sound_start (items : List Item) : (start items : Configuration α).Sound :=
  ⟨trivial, by simp [start], rfl⟩

/-- The symbols taken from a stack are those on top of it. -/
theorem symbols_of_pop? {symbols : List Symbol} {stack rest : List (Frame α)} {meanings : List α}
    (popped : pop? symbols stack = some (meanings, rest)) :
    rest = stack.drop symbols.length ∧
      (stack.map Frame.symbol).reverse = (rest.map Frame.symbol).reverse ++ symbols := by
  simp only [pop?] at popped
  split at popped
  · rename_i same
    simp only [Option.some.injEq, Prod.mk.injEq] at popped
    obtain ⟨-, rfl⟩ := popped
    refine ⟨rfl, ?_⟩
    calc (stack.map Frame.symbol).reverse
        = ((stack.take symbols.length ++ stack.drop symbols.length).map Frame.symbol).reverse := by
          rw [List.take_append_drop]
      _ = ((stack.drop symbols.length).map Frame.symbol).reverse ++
            (stack.take symbols.length).reverse.map Frame.symbol := by simp
      _ = ((stack.drop symbols.length).map Frame.symbol).reverse ++ symbols := by rw [same]
  · simp at popped

/-- Using a rule undoes a step of rewriting. -/
theorem Sound.reduction {c after : Configuration α} {rule used : Rule} {meanings : List α}
    {target : Nat} (sound : c.Sound) (moved : c.reduction rule = .reduce used meanings target after)
    (meaning : α) : (after.push (.nonterminal used.lhs) target meaning).Sound ∧
      Produces (after.push (.nonterminal used.lhs) target meaning).form c.form := by
  unfold Configuration.reduction at moved
  split at moved
  · simp at moved
  · rename_i taken stack popped
    split at moved
    · simp at moved
    · rename_i state awaited
      simp only [Move.reduce.injEq] at moved
      obtain ⟨rfl, rfl, rfl, rfl⟩ := moved
      obtain ⟨rfl, symbols⟩ := symbols_of_pop? popped
      refine ⟨⟨⟨awaited, sound.walked.drop _⟩, sound.ended, sound.grace⟩, ?_⟩
      have undone := Produces.step ((c.stack.drop rule.rhs.length).map Frame.symbol).reverse rule
        (c.remaining.map .terminal)
      rw [← symbols] at undone
      simpa [form, push, remaining] using undone

/-- What a move of a sound parse does to the symbols read and the tokens left: reading moves the border
between them, a rule undoes a step of rewriting, and an error is reported. -/
def Undoes (c : Configuration α) : Move α → Prop
  | .advance after | .stray _ _ after | .overlong _ after => after.Sound ∧ after.form = c.form
  | .reduce rule _ target after => ∀ meaning,
    (after.push (.nonterminal rule.lhs) target meaning).Sound ∧
      Produces (after.push (.nonterminal rule.lhs) target meaning).form c.form
  | .recover _ reported _ => reported = true
  | .accept _ => c.form = [.nonterminal .statement]
  | .reject _ | .stuck => True

theorem Sound.undoes_reduction {c : Configuration α} (sound : c.Sound) (rule : Rule) :
    c.Undoes (c.reduction rule) := by
  cases moved : c.reduction rule with
  | reduce used meanings target after => exact sound.reduction moved
  | stuck => trivial
  | _ =>
    unfold Configuration.reduction at moved
    split at moved
    · simp at moved
    · split at moved <;> simp at moved

theorem Sound.undoes_look {c : Configuration α} (sound : c.Sound) (unread : c.next = .unread) :
    c.Undoes c.look := by
  unfold look
  split
  · rename_i empty
    exact ⟨⟨sound.walked, fun _ => empty, sound.grace⟩, by simp [form, remaining, unread]⟩
  all_goals
    rename_i found
    refine ⟨⟨sound.walked, by simp [unread], sound.grace⟩, ?_⟩
    simp [form, remaining, unread, found, Item.token?, List.filterMap_cons]

theorem Sound.undoes_before {c : Configuration α} (sound : c.Sound) (leaf : Token → α) {t : Token}
    (seen : c.next = .token t) : c.Undoes (c.before leaf t) := by
  unfold before
  split
  · rename_i target shifts
    refine ⟨⟨⟨Automaton.next?_of_shift shifts, sound.walked⟩, by simp [shift], ?_⟩, ?_⟩
    · simp [shift, sound.grace]
    · simp [form, remaining, shift, seen]
  · exact sound.undoes_reduction _
  · trivial
  · simp [Undoes, sound.grace]

theorem Sound.undoes_atEnd {c : Configuration α} (sound : c.Sound) (finished : c.next = .finished) :
    c.Undoes c.atEnd := by
  unfold atEnd
  split
  · trivial
  · exact sound.undoes_reduction _
  · rename_i accepts
    split
    · trivial
    · rename_i frame rest found
      have top : frame.state = Automaton.accepting := by
        simpa [state, found, stateOf] using Automaton.eq_accepting accepts
      obtain ⟨symbol, rfl⟩ := Walked.eq_statement (found ▸ sound.walked) top
      simp [Undoes, form, remaining, found, finished, sound.ended finished, symbol]
  · trivial

theorem Sound.undoes_move {c : Configuration α} (sound : c.Sound) (leaf : Token → α) :
    c.Undoes (c.move leaf) := by
  unfold move
  split
  · exact sound.undoes_reduction _
  split
  · rename_i unread
    exact sound.undoes_look unread
  · rename_i seen
    exact sound.undoes_before leaf seen
  · rename_i finished
    exact sound.undoes_atEnd finished

end Parse.Configuration

/-- Whatever is accepted comes by rewriting from a statement. -/
theorem derives_of_run {leaf : Token → α} {reduce : Rule → List α → α} {meaning : α} {moves : Nat}
    {c : Configuration α} (sound : c.Sound)
    (accepted : run (recognizer leaf reduce) moves c = some (.accepted meaning)) :
    Derives [.nonterminal .statement] c.form := by
  induction moves generalizing c with
  | zero => simp [run] at accepted
  | succ moves ih =>
    have undone := sound.undoes_move leaf
    rw [run] at accepted
    cases moved : c.move leaf with
    | advance after | stray _ _ after | overlong _ after =>
      rw [moved] at undone
      simp only [recognizer, moved, Option.bind_eq_bind, Option.bind_some] at accepted
      rw [← undone.2]
      exact ih undone.1 accepted
    | reduce rule meanings target after =>
      rw [moved] at undone
      simp only [recognizer, moved, Option.bind_eq_bind, Option.bind_some] at accepted
      obtain ⟨soundAfter, step⟩ := undone (reduce rule meanings)
      exact .tail (ih soundAfter accepted) step
    | recover t reported after =>
      rw [moved] at undone
      simp [recognizer, moved, show reported = true from undone] at accepted
    | accept result =>
      rw [moved] at undone
      rw [show c.form = _ from undone]
      exact .refl
    | reject reported => cases reported <;> simp [recognizer, moved] at accepted
    | stuck => simp [recognizer, moved] at accepted

/-! ## Every sentence is accepted -/

namespace Derivation

/-- A sentence is a dump, or a derivation from the parts of another statement that the automaton finds. -/
theorem exists_statement {ps : List Piece} (sentence : Sentence (ps.map Piece.kind)) :
    (∃ p, ps = [p] ∧ p.kind = .dumpWord) ∨
      ∃ rule : Rule, rule.lhs = .statement ∧ rule ≠ .dump ∧
        ∃ parts : Derivation rule.rhs, parts.pieces = ps ∧ parts.Fits none := by
  rw [Sentence, List.map_map] at sentence
  obtain ⟨d, pieces⟩ := exists_of_derives sentence
  obtain ⟨other, settled, same⟩ := exists_settled d
  have fits := (settled_singleton other).1 settled none (by decide)
  cases other with
  | use rule forms parts rest =>
    cases rest with
    | nil =>
      obtain ⟨partsFit, -, -⟩ := fits
      have parted : parts.pieces = ps := by
        rw [← pieces, ← same]
        simp [Derivation.pieces]
      by_cases isDump : rule = .dump
      · subst isDump
        cases parts with
        | read p is rest =>
          cases rest with
          | nil => exact .inl ⟨p, parted.symm, is⟩
      · exact .inr ⟨rule, forms, isDump, parts, parted, partsFit⟩

theorem exists_meanings (leaf : Token → α) (reduce : Rule → List α → α) {symbols : List Symbol}
    (d : Derivation symbols) : ∃ meanings, d.meanings (recognizer leaf reduce) = some meanings := by
  induction d with
  | nil => exact ⟨[], rfl⟩
  | read p is rest ih =>
    obtain ⟨others, found⟩ := ih
    exact ⟨leaf p.token :: others, by simp [meanings, found]⟩
  | use rule forms parts rest partsIh ih =>
    obtain ⟨inner, innerFound⟩ := partsIh
    obtain ⟨others, found⟩ := ih
    exact ⟨reduce rule inner :: others, by simp [meanings, innerFound, found]⟩

end Derivation

/-- The parser accepts tokens without reporting an error exactly if they make one statement. -/
theorem accepts_iff_sentence (leaf : Token → α) (reduce : Rule → List α → α) (tokens : List Token) :
    (∃ meaning, parse (recognizer leaf reduce) (tokens.map .token) = some (.accepted meaning)) ↔
      Sentence (tokens.map Token.kind) := by
  constructor
  · rintro ⟨meaning, accepted⟩
    have derived := derives_of_run (Configuration.sound_start _) accepted
    simpa [Sentence, Configuration.form, Configuration.remaining, Configuration.start,
      List.filterMap_map, Function.comp_def, Item.token?] using derived
  · intro sentence
    have pieced : Sentence ((tokens.map Piece.bare).map Piece.kind) := by
      simpa [Function.comp_def, Piece.kind, Piece.bare] using sentence
    rw [← Piece.flatMap_items_bare]
    rcases Derivation.exists_statement pieced with ⟨p, alone, is⟩ | ⟨rule, forms, other, parts, pieces, fits⟩
    · have parsed := parse_dump (recognizer leaf reduce) [] p is
      rw [alone]
      refine ⟨reduce .dump [leaf p.token], ?_⟩
      simpa using parsed
    · have parsed := parse_statement (recognizer leaf reduce) [] forms other parts fits
      obtain ⟨inner, found⟩ := parts.exists_meanings leaf reduce
      rw [← pieces]
      refine ⟨reduce rule inner, ?_⟩
      simpa [found] using parsed

end DotLambda
