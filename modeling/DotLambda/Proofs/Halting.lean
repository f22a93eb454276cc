import DotLambda.Proofs.Recognition
import DotLambda.Proofs.Recovery

/-!
That every parse comes to an end, whatever is read. The automaton never gets stuck: on every stack that
can come up, also after errors, the symbols of the rule to be used lie on top, and below them the phrase is
awaited. Each step of the parser's loop takes something from the weight of the configuration. Main statement:
a parse takes a bounded number of steps, and then it accepts, gives up at the end of the input, or fails as
one of its actions does.
-/

namespace DotLambda

open Parse

/-! ## Ways into a state -/

namespace Automaton

/-- The symbols that may come next in a state, each with the state it leads to. -/
def ways (state : Nat) : List (Symbol × Nat) :=
  (row state).shifts.map (fun entry => (.terminal entry.1, entry.2)) ++
    (row state).gotos.map fun entry => (.nonterminal entry.1, entry.2)

/-- Whether all ways into a state come through some symbols, given backwards, from a state in which a phrase is
awaited. -/
def behind (phrase : Nonterminal) : List Symbol → Nat → Bool
  | [], state => (goto? state phrase).isSome
  | s :: earlier, state => state != 0 && (List.range rows.size).all fun source =>
    (ways source).all fun way => way.2 != state || way.1 == s && behind phrase earlier source

private theorem behind_inside : ∀ state < rows.size, ∀ reduction ∈ (row state).reduction.toList,
    behind reduction.1.lhs reduction.1.rhs.reverse state = true := by
  decide +kernel

/-- The symbols of a rule lie behind every state that uses it. -/
theorem behind_of_reduction {state : Nat} {rule : Rule} {followers : List (Option Kind)}
    (uses : (row state).reduction = some (rule, followers)) :
    behind rule.lhs rule.rhs.reverse state = true := by
  by_cases inside : state < rows.size
  · exact behind_inside state inside (rule, followers) (by simp [uses])
  · simp [row_of_le (Nat.le_of_not_lt inside)] at uses

theorem mem_ways {state target : Nat} {s : Symbol} (onward : next? state s = some target) :
    (s, target) ∈ ways state := by
  cases s with
  | terminal kind =>
    obtain ⟨front, back, found, -⟩ := List.lookup_eq_some_iff.1 onward
    simp [ways, found]
  | nonterminal phrase =>
    obtain ⟨front, back, found, -⟩ := List.lookup_eq_some_iff.1 onward
    simp [ways, found]

/-- One step back from a state. -/
theorem behind_cons {phrase : Nonterminal} {s symbol : Symbol} {earlier : List Symbol} {source state : Nat}
    (lies : behind phrase (s :: earlier) state = true) (onward : next? source symbol = some state) :
    symbol = s ∧ behind phrase earlier source = true := by
  have inside : source < rows.size := by
    refine Nat.lt_of_not_le fun outside => ?_
    cases symbol <;> simp [next?, goto?, row_of_le outside] at onward
  rw [behind, Bool.and_eq_true, List.all_eq_true] at lies
  have from_source := List.all_eq_true.1 (lies.2 source (List.mem_range.2 inside)) _ (mem_ways onward)
  simpa using from_source

end Automaton

theorem Symbol.weight_pos (s : Symbol) : 0 < s.weight := by
  cases s with
  | terminal => exact Nat.succ_pos 5
  | nonterminal phrase => cases phrase <;> decide

/-! ## No parse gets stuck -/

namespace Parse.Configuration

variable {α : Type}

/-- What lies behind the state on top of a stack is on the stack. -/
theorem Walked.exists_pop {stack : List (Frame α)} (walked : Walked stack) {phrase : Nonterminal}
    {earlier : List Symbol} (lies : Automaton.behind phrase earlier (stateOf stack) = true) :
    (stack.take earlier.length).map Frame.symbol = earlier ∧
      (Automaton.goto? (stateOf (stack.drop earlier.length)) phrase).isSome := by
  induction earlier generalizing stack with
  | nil => exact ⟨rfl, lies⟩
  | cons s earlier ih =>
    cases stack with
    | nil => simp [Automaton.behind, stateOf] at lies
    | cons frame below =>
      obtain ⟨rfl, deeper⟩ := Automaton.behind_cons lies walked.1
      obtain ⟨symbols, awaited⟩ := ih walked.2 deeper
      exact ⟨by simp [symbols], by simpa using awaited⟩

/-- A move that does not get stuck and leaves every symbol of the stack with the state it leads to. -/
def Safe : Move α → Prop
  | .advance after | .stray _ _ after | .overlong _ after | .recover _ _ after => Walked after.stack
  | .reduce rule _ target after => ∀ meaning, Walked (after.push (.nonterminal rule.lhs) target meaning).stack
  | .accept _ | .reject _ => True
  | .stuck => False

theorem Walked.safe_reduction {c : Configuration α} (walked : Walked c.stack) {rule : Rule}
    {followers : List (Option Kind)} (uses : (Automaton.row c.state).reduction = some (rule, followers)) :
    Safe (c.reduction rule) := by
  obtain ⟨symbols, awaited⟩ := walked.exists_pop (Automaton.behind_of_reduction uses)
  rw [List.length_reverse] at symbols awaited
  obtain ⟨target, awaited⟩ := Option.isSome_iff_exists.1 awaited
  have popped : pop? rule.rhs c.stack =
      some ((c.stack.take rule.rhs.length).reverse.map Frame.meaning, c.stack.drop rule.rhs.length) := by
    rw [pop?, if_pos (by rw [List.map_reverse, symbols, List.reverse_reverse])]
  simp only [reduction, popped, awaited]
  exact fun _ => ⟨awaited, walked.drop _⟩

theorem Walked.safe_before {c : Configuration α} (walked : Walked c.stack) (leaf : Token → α) (t : Token) :
    Safe (c.before leaf t) := by
  unfold before
  split
  · rename_i target shifts
    exact ⟨Automaton.next?_of_shift shifts, walked⟩
  · rename_i acts
    obtain ⟨followers, uses, -⟩ := Automaton.reduction_of_action? acts
    exact walked.safe_reduction uses
  · rename_i accepts
    rw [Automaton.eq_accepting accepts, Automaton.action?_accepting] at accepts
    cases accepts
  · trivial

theorem Walked.safe_atEnd {c : Configuration α} (walked : Walked c.stack) : Safe c.atEnd := by
  unfold atEnd
  split
  · rename_i shifts
    simp only [Automaton.action?, Option.bind_none] at shifts
    split at shifts
    · cases shifts
    · split at shifts
      · split at shifts <;> cases shifts
      · cases shifts
  · rename_i acts
    obtain ⟨followers, uses, -⟩ := Automaton.reduction_of_action? acts
    exact walked.safe_reduction uses
  · rename_i accepts
    split
    · rename_i empty
      have start : c.state = 0 := by rw [state, empty, stateOf]
      rw [start] at accepts
      exact absurd (Automaton.eq_accepting accepts) (by decide)
    · trivial
  · trivial

/-- No move gets stuck, whatever stands ahead. -/
theorem Walked.safe_move {c : Configuration α} (walked : Walked c.stack) (leaf : Token → α) :
    Safe (c.move leaf) := by
  unfold move
  split
  · rename_i unseen
    obtain ⟨followers, uses⟩ := Automaton.reduction_of_default? unseen
    exact walked.safe_reduction uses
  split
  · unfold look
    split <;> exact walked
  · exact walked.safe_before leaf _
  · exact walked.safe_atEnd

/-! ## Counting the steps -/

/-- The configurations that a move may lead to. A phrase that has been formed may have any meaning. -/
def Onto : Move α → Configuration α → Prop
  | .advance c, after | .stray _ _ c, after | .overlong _ c, after | .recover _ _ c, after => after = c
  | .reduce rule _ target c, after => ∃ meaning, after = c.push (.nonterminal rule.lhs) target meaning
  | .accept _, _ | .reject _, _ | .stuck, _ => False

/-- The steps that a move takes. To recover from an error, the token is put back, the symbols are taken from
the stack one by one, and the token is dropped. -/
def steps (c : Configuration α) : Move α → Nat
  | .recover _ _ _ => c.stack.length + 2
  | _ => 1

/-- What a parse comes to after a number of steps. -/
inductive Takes (leaf : Token → α) : Configuration α → Nat → Configuration α → Prop
  | none (c : Configuration α) : Takes leaf c 0 c
  | move {c mid after : Configuration α} {count : Nat} (first : Onto (c.move leaf) mid)
      (rest : Takes leaf mid count after) : Takes leaf c (c.steps (c.move leaf) + count) after

theorem eq_afresh_of_recover {leaf : Token → α} {c after : Configuration α} {t : Token} {reported : Bool}
    (moved : c.move leaf = .recover t reported after) : c.next = .token t ∧ after = c.afresh := by
  have seen : c.next = .token t := by
    have leads := c.leads_move leaf
    rw [moved] at leads
    exact leads.1
  refine ⟨seen, ?_⟩
  have unreduced (rule : Rule) : c.reduction rule ≠ .recover t reported after := by
    unfold reduction
    split
    · simp
    · split <;> simp
  unfold move at moved
  split at moved
  · exact absurd moved (unreduced _)
  · simp only [seen, before] at moved
    split at moved
    · cases moved
    · exact absurd moved (unreduced _)
    · cases moved
    · cases moved
      rfl

theorem length_le_stackWeight (stack : List (Frame α)) : stack.length ≤ stackWeight stack := by
  induction stack with
  | nil => exact Nat.zero_le _
  | cons frame rest ih =>
    have positive := frame.symbol.weight_pos
    simp only [stackWeight, List.map_cons, Symbol.totalWeight, List.length_cons] at ih ⊢
    omega

/-- The weight of a configuration pays for the steps of a move. -/
theorem steps_add_weight_le {leaf : Token → α} {c after : Configuration α} (onto : Onto (c.move leaf) after) :
    c.steps (c.move leaf) + after.weight ≤ c.weight := by
  have lighter := c.move_below leaf
  cases moved : c.move leaf with
  | advance next | stray _ _ next | overlong _ next =>
    rw [moved] at onto lighter
    obtain rfl : after = next := onto
    have lighter : after.weight < c.weight := lighter
    simp only [steps]
    omega
  | reduce rule meanings target next =>
    rw [moved] at onto lighter
    obtain ⟨meaning, rfl⟩ := onto
    have lighter := lighter meaning
    simp only [steps]
    omega
  | recover t reported next =>
    rw [moved] at onto
    obtain rfl : after = next := onto
    obtain ⟨seen, rfl⟩ := eq_afresh_of_recover moved
    have tall := length_le_stackWeight c.stack
    simp only [steps, weight, afresh, seen, lookaheadWeight, stackWeight, List.map_nil, Symbol.totalWeight] at tall ⊢
    omega
  | accept _ | reject _ | stuck =>
    rw [moved] at onto
    exact onto.elim

/-- The steps that a parse has taken and the weight that is left make no more than the weight it began with. -/
theorem Takes.count_add_weight_le {leaf : Token → α} {c after : Configuration α} {count : Nat}
    (takes : Takes leaf c count after) : count + after.weight ≤ c.weight := by
  induction takes with
  | none => omega
  | move first _ ih =>
    have paid := steps_add_weight_le first
    omega

/-- One step of a parse from a stack on which every symbol leads to its state. -/
theorem Walked.onto {leaf : Token → α} {c after : Configuration α} (walked : Walked c.stack)
    (onto : Onto (c.move leaf) after) : Walked after.stack := by
  have safe := walked.safe_move leaf
  cases moved : c.move leaf with
  | advance next | stray _ _ next | overlong _ next | recover _ _ next =>
    rw [moved] at onto safe
    obtain rfl : after = next := onto
    exact safe
  | reduce rule meanings target next =>
    rw [moved] at onto safe
    obtain ⟨meaning, rfl⟩ := onto
    exact safe meaning
  | accept _ | reject _ | stuck =>
    rw [moved] at onto
    exact onto.elim

theorem Takes.walked {leaf : Token → α} {c after : Configuration α} {count : Nat}
    (takes : Takes leaf c count after) (walked : Walked c.stack) : Walked after.stack := by
  induction takes with
  | none => exact walked
  | move first _ ih => exact ih (walked.onto first)

end Parse.Configuration

/-! ## How a parse ends -/

namespace Parse

variable {ε σ α : Type}

/-- An action of a reading fails in some state. -/
inductive Reading.Raises (r : Reading (EStateM ε σ) α) (e : ε) : Prop
  | reduce {rule : Rule} {meanings : List α} {state after : σ}
      (raised : r.reduce rule meanings state = .error e after)
  | stray {character : Char} {line : Nat} {state after : σ}
      (raised : r.stray character line state = .error e after)
  | overlong {digits : Nat} {state after : σ} (raised : r.overlong digits state = .error e after)
  | report {t : Option Token} {state after : σ} (raised : r.report t state = .error e after)

/-- A parse has returned, or it fails with an error of an action. -/
def Reading.Ended (r : Reading (EStateM ε σ) α) : EStateM.Result ε σ (Outcome α) → Prop
  | .ok (.accepted _) _ | .ok .rejected _ => True
  | .ok .stuck _ | .ok .exhausted _ => False
  | .error e _ => r.Raises e

/-- An action ends a parse, or what follows it does. -/
theorem Reading.Ended.bind {β : Type} {r : Reading (EStateM ε σ) α} {x : EStateM ε σ β}
    {f : β → EStateM ε σ (Outcome α)} {state : σ} (raises : ∀ e after, x state = .error e after → r.Raises e)
    (next : ∀ b after, r.Ended (f b after)) : r.Ended ((x >>= f) state) := by
  change r.Ended (EStateM.bind x f state)
  unfold EStateM.bind
  cases ended : x state with
  | ok b after => exact next b after
  | error e after => exact raises e after ended

/-- A parse ends if it may take more moves than its configuration weighs. -/
theorem ended_run (r : Reading (EStateM ε σ) α) (moves : Nat) {c : Configuration α}
    (walked : Configuration.Walked c.stack) (enough : c.weight < moves) (state : σ) :
    r.Ended (run r moves c state) := by
  induction moves generalizing c state with
  | zero => omega
  | succ moves ih =>
    have safe := walked.safe_move r.leaf
    have lighter := c.move_below r.leaf
    rw [run]
    cases moved : c.move r.leaf with
    | advance next =>
      rw [moved] at safe lighter
      exact ih safe (Nat.lt_of_lt_of_le lighter (Nat.le_of_lt_succ enough)) state
    | stray character line next =>
      rw [moved] at safe lighter
      exact .bind (fun _ _ => .stray) fun _ =>
        ih safe (Nat.lt_of_lt_of_le lighter (Nat.le_of_lt_succ enough))
    | overlong digits next =>
      rw [moved] at safe lighter
      exact .bind (fun _ _ => .overlong) fun _ =>
        ih safe (Nat.lt_of_lt_of_le lighter (Nat.le_of_lt_succ enough))
    | reduce rule meanings target next =>
      rw [moved] at safe lighter
      exact .bind (fun _ _ => .reduce) fun meaning =>
        ih (safe meaning) (Nat.lt_of_lt_of_le (lighter meaning) (Nat.le_of_lt_succ enough))
    | recover t reported next =>
      rw [moved] at safe lighter
      have rest := ih safe (Nat.lt_of_lt_of_le lighter (Nat.le_of_lt_succ enough))
      cases reported with
      | true => exact .bind (fun _ _ => .report) fun _ => rest
      | false => exact rest state
    | accept meaning => exact trivial
    | reject reported =>
      cases reported with
      | true => exact .bind (fun _ _ => .report) fun _ _ => trivial
      | false => exact trivial
    | stuck =>
      rw [moved] at safe
      exact safe.elim

/-- Every parse ends, also of what is no statement. However the phrases are read, it takes at most nine steps for
each item and one more, and none gets stuck; the number of moves that `parse` allows is never used up; and in
the end the parse accepts, gives up at the end of the input, or fails as one of its actions does. -/
theorem parse_ends (r : Reading (EStateM ε σ) α) (items : List Item) :
    (∀ count c, Configuration.Takes r.leaf (.start items) count c →
      count ≤ 9 * items.length + 1 ∧ c.move r.leaf ≠ .stuck) ∧
    (∀ moves, 9 * items.length + 1 < moves → run r moves (.start items) = parse r items) ∧
    ∀ state, (∃ meaning after, parse r items state = .ok (.accepted meaning) after) ∨
      (∃ after, parse r items state = .ok .rejected after) ∨
      ∃ e after, parse r items state = .error e after ∧ r.Raises e := by
  have weight : (Configuration.start items : Configuration α).weight = 9 * items.length + 1 := by
    simp [Configuration.weight, Configuration.start, Configuration.stackWeight, Symbol.totalWeight,
      Configuration.lookaheadWeight, Nat.add_comm]
  have walked : Configuration.Walked (Configuration.start items : Configuration α).stack := trivial
  refine ⟨fun count c takes => ⟨?_, fun stuck => ?_⟩, fun moves enough => ?_, fun state => ?_⟩
  · have paid := takes.count_add_weight_le
    omega
  · have safe := (takes.walked walked).safe_move r.leaf
    rw [stuck] at safe
    exact safe
  · exact run_eq_run r _ _ _ (by omega) (Nat.lt_succ_self _)
  · have ended := ended_run r _ walked (Nat.lt_succ_self _) state
    change r.Ended (parse r items state) at ended
    cases result : parse r items state with
    | ok outcome after =>
      rw [result] at ended
      cases outcome with
      | accepted meaning => exact .inl ⟨meaning, after, rfl⟩
      | rejected => exact .inr (.inl ⟨after, rfl⟩)
      | stuck | exhausted => exact ended.elim
    | error e after =>
      rw [result] at ended
      exact .inr (.inr ⟨e, after, rfl, ended⟩)

end Parse

end DotLambda
