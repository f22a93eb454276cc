import DotLambda.Proofs.Abreast
import DotLambda.Proofs.Trees

/-!
Conditionals. Both clauses of a conditional are evaluated as they are read, before it is known which one will be
taken. Main statement: where the other clause can be evaluated, a line that prints a conditional has the outcome of
one that prints the clause which is taken, from some depth on; it fails where the other clause cannot.
-/

namespace DotLambda

open Eval

/-! ## Worlds that have grown from a session -/

namespace Session

/-- A world that has grown from a session, in which nothing has been written. -/
structure Leads (session : Session) (w : World) : Prop where
  closed : w.Closed
  kept : session.Kept w.session
  quiet : w.output = #[]

variable {session : Session} {s s' : Settings} {w w' after : World}

theorem Closed.leads (closed : session.Closed) : session.Leads session.world :=
  ⟨closed, .refl session, rfl⟩

namespace Leads

theorem bindings_eq (leads : session.Leads w) : w.bindings = session.bindings := leads.kept.bindings_eq

theorem abreast (closed : session.Closed) (leads : session.Leads w) (leads' : session.Leads w') :
    Abreast (fun _ => True) session.bindings session.bindings session.store.bare.own w w' where
  meets :=
    { relates := closed.store.bare_coherent.grow (session.store.bare_continues.trans leads.kept.store.continues)
        (session.store.bare_continues.trans leads'.kept.store.continues)
      even := by rw [leads'.kept.store.terms_eq, leads.kept.store.terms_eq]
      plain := fun _ none => Store.own_data_of_plain none
      lookups := fun id _ => by
        cases found : session.bindings.find? id with
        | some t => exact .some (closed.bindings id t found).bare_owns
        | none => exact .none }
  here := leads.bindings_eq
  there := leads'.bindings_eq
  named _ _ := trivial

/-- What has been found in such a world is in another one. -/
theorem evaluate (leads : session.Leads w) (untraced : s.tracing = false) {form : Form} {e : Phrase form} {t : Term}
    (found : e.evaluate s w = .ok t after) :
    session.Leads after ∧ w.Grows after ∧ t.Within after.store.size := by
  have adds : AddsTerm .whole w (e.evaluate s) := e.adds_evaluate leads.closed.whole
  obtain ⟨closed, grows, within⟩ := adds.of_ok found
  have quiet := (e.silent_evaluate untraced w t after found).2
  exact ⟨⟨closed, leads.kept.trans grows, quiet.trans leads.quiet⟩, grows, within⟩

theorem simplify (leads : session.Leads w) (untraced : s.tracing = false) {depth : Nat} {t result : Term}
    (within : t.Within w.store.size) (found : simplify s session.bindings depth t w = .ok result after) :
    session.Leads after ∧ w.Grows after := by
  have known : session.bindings.Within w.store.size := leads.bindings_eq ▸ leads.closed.bindings
  obtain ⟨closed, grows, -⟩ := (Simplify.frames_simplify leads.closed known within).of_ok found
  have quiet := (Simplify.silent_simplify untraced session.bindings depth t w result after found).2
  exact ⟨⟨closed, leads.kept.trans grows, quiet.trans leads.quiet⟩, grows⟩

end Leads

end Session

/-! ## Printing later -/

/-- What is done to print a term, once the variables have been looked at. -/
def Meaning.reveal (s : Settings) (lookup : Bindings Term) (depth : Nat) (t : Term) : Eval Unit := do
  let result ← simplify s lookup depth t
  Meaning.display s result

/-- Terms that are alike are printed alike. -/
theorem outcome_reveal_near {s s' : Settings} (le : s.Le s') (untraced : s.tracing = false)
    {lookup lookup' : Bindings Term} {depth depth' : Nat} (deeper : depth ≤ depth') {l : Likeness} {w w' : World}
    (meets : Meets lookup lookup' l w w') {t t' : Term} (alike : Term.Alike l t t') (quiet : w.output = w'.output) :
    Nears (outcome (Meaning.reveal s lookup depth t) w) (outcome (Meaning.reveal s' lookup' depth' t') w') := by
  have simplifies : Simplify.Accords lookup lookup' (simplify s lookup depth) (simplify s' lookup' depth') :=
    (Simplify.accords_simplify_replace le deeper).1
  unfold Meaning.reveal
  rcases simplifies meets alike with ⟨_, ended⟩ | ⟨r, after, r', after', more, ended, ended', advances, same⟩ |
    ⟨e, _, _, ended, ended'⟩
  · exact .inl (outcome_bind_of_error ended)
  · have early := (Simplify.silent_simplify untraced lookup depth t w r after ended).2
    have late := (Simplify.silent_simplify (le.untraced untraced) lookup' depth' t' w' r' after' ended').2
    rw [outcome_bind_of_ok ended, outcome_bind_of_ok ended', outcome_display_eq, outcome_display_eq, early, late, quiet]
    exact (same.printed_near advances.meets.relates le.depth).bind fun _ => .refl _
  · rw [outcome_bind_of_error ended, outcome_bind_of_error ended']
    exact .refl _

/-- What is shown of a value that has been found, in a world that has grown since and at most one level less deep, or
of the failure to find one. -/
inductive Shows (session : Session) (s : Settings) : EStateM.Result Error World Term → Except Error (List Event) → Prop
  | found {after later : World} {t : Term} {depth : Nat} (grown : after.Grows later) (leads : session.Leads later)
      (within : depth ≤ s.depth) (deep : s.depth ≤ depth + 1) :
      Shows session s (.ok t after) (outcome (Meaning.reveal s session.bindings depth t) later)
  | failed {after : World} {error : Error} : Shows session s (.error error after) (.error error)

/-- What comes of printing a tree later, in a world that has grown. -/
def Delays (session : Session) {form : Form} (e : Phrase form) (s : Settings) (o : Except Error (List Event)) : Prop :=
  ∃ start, session.Leads start ∧ Shows session s (e.evaluate s start) o

namespace Delays

variable {session : Session} {form : Form} {e : Phrase form} {s s' : Settings} {o o' : Except Error (List Event)}

/-- To print at once is to print late. -/
theorem showValue (closed : session.Closed) (untraced : s.tracing = false) :
    Delays session e s (outcome (e.showValue s) session.world) := by
  refine ⟨session.world, closed.leads, ?_⟩
  unfold Phrase.showValue
  cases ended : e.evaluate s session.world with
  | error error after =>
    rw [outcome_bind_of_error ended]
    exact .failed
  | ok t after =>
    obtain ⟨leads, -, -⟩ := closed.leads.evaluate untraced ended
    rw [outcome_bind_of_ok ended]
    change Shows session s _ (outcome (Meaning.reveal s after.bindings s.depth t) after)
    rw [leads.bindings_eq]
    exact .found (.refl _) leads (Nat.le_refl _) (Nat.le_succ _)

/-- Whenever a tree is printed, the same comes of it, unless the depth does not suffice. -/
theorem nears (closed : session.Closed) (untraced : s.tracing = false) (untraced' : s'.tracing = false)
    (deeper : s.depth < s'.depth) (delays : Delays session e s o) (delays' : Delays session e s' o') : Nears o o' := by
  have le : s.Le s' := ⟨untraced'.trans untraced.symm, Nat.le_of_lt deeper⟩
  obtain ⟨start, leads, shows⟩ := delays
  obtain ⟨start', leads', shows'⟩ := delays'
  rcases e.tandem_evaluate le (leads.abreast closed leads') untraced with ⟨_, ended⟩ |
    ⟨t, after, t', after', more, ended, ended', advances, alike⟩ | ⟨error, _, _, ended, ended'⟩
  · rw [ended] at shows
    cases shows
    exact .inl rfl
  · rw [ended] at shows
    rw [ended'] at shows'
    cases shows with
    | found grown later within deep =>
      cases shows' with
      | found grown' later' within' deep' =>
        exact outcome_reveal_near le untraced (by omega) (advances.meets.grow grown grown') alike
          (later.quiet.trans later'.quiet.symm)
  · rw [ended] at shows
    rw [ended'] at shows'
    cases shows
    cases shows'
    exact .refl _

/-- Two ways to print a tree, of which each may be late, come to the same from some depth on. -/
theorem exists_eq (closed : session.Closed) {f g : Settings → Except Error (List Event)} {enough : Nat}
    (first : ∀ s : Settings, s.tracing = false → enough ≤ s.depth → Delays session e s (f s))
    (second : ∀ s : Settings, s.tracing = false → enough ≤ s.depth → Delays session e s (g s)) :
    ∃ enough, ∀ s : Settings, s.tracing = false → enough ≤ s.depth → f s = g s := by
  by_cases ends : ∃ depth, enough ≤ depth ∧ g ⟨false, depth⟩ ≠ .error .endless
  · obtain ⟨depth, deep, ends⟩ := ends
    refine ⟨depth + 1, fun s untraced deeper => ?_⟩
    have known := second ⟨false, depth⟩ rfl deep
    have near {o : Except Error (List Event)} (delays : Delays session e s o) : Nears (g ⟨false, depth⟩) o :=
      Delays.nears (s := ⟨false, depth⟩) closed rfl untraced deeper known delays
    rw [(near (first s untraced (by omega))).resolve_left ends, (near (second s untraced (by omega))).resolve_left ends]
  · -- one more level would find what the first finds
    have endless (s : Settings) (untraced : s.tracing = false) (deep : enough ≤ s.depth) :
        g s = .error .endless := by
      obtain ⟨tracing, depth⟩ := s
      cases untraced
      by_contra found
      exact ends ⟨depth, deep, found⟩
    refine ⟨enough, fun s untraced deep => ?_⟩
    rw [endless s untraced deep]
    have later := second ⟨false, s.depth + 1⟩ rfl (Nat.le_succ_of_le deep)
    rcases (first s untraced deep).nears closed untraced rfl (Nat.lt_succ_self _) later with out | same
    · exact out
    · rw [← same]
      exact endless _ rfl (Nat.le_succ_of_le deep)

end Delays

/-! ## Conditionals -/

namespace Phrase

variable {session : Session} {s : Settings} {c yes no e : Phrase .sequence} {b : Bool}

/-- A tree comes to a boolean that counts as a truth value. -/
def Decides (c : Phrase .sequence) (session : Session) (b : Bool) : Prop :=
  ∃ depth d after, c.settle ⟨false, depth⟩ depth session.world = .ok (.bool d) after ∧ d.truth = b

/-- A tree can be evaluated. -/
def Ready (e : Phrase .sequence) (session : Session) : Prop :=
  ∃ depth t after, e.evaluate ⟨false, depth⟩ session.world = .ok t after

/-- What can be evaluated can be later. -/
theorem Ready.later (ready : e.Ready session) (closed : session.Closed) :
    ∃ enough, ∀ s : Settings, s.tracing = false → enough ≤ s.depth → ∀ w, session.Leads w →
      ∃ t after, e.evaluate s w = .ok t after := by
  obtain ⟨depth, t, after, found⟩ := ready
  refine ⟨depth, fun s untraced deep w leads => ?_⟩
  have le : Settings.Le ⟨false, depth⟩ s := ⟨untraced, deep⟩
  obtain ⟨t', after', _, ended', -⟩ := (e.tandem_evaluate le (closed.leads.abreast closed leads) rfl).exists_ok found
  exact ⟨t', after', ended'⟩

/-- What can be evaluated later can be evaluated. -/
theorem Ready.ofLater (closed : session.Closed) (untraced : s.tracing = false) {w after : World} {t : Term}
    (leads : session.Leads w) (found : e.evaluate s w = .ok t after) : e.Ready session := by
  have le : s.Le ⟨false, s.depth⟩ := ⟨untraced.symm, Nat.le_refl _⟩
  have tandem := e.tandem_evaluate le (leads.abreast closed closed.leads) untraced
  obtain ⟨t', after', _, ended', -⟩ := tandem.exists_ok found
  exact ⟨s.depth, t', after', ended'⟩

/-- A term that is simplified to one boolean in all worlds that a world grows into, down from some depth. -/
def Settles (session : Session) (s : Settings) (enough : Nat) (w : World) (t : Term) (d : Datum) : Prop :=
  ∀ later, w.Grows later → ∀ depth, enough ≤ depth →
    ∃ last, simplify s session.bindings depth t later = .ok (.bool d) last

/-- What comes to a boolean can be evaluated, and will come to it. -/
theorem Decides.later (decides : c.Decides session b) (closed : session.Closed) :
    ∃ d enough, d.truth = b ∧ ∀ s : Settings, s.tracing = false → enough ≤ s.depth →
      ∃ t after, c.evaluate s session.world = .ok t after ∧ Settles session s enough after t d := by
  obtain ⟨depth, d, last, settled, truth⟩ := decides
  obtain ⟨t, between, found, simplified⟩ := ok_of_bind settled
  have leads := (closed.leads.evaluate rfl found).1
  have simplified : simplify ⟨false, depth⟩ session.bindings depth t between = .ok (.bool d) last := by
    rw [← leads.bindings_eq]
    exact simplified
  refine ⟨d, depth, truth, fun s untraced deep => ?_⟩
  have le : Settings.Le ⟨false, depth⟩ s := ⟨untraced, deep⟩
  have tandem := c.tandem_evaluate le (closed.leads.abreast closed closed.leads) rfl
  obtain ⟨t', after', more, ended', advances, alike⟩ := tandem.exists_ok found
  refine ⟨t', after', ended', fun later grown depth' deep' => ?_⟩
  have simplifies : Simplify.Accords session.bindings session.bindings
      (simplify ⟨false, depth⟩ session.bindings depth) (simplify s session.bindings depth') :=
    (Simplify.accords_simplify_replace le deep').1
  obtain ⟨_, last, _, settled', -, alike⟩ :=
    (simplifies (advances.meets.grow (.refl _) grown) alike).exists_ok simplified
  cases alike
  exact ⟨last, settled'⟩

end Phrase

/-- A conditional is printed as the clause that its condition selects, at once or after the condition has been
simplified. -/
theorem Meaning.shows_conditional {session : Session} {s : Settings} (untraced : s.tracing = false) {enough : Nat}
    (deep : enough < s.depth) {w start : World} {condition : Term} (yes no : Term) {d : Datum}
    (settles : Phrase.Settles session s enough start condition d) (grown : start.Grows w) (leads : session.Leads w)
    (within : condition.Within w.store.size) :
    ∃ later depth, w.Grows later ∧ session.Leads later ∧ depth ≤ s.depth ∧ s.depth ≤ depth + 1 ∧
      outcome (do let t ← Meaning.conditional s condition yes no; Meaning.print s t) w =
        outcome (Meaning.reveal s session.bindings depth (if d.truth then yes else no)) later := by
  obtain ⟨depth, same⟩ : ∃ depth, s.depth = depth + 1 := ⟨s.depth - 1, by omega⟩
  cases condition with
  | bool value =>
    obtain ⟨last, simplified⟩ := settles w grown s.depth (by omega)
    rw [same, simplify_untraced untraced] at simplified
    simp only [Simplify.simplified, Eval.make_untraced untraced] at simplified
    cases simplified
    refine ⟨w, s.depth, .refl _, leads, Nat.le_refl _, Nat.le_succ _, ?_⟩
    rw [← leads.bindings_eq]
    rfl
  | int | string | name | nameless | function | operation | conditional | chain | list | wrapped | itemless | unknown
  | datum =>
    obtain ⟨last, simplified⟩ := settles w grown depth (by omega)
    obtain ⟨leadsLast, grows⟩ := leads.simplify untraced within simplified
    refine ⟨last, depth, grows, leadsLast, by omega, by omega, ?_⟩
    simp only [Meaning.conditional, Eval.make_untraced untraced, pure_bind]
    change outcome (Meaning.reveal s w.bindings s.depth _) w = _
    rw [leads.bindings_eq, Meaning.reveal, same, simplify_untraced untraced]
    simp only [Simplify.simplified, bind_assoc]
    rw [outcome_bind_of_ok simplified]
    cases truth : d.truth <;> simp [truth, Meaning.reveal]

namespace Phrase

variable {session : Session} {s : Settings} {c yes no e : Phrase .sequence} {b : Bool}

/-- A conditional whose other clause can be evaluated is the clause that its condition selects, printed later. -/
theorem exists_delays (yes no : Phrase .sequence) (closed : session.Closed) (decides : c.Decides session b)
    (ready : (if b then no else yes).Ready session) :
    ∃ enough, ∀ s : Settings, s.tracing = false → enough ≤ s.depth →
      Delays session (if b then yes else no) s
        (outcome ((conditional (group c) (group yes) (group no)).showValue s) session.world) := by
  obtain ⟨d, enough, rfl, later⟩ := decides.later closed
  obtain ⟨more, others⟩ := ready.later closed
  refine ⟨max (enough + 1) more, fun s untraced deep => ?_⟩
  obtain ⟨condition, first, ended, settles⟩ := later s untraced (by omega)
  obtain ⟨leads, -, within⟩ := closed.leads.evaluate untraced ended
  simp only [showValue, evaluate, bind_assoc]
  rw [outcome_bind_of_ok ended]
  cases truth : d.truth with
  | true =>
    simp only [truth, if_true] at others ⊢
    refine ⟨first, leads, ?_⟩
    cases found : yes.evaluate s first with
    | error error after =>
      rw [outcome_bind_of_error found]
      exact .failed
    | ok y second =>
      obtain ⟨leadsSecond, grows, -⟩ := leads.evaluate untraced found
      obtain ⟨n, third, found'⟩ := others s untraced (by omega) second leadsSecond
      obtain ⟨leadsThird, grows', -⟩ := leadsSecond.evaluate untraced found'
      have since := grows.trans grows'
      obtain ⟨last, depth, grown, leadsLast, shallow, deep, same⟩ :=
        Meaning.shows_conditional untraced (by omega) y n settles since leadsThird (since.within within)
      rw [outcome_bind_of_ok found, outcome_bind_of_ok found', same, truth]
      exact .found (grows'.trans grown) leadsLast shallow deep
  | false =>
    simp only [truth, Bool.false_eq_true, if_false] at others ⊢
    obtain ⟨y, second, found⟩ := others s untraced (by omega) first leads
    obtain ⟨leadsSecond, grows, -⟩ := leads.evaluate untraced found
    refine ⟨second, leadsSecond, ?_⟩
    rw [outcome_bind_of_ok found]
    cases found' : no.evaluate s second with
    | error error after =>
      rw [outcome_bind_of_error found']
      exact .failed
    | ok n third =>
      obtain ⟨leadsThird, grows', -⟩ := leadsSecond.evaluate untraced found'
      have since := grows.trans grows'
      obtain ⟨last, depth, grown, leadsLast, shallow, deep, same⟩ :=
        Meaning.shows_conditional untraced (by omega) y n settles since leadsThird (since.within within)
      rw [outcome_bind_of_ok found', same, truth]
      exact .found grown leadsLast shallow deep

/-- A conditional fails if one of its clauses cannot be evaluated. -/
theorem exists_failure (closed : session.Closed) (untraced : s.tracing = false)
    (unready : ¬ yes.Ready session ∨ ¬ no.Ready session) :
    ∃ error, outcome ((conditional (group c) (group yes) (group no)).showValue s) session.world = .error error := by
  simp only [showValue, evaluate, bind_assoc]
  cases ended : c.evaluate s session.world with
  | error error after => exact ⟨error, outcome_bind_of_error ended⟩
  | ok condition first =>
    obtain ⟨leads, -, -⟩ := closed.leads.evaluate untraced ended
    rw [outcome_bind_of_ok ended]
    cases found : yes.evaluate s first with
    | error error after => exact ⟨error, outcome_bind_of_error found⟩
    | ok y second =>
      obtain ⟨leadsSecond, -, -⟩ := leads.evaluate untraced found
      rw [outcome_bind_of_ok found]
      cases found' : no.evaluate s second with
      | error error after => exact ⟨error, outcome_bind_of_error found'⟩
      | ok n third =>
        rcases unready with unready | unready
        · exact absurd (.ofLater closed untraced leads found) unready
        · exact absurd (.ofLater closed untraced leadsSecond found') unready

/-! ## Lines -/

/-- The words of a conditional whose condition and clauses stand in parentheses. -/
def choice (condition yes no : List Word) : List Word :=
  .sign .ifWord "if" :: (parenthesize condition ++ .sign .thenWord "then" ::
    (parenthesize yes ++ .sign .elseWord "else" :: (parenthesize no ++ [.sign .endifWord "endif"])))

theorem outcome_choice (untraced : s.tracing = false) {condition first second : List Word} {line : String}
    (decides : c.WrittenAs condition) (taken : yes.WrittenAs first) (other : no.WrittenAs second)
    (scanned : (Scan.ofText line).Of (.sign .printWord "print" :: choice condition first second)) :
    (session.step s line).1.outcome =
      outcome ((conditional (group c) (group yes) (group no)).showValue s) session.world := by
  have operand {e : Phrase .sequence} {words : List Word} (written : e.WrittenAs words) :
      ReadsOperand s (parenthesize words) (e.evaluate s) := fun follower follows =>
    .parenthesized untraced (Automaton.reduces_of_mem_afterFactor (by decide) follows) (written s untraced)
  have value : ReadsTerm s .expr none (choice condition first second)
      ((conditional (group c) (group yes) (group no)).evaluate s) :=
    .conditional untraced (Automaton.reduces_of_mem_closers (by decide))
      ((operand decides).expr untraced (by decide)) ((operand taken).expr untraced (by decide))
      ((operand other).expr untraced (by decide))
  exact Session.outcome_step scanned (.ofExpr untraced (Automaton.reduces_of_mem_closers (by decide)) value)

end Phrase

theorem Scan.Of.lexical {text : String} {words : List Word} (scanned : (Scan.ofText text).Of words) :
    ∀ w ∈ words, w.Lexical := by
  obtain ⟨tokens, items, rfl⟩ := scanned
  intro w member
  obtain ⟨t, listed, rfl⟩ := List.mem_map.1 member
  exact lexeme_ofText (items ▸ List.mem_map_of_mem listed)

/-- Words that come to a boolean which counts as a truth value. -/
def Session.Decides (session : Session) (words : List Word) (b : Bool) : Prop :=
  ∃ c : Phrase .sequence, c.WrittenAs words ∧ c.Decides session b

/-- Words that can be evaluated. -/
def Session.Ready (session : Session) (words : List Word) : Prop :=
  ∃ e : Phrase .sequence, e.WrittenAs words ∧ e.Ready session

/-- A conditional is the clause that its condition selects, if the other one can be evaluated: a line that prints it
writes the same as one that prints the clause, or fails alike, from some depth on. If the other one cannot be
evaluated, the line fails. -/
theorem conditional_selects {session : Session} (reachable : session.Reachable) {condition yes no : List Word}
    {b : Bool} (decides : session.Decides condition b) (first : IsSequence yes) (second : IsSequence no)
    {line line' : String}
    (scanned : (Scan.ofText line).Of (.sign .printWord "print" :: Phrase.choice condition yes no))
    (scanned' : (Scan.ofText line').Of (.sign .printWord "print" :: Phrase.parenthesize (if b then yes else no))) :
    (session.Ready (if b then no else yes) → ∃ enough, ∀ s : Settings, s.tracing = false → enough ≤ s.depth →
      (session.step s line).1.outcome = (session.step s line').1.outcome) ∧
    (¬ session.Ready (if b then no else yes) → ∀ s : Settings, s.tracing = false →
      ∃ error, (session.step s line).1.outcome = .error error) := by
  have closed := reachable.closed
  have lexical := scanned.lexical
  obtain ⟨c, written, decides⟩ := decides
  obtain ⟨y, writtenYes⟩ := (isSequence_iff_writtenAs fun w member =>
    lexical w (by simp [Phrase.choice, Phrase.parenthesize, member])).1 first
  obtain ⟨n, writtenNo⟩ := (isSequence_iff_writtenAs fun w member =>
    lexical w (by simp [Phrase.choice, Phrase.parenthesize, member])).1 second
  constructor
  · intro ready
    obtain ⟨y, n, writtenYes, writtenNo, ready⟩ : ∃ y n : Phrase .sequence, y.WrittenAs yes ∧ n.WrittenAs no ∧
        (if b then n else y).Ready session := by
      obtain ⟨e, writtenOther, ready⟩ := ready
      cases b with
      | true => exact ⟨y, e, writtenYes, writtenOther, ready⟩
      | false => exact ⟨e, n, writtenOther, writtenNo, ready⟩
    have taken : (if b then y else n).WrittenAs (if b then yes else no) := by
      cases b with
      | true => exact writtenYes
      | false => exact writtenNo
    obtain ⟨deep, delays⟩ := Phrase.exists_delays y n closed decides ready
    obtain ⟨enough, same⟩ := Delays.exists_eq closed delays fun s untraced _ => .showValue closed untraced
    refine ⟨enough, fun s untraced deep => ?_⟩
    rw [Phrase.outcome_choice untraced written writtenYes writtenNo scanned,
      Phrase.outcome_group untraced taken scanned']
    exact same s untraced deep
  · intro unready s untraced
    rw [Phrase.outcome_choice untraced written writtenYes writtenNo scanned]
    refine Phrase.exists_failure closed untraced ?_
    cases b with
    | true => exact .inr fun ready => unready ⟨n, writtenNo, ready⟩
    | false => exact .inl fun ready => unready ⟨y, writtenYes, ready⟩

/-- The condition is a name until it is simplified, the clause that is taken is an item of a list, and to print the
other one would fail. -/
theorem conditional_selects_of_head :
    let taken : List Word := [.sign .headWord "head", .sign .dot ".", .sign .leftParen "(", .sign .leftBracket "[",
      .number 1, .sign .comma ",", .name "y", .sign .rightBracket "]", .sign .rightParen ")"]
    let other : List Word := [.name "x", .sign .addOp "+", .number 1]
    Session.fresh.Decides [.name "true"] true ∧ IsSequence taken ∧ IsSequence other ∧ Session.fresh.Ready other ∧
      (Session.fresh.step ⟨false, 10⟩ "print (x + 1)").1.outcome = .error (.incompatibleKinds "+" "id" "int") ∧
      ∃ enough, ∀ s : Settings, s.tracing = false → enough ≤ s.depth →
        (Session.fresh.step s "print if (true) then (head . ([1, y])) else (x + 1) endif").1.outcome =
          (Session.fresh.step s "print (head . ([1, y]))").1.outcome := by
  intro taken other
  let e : Phrase .sequence := .alone (.builtin .head (.list (.items (.number 1) (.item (.name "y")))))
  let e' : Phrase .sequence := .alone (.dyad .add (.name "x") (.number 1))
  have scanned : (Scan.ofText "print if (true) then (head . ([1, y])) else (x + 1) endif").Of
      (.sign .printWord "print" :: Phrase.choice [.name "true"] taken other) := by decide +kernel
  have decides : Session.fresh.Decides [.name "true"] true :=
    ⟨.alone (.name "true"), Phrase.writtenAs_words _, 2, .bool true, _, rfl, rfl⟩
  have ready : Session.fresh.Ready other := ⟨e', e'.writtenAs_words, 2, _, _, rfl⟩
  have first : IsSequence taken := e.writtenAs_words.isSequence
  have second : IsSequence other := e'.writtenAs_words.isSequence
  refine ⟨decides, first, second, ready, by decide +kernel, ?_⟩
  exact (conditional_selects .fresh decides first second scanned (by decide +kernel)).1 ready

/-- A conditional fails where the clause that is not taken has a division by zero or a function applied to what it is
not for, though the line that prints the other clause does not. -/
theorem conditional_differs :
    let s : Settings := ⟨false, Session.usualDepth⟩
    let outcome (line : String) := (Session.fresh.step s line).1.outcome
    outcome "print if (1 < 2) then (1) else (1 / 0) endif" = .error .divisionByZero ∧
      outcome "print if (true) then (1) else (head . 2) endif" = .error (.notAList "head" "2") ∧
      outcome "print (1)" = .ok [.line "1"] := by
  decide +kernel

end DotLambda
