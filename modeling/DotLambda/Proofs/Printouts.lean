import DotLambda.Proofs.Application
import DotLambda.Proofs.Balance
import DotLambda.Proofs.Tags

/-!
What lines print. A line may use the rule of `print` more than once, as reading goes on after a syntax error; each
use that succeeds writes a text, which stays among the events of the line. Main statement: in a session whose strings
have no parentheses, every such text closes as many parentheses as it opens, and it is balanced exactly if the outer
parentheses of the term that is shown belong together, which they do not always.
-/

namespace DotLambda

open Eval

variable {past : Past} {s : Settings} {w : World}

/-! ## Uses of rules -/

namespace Eval

variable {α β : Type} {x : Eval α} {f : α → Eval β} {a : α} {after : World}

/-- What comes after an evaluation, if it succeeds. -/
def onward (x : Eval α) (next : α → World → List β) (w : World) : List β :=
  match x w with
  | .ok a after => next a after
  | .error _ _ => []

/-- The world in which an evaluation ends. -/
def final (x : Eval α) (w : World) : World :=
  match x w with
  | .ok _ after | .error _ after => after

theorem mem_onward {next : α → World → List β} {b : β} (member : b ∈ x.onward next w) :
    ∃ a after, x w = .ok a after ∧ b ∈ next a after := by
  unfold onward at member
  split at member
  · exact ⟨_, _, ‹_›, member⟩
  · cases member

theorem final_bind_of_ok (ended : x w = .ok a after) : (x >>= f).final w = (f a).final after := by
  rw [final, final, bind_of_ok ended]

theorem Upholds.of_ok {good : α → Prop} (upholds : Upholds past w x good) (ended : x w = .ok a after) :
    w.Upheld past after ∧ good a :=
  (upholds_iff.1 upholds).of_ok ended

theorem Upholds.final {good : α → Prop} (upholds : Upholds past w x good) : w.Upheld past (x.final w) := by
  unfold Eval.final
  cases ended : x w with
  | ok a after => exact (upholds.of_ok ended).1
  | error e after => exact ((upholds_iff.1 upholds).of_error ended).1

end Eval

namespace Parse

/-- A use of a rule: what its symbols mean, and the world in which it is used. -/
structure Use (α : Type) where
  rule : Rule
  row : List α
  world : World

/-- The uses of rules in a parse, in order. -/
def uses {α : Type} (r : Reading Eval α) : Nat → Configuration α → World → List (Use α)
  | 0, _, _ => []
  | moves + 1, c, w =>
    match c.move r.leaf with
    | .advance c => uses r moves c w
    | .stray character line c => (r.stray character line).onward (fun _ => uses r moves c) w
    | .overlong digits c => (r.overlong digits).onward (fun _ => uses r moves c) w
    | .reduce rule row state c =>
      ⟨rule, row, w⟩ :: (r.reduce rule row).onward
        (fun m => uses r moves (c.push (.nonterminal rule.lhs) state m)) w
    | .recover t reported c =>
      (if reported then r.report (some t) else pure ()).onward (fun _ => uses r moves c) w
    | .accept _ | .reject _ | .stuck => []

/-- A use of a rule with honest meanings in an honest world. What the world has written after it stays written. -/
structure Use.Honest (past : Past) (s : Settings) (last : World) (use : Use Meaning) : Prop where
  world : use.world.Honest past
  row : Meaning.HonestRow past use.rule.rhs use.row
  written : ∀ m after, Meaning.ofRule s use.rule use.row use.world = .ok m after →
    after.output.toList <+: last.output.toList

end Parse

open Parse in
/-- All uses of rules in a parse are honest. -/
theorem honest_uses (mixed : past.mixed = true) (moves : Nat) {c : Configuration Meaning} (honest : w.Honest past)
    (fine : c.Honest past) {use : Use Meaning} (member : use ∈ uses (Meaning.reading s) moves c w) :
    use.Honest past s ((run (Meaning.reading s) moves c).final w) := by
  have lenient : past.mixed ≠ false := ne_false_of_eq_true mixed
  induction moves generalizing w c with
  | zero => cases member
  | succ moves ih =>
    have stages : (c.move (Meaning.reading s).leaf).Honest past := fine.move
    have said {x : Eval Unit} {next : Configuration Meaning} (upholds : Upholds past w x fun _ => True)
        (stage : next.Honest past) (later : use ∈ x.onward (fun _ => uses (Meaning.reading s) moves next) w) :
        use.Honest past s ((do x; run (Meaning.reading s) moves next).final w) := by
      obtain ⟨_, after, ended, later⟩ := mem_onward later
      rw [final_bind_of_ok ended]
      exact ih (upholds.of_ok ended).1.honest stage later
    rw [run]
    unfold uses at member
    generalize c.move (Meaning.reading s).leaf = move at stages member ⊢
    cases move with
    | advance next => exact ih honest stages member
    | stray character line next => exact said (.emit honest) stages member
    | overlong digits next => cases member
    | reduce rule row state next =>
      have onto {m after} (ended : Meaning.ofRule s rule row w = .ok m after) : after.Honest past ∧
          (next.push (.nonterminal rule.lhs) state m).Honest past := by
        obtain ⟨upheld, meaning⟩ := (Meaning.upholds_rule honest stages.1).of_ok ended
        refine ⟨upheld.honest, List.forall_mem_cons.2 ⟨?_, stages.2.stack⟩, stages.2.next, stages.2.rest⟩
        exact meaning fun strict => absurd strict lenient
      show use.Honest past s ((Meaning.ofRule s rule row >>= fun m =>
        run (Meaning.reading s) moves (next.push (.nonterminal rule.lhs) state m)).final w)
      rcases List.mem_cons.1 member with rfl | later
      · refine ⟨honest, stages.1, fun m after (ended : Meaning.ofRule s rule row w = _) => ?_⟩
        rw [final_bind_of_ok ended]
        obtain ⟨honest, fine⟩ := onto ended
        exact (upholds_run moves honest fine fun strict => absurd strict lenient).final.written
      · obtain ⟨m, after, ended, later⟩ := mem_onward later
        have ended : Meaning.ofRule s rule row w = .ok m after := ended
        rw [final_bind_of_ok ended]
        obtain ⟨honest, fine⟩ := onto ended
        exact ih honest fine later
    | recover t reported next =>
      cases reported with
      | true => exact said (.emit honest) stages member
      | false => exact said (.pure honest trivial) stages member
    | accept _ | reject _ | stuck => cases member

/-! ## Strings without parentheses -/

/-- Whether no string that a scan meets has a parenthesis. -/
def Scan.isPlain (scan : Scan) : Bool := scan.tokens.all fun t => t.kind ≠ .string || Text.isPlain t.text

/-- All may have been read but parentheses in strings. -/
def Past.plain : Past where
  mixed := true
  seen _ := true
  reads _ := true
  seen_of_reads _ _ := rfl
  texts := Text.isPlain
  texts_append left right := by
    rw [Text.isPlain_append, left, right]
    rfl

/-- No name has a parenthesis. -/
theorem Token.isPlain_text {line : String} {t : Token} (member : .token t ∈ (Scan.ofText line).items)
    (named : t.kind = .identifier) : Text.isPlain t.text = true := by
  obtain ⟨chars, writes⟩ := Scan.lexeme_ofText member
  obtain ⟨content, inside⟩ := writes.of_identifier named
  have text : t.text = String.ofList chars := by
    have content : t.content = .text (String.ofList chars) := content
    rw [Token.text, content]
  rw [text, Text.isPlain_iff, String.toList_ofList]
  exact ⟨fun member => absurd (inside _ member) (by decide), fun member => absurd (inside _ member) (by decide)⟩

namespace Session

variable {session : Session} {line : String}

/-- The uses of rules in a line, in order. -/
def uses (s : Settings) (session : Session) (line : String) : List (Parse.Use Meaning) :=
  let c := Parse.Configuration.start (Scan.ofText line).items
  Parse.uses (Meaning.reading s) (c.weight + 1) c ⟨session.bindings, session.store, #[]⟩

/-- The sessions to which lines lead whose strings have no parentheses. -/
inductive Plain : Session → Prop where
  | fresh : Plain fresh
  | step {session : Session} (reached : Plain session) (s : Settings) {line : String}
      (strings : (Scan.ofText line).isPlain = true) : Plain (session.step s line).2

theorem allows_plain (strings : (Scan.ofText line).isPlain = true) : Allows .plain line := by
  intro t member
  have listed : t ∈ (Scan.ofText line).tokens := List.mem_filterMap.2 ⟨.token t, member, rfl⟩
  have string := List.all_eq_true.1 strings t listed
  rw [Past.allows, Bool.and_eq_true, Bool.or_eq_true]
  refine ⟨rfl, ?_⟩
  by_cases name : t.kind = .identifier
  · exact .inl (Token.isPlain_text member name)
  by_cases quoted : t.kind = .string
  · have plain : Text.isPlain t.text = true := by simpa [quoted] using string
    exact .inl plain
  · exact .inr (by simp [name, quoted])

theorem Plain.honest (reached : session.Plain) : session.Honest .plain := by
  induction reached with
  | fresh => exact honest_fresh
  | step reached s strings ih => exact ih.step s (allows_plain strings) nofun

/-- What a line has written is what its parse has written. -/
theorem events_step (s : Settings) (session : Session) (line : String) : (session.step s line).1.events =
    ((Parse.parse (Meaning.reading s) (Scan.ofText line).items).final
      ⟨session.bindings, session.store, #[]⟩).output.toList := by
  unfold step run evaluation final
  cases ended : Parse.parse (Meaning.reading s) (Scan.ofText line).items ⟨session.bindings, session.store, #[]⟩ with
  | ok outcome after =>
    rw [bind_of_ok ended]
    rfl
  | error e after => rw [bind_of_error ended]

/-- All uses of rules in a line are honest, and what has been written after one is among the events of the line. -/
theorem Honest.use (honest : session.Honest past) (mixed : past.mixed = true) (allows : Allows past line)
    {use : Parse.Use Meaning} (member : use ∈ session.uses s line) :
    use.world.Honest past ∧ Meaning.HonestRow past use.rule.rhs use.row ∧
      ∀ m after, Meaning.ofRule s use.rule use.row use.world = .ok m after →
        after.output.toList <+: (session.step s line).1.events := by
  have start : World.Honest past ⟨session.bindings, session.store, #[]⟩ := honest
  obtain ⟨world, row, written⟩ := honest_uses mixed _ start allows.start member
  rw [events_step]
  exact ⟨world, row, written⟩

end Session

/-! ## What is printed -/

/-- The term that is to be printed where the rule of `print` is used. -/
def Parse.Use.printed? : Use Meaning → Option Term
  | ⟨.print, [_, .term t], _⟩ => some t
  | _ => none

theorem Parse.Use.eq_of_printed? {use : Use Meaning} {t : Term} (prints : use.printed? = some t) :
    ∃ word w, use = ⟨.print, [word, .term t], w⟩ := by
  unfold printed? at prints
  split at prints
  · cases prints
    exact ⟨_, _, rfl⟩
  · cases prints

theorem Meaning.ok_of_print {t : Term} {after : World} (printed : Meaning.print s t w = .ok () after) :
    ∃ v between shown, Meaning.simplifyNow s t w = .ok v between ∧ v.printed between.store s.depth = .ok shown ∧
      after = ⟨between.bindings, between.store,
        between.output.push (.line (Text.Peeled.peel "(" ")" shown))⟩ := by
  obtain ⟨v, between, simplified, displayed⟩ := ok_of_bind printed
  obtain ⟨shown, last, examined, emitted⟩ := ok_of_bind displayed
  obtain ⟨found, rfl⟩ := ok_of_examine examined
  cases emitted
  exact ⟨v, last, shown, simplified, found, rfl⟩

/-- In a session whose strings have no parentheses, every text that `print` writes closes as many parentheses as it
opens. It is balanced exactly if the outer parentheses of the printed form of the term belong together, and so it is
where no chain in the term begins with a parenthesis and ends with one within its own. -/
theorem prints_balanced_iff {session : Session} (reached : session.Plain) (s : Settings) {line : String}
    (strings : (Scan.ofText line).isPlain = true) {use : Parse.Use Meaning} (used : use ∈ session.uses s line)
    {t : Term} (prints : use.printed? = some t) {after : World}
    (printed : Meaning.print s t use.world = .ok () after) :
    ∃ v between text, Meaning.simplifyNow s t use.world = .ok v between ∧
      after.output = between.output.push (.line text) ∧ .line text ∈ (session.step s line).1.events ∧
      text.toList.count '(' = text.toList.count ')' ∧
      (Text.Balanced text ↔ (v.outline between.store s.depth).Paired) ∧
      (v.EndsApart between.store → Text.Balanced text) := by
  obtain ⟨v, between, shown, simplified, found, rfl⟩ := Meaning.ok_of_print printed
  obtain ⟨world, row, written⟩ := reached.honest.use rfl (Session.allows_plain strings) used
  obtain ⟨word, w, rfl⟩ := Parse.Use.eq_of_printed? prints
  obtain ⟨_, _, row, -, _, _, rest, fine, -⟩ := row
  cases row
  cases rest
  obtain ⟨upheld, honest⟩ := (Meaning.upholds_simplifyNow world fine).of_ok simplified
  have outlined := honest.outlined (fun _ plain => plain) upheld.honest.items found
  have balanced := outlined.fits.balanced_peel_iff
  have peeled : ((v.outline between.store s.depth).peeled 1).Fits _ := outlined.fits.peel Nat.one_pos
  have carried : (do Meaning.print s t; pure (Meaning.done none) : Eval Meaning) w = _ := bind_of_ok printed
  have events := written _ _ carried
  refine ⟨v, between, _, simplified, rfl, events.subset ?_, ?_, balanced, fun apart => ?_⟩
  · simp
  · have level := peeled.level_eq
    rw [Text.level] at level
    exact Int.ofNat_inj.1 (Int.sub_eq_zero.1 level)
  · exact balanced.2 (outlined.paired apart)

/-- A chain that begins with another one, whose outer parentheses belong together. -/
theorem prints_balanced_iff_of_first : ∃ (use : Parse.Use Meaning) (t v : Term) (between after : World),
    use ∈ Session.fresh.uses ⟨false, Session.usualDepth⟩ "print (a . b) . c" ∧ use.printed? = some t ∧
      Meaning.print ⟨false, Session.usualDepth⟩ t use.world = .ok () after ∧
      after.output.toList = [.line "(a . b) . c"] ∧
      Meaning.simplifyNow ⟨false, Session.usualDepth⟩ t use.world = .ok v between ∧
      (v.outline between.store Session.usualDepth).Paired := by
  have found : [.line "(a . b) . c"] ∈ (Session.fresh.uses ⟨false, Session.usualDepth⟩ "print (a . b) . c").flatMap
      fun use => use.printed?.toList.flatMap fun t =>
        (Meaning.print ⟨false, Session.usualDepth⟩ t).onward (fun _ after => [after.output.toList]) use.world := by
    decide +kernel
  obtain ⟨use, used, found⟩ := List.mem_flatMap.1 found
  obtain ⟨t, prints, found⟩ := List.mem_flatMap.1 found
  obtain ⟨_, after, printed, found⟩ := mem_onward found
  have output := (List.mem_singleton.1 found).symm
  have prints := Option.mem_toList.1 prints
  obtain ⟨v, between, text, simplified, written, -, -, balanced, -⟩ :=
    prints_balanced_iff .fresh _ (by decide +kernel) used prints printed
  obtain rfl : text = "(a . b) . c" := by
    have last := congrArg List.getLast? output
    rw [written, Array.toList_push] at last
    simpa using last
  exact ⟨use, t, v, between, after, used, prints, printed, output, simplified, balanced.1 (by decide +kernel)⟩

/-- The two outer parentheses that are dropped last need not belong together. -/
theorem prints_unbalanced :
    (Scan.ofText "print (a . b) . \\ z => (c . d)").isPlain = true ∧
      (Session.fresh.step ⟨false, Session.usualDepth⟩ "print (a . b) . \\ z => (c . d)").1.outcome =
        .ok [.line "a . b) . \\ z => (c . d"] ∧
      ¬ Text.Balanced "a . b) . \\ z => (c . d" := by
  decide +kernel

end DotLambda
