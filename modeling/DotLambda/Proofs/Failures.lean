import DotLambda.Proofs.Application
import DotLambda.Proofs.Tags

/-!
How lines fail. A failure is foreseen if the language has words of its own for it: a complaint about operands,
variables or lists, a division by zero, a number that is too long, or nesting without end. Main statement: all
values of a session are of the kinds that the language knows, and a line fails as foreseen but in three cases. A
name is to be replaced in a string, for which replacement has no rule; `and`, `or` or `not` stands by a term that
has no value; or a list is to be sorted in which `and` and `or` have put a text by an integer.
-/

namespace DotLambda

open Eval

/-! ## What has been read -/

/-- Whether lines have a token of a kind. -/
def Kind.isIn (kind : Kind) (lines : List String) : Bool :=
  lines.any fun line => (Scan.ofText line).tokens.any fun t => t.kind = kind

theorem Token.kind_isIn {t : Token} {line : String} (member : .token t ∈ (Scan.ofText line).items) :
    t.kind.isIn [line] = true := by
  have listed : t ∈ (Scan.ofText line).tokens := List.mem_filterMap.2 ⟨.token t, member, rfl⟩
  simpa [Kind.isIn] using ⟨t, listed, rfl⟩

namespace Past

/-- What lines have brought in, when another line is being read. -/
def ofLines (mixed : Bool) (lines : List String) (line : String) : Past where
  mixed := mixed
  seen kind := kind.isIn (line :: lines)
  reads kind := kind.isIn [line]
  seen_of_reads kind read := by simp_all [Kind.isIn]
  texts _ := true
  texts_append _ _ := rfl

section

variable (mixed : Bool) (lines : List String) (line : String) (kind : Kind)

@[simp] theorem seen_ofLines : (ofLines mixed lines line).seen kind = kind.isIn (line :: lines) := rfl

@[simp] theorem reads_ofLines : (ofLines mixed lines line).reads kind = kind.isIn [line] := rfl

end

/-- All that one past allows, another allows. -/
structure Within (past more : Past) : Prop where
  mixed : past.mixed = true → more.mixed = true
  seen : ∀ kind, past.seen kind = true → more.seen kind = true
  texts : ∀ text, past.texts text = true → more.texts text = true

theorem ofLines_within (mixed : Bool) (lines : List String) (line next : String) :
    (ofLines mixed lines line).Within (ofLines mixed (line :: lines) next) where
  mixed := id
  seen kind before := by
    rw [seen_ofLines] at before ⊢
    rw [Kind.isIn, List.any_cons, Bool.or_eq_true]
    exact .inr before
  texts _ named := named

end Past

variable {past more : Past}

namespace Datum

theorem isNumber_mono {mixed more : Bool} {d : Datum} (wider : mixed = true → more = true)
    (holds : d.isNumber mixed = true) : d.isNumber more = true := by
  cases d with
  | int => rfl
  | text => exact wider holds
  | none | bool | list | term => cases holds

theorem isTruth_mono {mixed more : Bool} {d : Datum} (wider : mixed = true → more = true)
    (holds : d.isTruth mixed = true) : d.isTruth more = true := by
  cases d with
  | bool => rfl
  | int | text => exact wider holds
  | none | list | term => cases holds

end Datum

theorem Term.Honest.mono {t : Term} (honest : t.Honest past) (within : past.Within more) : t.Honest more := by
  have admits {d : Datum} (admitted : past.Admits d) : more.Admits d := fun text is =>
    ⟨within.seen .string (admitted text is).1, within.texts text (admitted text is).2⟩
  induction honest with
  | int holds admitted => exact .int (Datum.isNumber_mono within.mixed holds) (admits admitted)
  | bool holds admitted => exact .bool (Datum.isTruth_mono within.mixed holds) (admits admitted)
  | string holds admitted => exact .string holds (admits admitted)
  | name named => exact .name (within.texts _ named)
  | function named inner seen ih => exact .function (within.texts _ named) ih (within.seen .lambda seen)
  | operation left known right ihLeft ihRight => exact .operation ihLeft known ihRight
  | conditional first second third ihFirst ihSecond ihThird => exact .conditional ihFirst ihSecond ihThird
  | chain each ih => exact .chain ih
  | list cell => exact .list cell

namespace Session

variable {session : Session} {lines : List String} {line : String}

theorem Honest.mono (honest : session.Honest past) (within : past.Within more) : session.Honest more where
  bindings entry member := (honest.bindings entry member).mono within
  items cell t member := (honest.items cell t member).mono within

/-- The sessions to which lines lead, of which the last comes first. -/
inductive After : List String → Session → Prop where
  | fresh : After [] fresh
  | step {lines : List String} {session : Session} (before : After lines session) (s : Settings) (line : String) :
      After (line :: lines) (session.step s line).2

theorem allows_ofLines (mixed : Bool) (lines : List String) (line : String) :
    Allows (.ofLines mixed lines line) line := by
  intro t member
  rw [Past.allows, Past.reads_ofLines, Token.kind_isIn member]
  rfl

theorem After.honest (after : After lines session) (line : String) : session.Honest (.ofLines true lines line) := by
  induction after generalizing line with
  | fresh => exact honest_fresh
  | step before s last ih =>
    exact ((ih last).step s (allows_ofLines _ _ last) nofun).mono (Past.ofLines_within _ _ last line)

/-! ## Failures -/

/-- A line fails as evaluations may, right after the last event that it has written. -/
theorem Honest.fails (honest : session.Honest past) {s : Settings} (allows : Allows past line)
    (logical : past.mixed = false → session.isLogical s line = true) {e : Error}
    (failed : (session.step s line).1.outcome = .error e) :
    ∃ w : World, (session.step s line).1.events = w.output.toList ∧ past.Fails w e := by
  unfold Session.step at failed ⊢
  rcases (upholds_iff.1 (honest.evaluation s allows logical)).run with
    ⟨_, after, ended, -⟩ | ⟨_, after, ended, -, fails⟩
  · rw [ended] at failed
    cases failed
  · rw [ended] at failed ⊢
    cases failed
    exact ⟨after, rfl, fails⟩

end Session

/-- Whether a term is of one of the kinds that the language knows, and has the parts of its kind. -/
def Term.isKnown : Term → Bool
  | int _ | bool _ | string _ | name _ | function _ _ | operation _ _ _ | conditional _ _ _ | chain _ | list _ => true
  | nameless _ | wrapped _ | itemless _ _ | unknown _ | datum _ => false

theorem Term.Honest.isKnown {t : Term} (honest : t.Honest past) : t.isKnown = true := by
  cases honest <;> rfl

/-- All values of a session are of known kinds, and a line fails as foreseen but in three cases. Replacement has met
a string, which it says before it fails, and a string and a function have been read; the line has `and`, `or` or
`not`, whose operand has no value; or the line sorts, and not all that `and` and `or` have come to are booleans. -/
theorem failures_known {lines : List String} {session : Session} (after : session.After lines) (s : Settings)
    (line : String) :
    (∀ id t u, (session.step s line).2.bindings.find? id = some t → (session.step s line).2.store.Leads t u →
      u.isKnown = true) ∧
    ∀ e, (session.step s line).1.outcome = .error e → e.isForeseen = true ∨
      (e = .unset "v" ∧
        (session.step s line).1.events.getLast? = some (.line "ERROR:  fall through in replace") ∧
        Kind.string.isIn (line :: lines) = true ∧ Kind.lambda.isIn (line :: lines) = true) ∨
      (e = .noPart "Value" "value" ∧
        (Kind.andWord.isIn [line] = true ∨ Kind.orWord.isIn [line] = true ∨ Kind.notWord.isIn [line] = true)) ∨
      (e = .unordered "<=" "int" "str" ∨ e = .unordered "<=" "str" "int") ∧ Kind.sortWord.isIn [line] = true ∧
        Kind.string.isIn (line :: lines) = true ∧ ¬ (session.Logical ∧ session.isLogical s line = true) := by
  have honest := after.honest line
  have allows := Session.allows_ofLines true lines line
  constructor
  · intro id t u bound leads
    have stepped := honest.step s allows nofun
    exact ((stepped.bindings.find? bound).leads stepped.items leads).isKnown
  · intro e failed
    obtain ⟨w, events, fails⟩ := honest.fails allows nofun failed
    cases fails with
    | foreseen known => exact .inl known
    | unreplaced said string function =>
      rw [Past.seen_ofLines] at string function
      rw [events, Array.getLast?_toList]
      exact .inr (.inl ⟨rfl, said, string, function⟩)
    | valueless logic =>
      simp only [Past.Logic, Past.reads_ofLines] at logic
      exact .inr (.inr (.inl ⟨rfl, logic⟩))
    | @unordered l r types sorts mixed string =>
      rw [Past.reads_ofLines] at sorts
      rw [Past.seen_ofLines] at string
      refine .inr (.inr (.inr ⟨?_, sorts, string, ?_⟩))
      · rcases types with ⟨rfl, rfl⟩ | ⟨rfl, rfl⟩
        · exact .inl rfl
        · exact .inr rfl
      · rintro ⟨logical, here⟩
        -- where kinds are not mixed, integer literals hold integers, which have an order
        obtain ⟨_, -, fails⟩ := logical.honest.fails (fun _ _ => rfl) (fun _ => here) failed
        cases fails with
        | foreseen known => cases known
        | unordered _ _ mixed => cases mixed

/-- A function whose body is a variable that stands for a string. -/
theorem failures_known_of_variable : ∃ session : Session,
    session = (Session.fresh.step ⟨false, Session.usualDepth⟩ "y := \x22a\x22").2 ∧
    session.After ["y := \x22a\x22"] ∧
    (session.step ⟨false, Session.usualDepth⟩ "print (\\ x => y) . 1").1.outcome = .error (.unset "v") ∧
    (session.step ⟨false, Session.usualDepth⟩ "print (\\ x => y) . 1").1.events.getLast? =
      some (.line "ERROR:  fall through in replace") := by
  have after := Session.After.step .fresh ⟨false, Session.usualDepth⟩ "y := \x22a\x22"
  have failed : ((Session.fresh.step ⟨false, Session.usualDepth⟩ "y := \x22a\x22").2.step
      ⟨false, Session.usualDepth⟩ "print (\\ x => y) . 1").1.outcome = .error (.unset "v") := by
    decide +kernel
  generalize (Session.fresh.step ⟨false, Session.usualDepth⟩ "y := \x22a\x22").2 = session at after failed
  refine ⟨session, rfl, after, failed, ?_⟩
  rcases (failures_known after ⟨false, Session.usualDepth⟩ "print (\\ x => y) . 1").2 _ failed with
    foreseen | ⟨-, said, -⟩ | ⟨other, -⟩ | ⟨other | other, -⟩
  · cases foreseen
  · exact said
  · cases other
  · cases other
  · cases other

/-- A name is not replaced in a string, a list has no value that could be negated, and an integer literal that holds
a text is not sorted with one that holds an integer. -/
theorem failures_differ :
    let reply (line : String) := (Session.fresh.step ⟨false, Session.usualDepth⟩ line).1
    (reply "print (\\ x => \x22a\x22) . 1").outcome = .error (.unset "v") ∧
      (reply "print (\\ x => \x22a\x22) . 1").events = [.line "ERROR:  fall through in replace"] ∧
      (reply "print not [1]").outcome = .error (.noPart "Value" "value") ∧
      (reply "print sort . [1, (\x22a\x22 and \x22b\x22) + (\x22c\x22 and \x22d\x22)]").outcome =
        .error (.unordered "<=" "int" "str") := by
  decide +kernel

end DotLambda
