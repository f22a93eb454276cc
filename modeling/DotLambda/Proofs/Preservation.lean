import DotLambda.Proofs.Honesty
import DotLambda.Proofs.Wording

/-!
What evaluations preserve. Main statement: simplification, replacement and sorting make honest terms of honest
terms, and fail in ways that are foreseen, up to two: a name is to be replaced in a string, or a list to be sorted
whose integer literals hold both integers and texts.
-/

namespace DotLambda

variable {past : Past}

/-! ## Evaluations -/

/-- Whether the line that is being read may have an `and`, an `or` or a `not`. -/
def Past.Logic (past : Past) : Prop :=
  past.reads .andWord = true ∨ past.reads .orWord = true ∨ past.reads .notWord = true

/-- How an evaluation may fail. -/
inductive Past.Fails (past : Past) (w : World) : Error → Prop
  | foreseen {e : Error} (known : e.isForeseen = true) : Fails past w e
  /-- A name was to be replaced in a string, which has been said. -/
  | unreplaced (said : w.output.back? = some (.line "ERROR:  fall through in replace"))
      (string : past.seen .string = true) (function : past.seen .lambda = true) : Fails past w (.unset "v")
  /-- `and`, `or` or `not` stood by a term that has no value. -/
  | valueless (logic : past.Logic) : Fails past w (.noPart "Value" "value")
  /-- An integer literal that holds a text was to be sorted with one that holds an integer. -/
  | unordered {l r : String} (types : (l = "int" ∧ r = "str") ∨ (l = "str" ∧ r = "int"))
      (sorts : past.reads .sortWord = true) (mixed : past.mixed = true) (string : past.seen .string = true) :
      Fails past w (.unordered "<=" l r)

/-- A world to which another has come: it is honest, and what had been written is still there. -/
structure World.Upheld (past : Past) (w after : World) : Prop where
  honest : after.Honest past
  written : w.output.toList <+: after.output.toList

theorem World.Upheld.refl {w : World} (honest : w.Honest past) : w.Upheld past w := ⟨honest, List.prefix_rfl⟩

theorem World.Upheld.trans {w between after : World} (first : w.Upheld past between)
    (second : between.Upheld past after) : w.Upheld past after :=
  ⟨second.honest, first.written.trans second.written⟩

namespace Eval

/-- An evaluation that leaves the world honest and what has been written in its place, whether it succeeds or
fails, has a good result, and fails only as evaluations may. -/
def Upholds {α : Type} (past : Past) (w : World) (x : Eval α) (good : α → Prop) : Prop :=
  match x w with
  | .ok a after => w.Upheld past after ∧ good a
  | .error e after => w.Upheld past after ∧ past.Fails after e

/-- An evaluation of an honest term that leaves the world honest. -/
abbrev UpholdsTerm (past : Past) (w : World) (x : Eval Term) : Prop :=
  Upholds past w x fun t => t.Honest past

/-- An evaluation of honest terms that leaves the world honest. -/
abbrev UpholdsTerms (past : Past) (w : World) (x : Eval (List Term)) : Prop :=
  Upholds past w x fun out => ∀ t ∈ out, t.Honest past

theorem upholds_iff {α : Type} {w : World} {x : Eval α} {good : α → Prop} : Upholds past w x good ↔
    Finishes w x (fun after a => w.Upheld past after ∧ good a) fun after e => w.Upheld past after ∧ past.Fails after e :=
  Iff.rfl

namespace Upholds

variable {α β : Type} {w : World} {x : Eval α} {good : α → Prop}

theorem pure {a : α} (honest : w.Honest past) (fine : good a) : Upholds past w (pure a) good :=
  ⟨.refl honest, fine⟩

theorem fail {e : Error} (honest : w.Honest past) (fails : past.Fails w e) : Upholds past w (throw e) good :=
  ⟨.refl honest, fails⟩

theorem throw {e : Error} (honest : w.Honest past) (known : e.isForeseen = true) :
    Upholds past w (throw e) good :=
  fail honest (.foreseen known)

theorem mono {better : α → Prop} (upholds : Upholds past w x good) (widens : ∀ a, good a → better a) :
    Upholds past w x better :=
  (upholds_iff.1 upholds).mono (fun _ a done => ⟨done.1, widens a done.2⟩) fun _ _ failed => failed

theorem sequence {f : α → Eval β} {best : β → Prop} (first : Upholds past w x good)
    (next : ∀ a after, x w = .ok a after → after.Honest past → good a → Upholds past after (f a) best) :
    Upholds past w (x >>= f) best := by
  refine upholds_iff.2 ((upholds_iff.1 first).bind fun a after ended done => ?_)
  have rest := upholds_iff.1 (next a after ended done.1.honest done.2)
  exact rest.mono (fun _ _ last => ⟨done.1.trans last.1, last.2⟩) fun _ _ last => ⟨done.1.trans last.1, last.2⟩

theorem bind {f : α → Eval β} {best : β → Prop} (first : Upholds past w x good)
    (next : ∀ a after, after.Honest past → good a → Upholds past after (f a) best) :
    Upholds past w (x >>= f) best :=
  first.sequence fun a after _ => next a after

theorem get {f : World → Eval β} {best : β → Prop} (next : Upholds past w (f w) best) :
    Upholds past w (MonadState.get >>= f) best := next

theorem ofExcept {x : Except Error α} (honest : w.Honest past) (foreseen : Foreseen x)
    (fine : ∀ a, x = .ok a → good a) : Upholds past w (Eval.ofExcept x) good := by
  cases x with
  | ok a => exact .pure honest (fine a rfl)
  | error e => exact .throw honest (foreseen e rfl)

theorem examine {f : Store → Except Error α} (honest : w.Honest past) (foreseen : Foreseen (f w.store))
    (fine : ∀ a, f w.store = .ok a → good a) : Upholds past w (Eval.examine f) good :=
  .get (.ofExcept honest foreseen fine)

theorem look {f : Store → Except Error α} (honest : w.Honest past) (foreseen : Foreseen (f w.store)) :
    Upholds past w (Eval.examine f) fun _ => True :=
  examine honest foreseen fun _ _ => trivial

theorem emit {e : Event} (honest : w.Honest past) : Upholds past w (Eval.emit e) fun _ => True := by
  refine ⟨⟨⟨honest.bindings, honest.items⟩, ?_⟩, trivial⟩
  rw [Array.toList_push]
  exact List.prefix_append _ _

theorem trace {s : Settings} {color : Color} {text : Store → Except Error String} (honest : w.Honest past)
    (foreseen : Foreseen (text w.store)) : Upholds past w (Eval.trace s color text) fun _ => True := by
  unfold Eval.trace
  split
  · exact (look honest foreseen).bind fun _ _ honest _ => .emit honest
  · exact .pure honest trivial

theorem announce {s : Settings} {kind : String} {components : Bindings Component} (honest : w.Honest past)
    (each : ∀ entry ∈ components, Foreseen (entry.2.dumped w.store s.depth)) :
    Upholds past w (Eval.announce s kind components) fun _ => True :=
  trace honest (Component.foreseen_dumpedBindings each).map

theorem announceResult {s : Settings} {t : Term} (honest : w.Honest past) (fine : t.Honest past) :
    Upholds past w (Eval.announceResult s t) fun _ => True :=
  trace honest (fine.dumped honest).map

theorem make {s : Settings} {t : Term} (honest : w.Honest past) (fine : t.Honest past) :
    UpholdsTerm past w (Eval.make s t) :=
  (announce honest (fine.components honest.items s.depth)).bind fun _ _ honest _ =>
    (announceResult honest fine).bind fun _ _ honest _ => .pure honest fine

theorem newList {items : List Term} (honest : w.Honest past) (fine : ∀ t ∈ items, t.Honest past) :
    UpholdsTerm past w (Eval.newList items) := by
  refine ⟨⟨⟨honest.bindings, fun cell t member => ?_⟩, List.prefix_rfl⟩, .list _⟩
  rcases Nat.lt_trichotomy cell w.store.size with old | rfl | beyond
  · rw [Store.items_allocate_of_lt w.store items old] at member
    exact honest.items cell t member
  · rw [Store.items_allocate_self] at member
    exact fine t member
  · rw [Store.items_of_le (by rw [Store.size_allocate]; exact beyond)] at member
    cases member

theorem makeList {s : Settings} {items : List Term} (honest : w.Honest past)
    (fine : ∀ t ∈ items, t.Honest past) : UpholdsTerm past w (Eval.makeList s items) := by
  have elements : Foreseen (Component.dumped w.store s.depth (.terms items)) :=
    (Foreseen.mapM fun t member => (fine t member).dumped honest).map
  refine (announce honest (List.forall_mem_singleton.2 elements)).bind fun _ _ honest _ => ?_
  refine (newList honest fine).bind fun _ _ honest made => ?_
  exact (announceResult honest made).bind fun _ _ honest _ => .pure honest made

theorem copy {t : Term} (honest : w.Honest past) (fine : t.Honest past) :
    UpholdsTerm past w (Eval.copy t) := by
  unfold UpholdsTerm Upholds
  rw [copy_eq_self fine.references]
  exact ⟨.refl honest, fine⟩

theorem mapM {f : Term → Eval Term} {items : List Term} (honest : w.Honest past)
    (each : ∀ after, after.Honest past → ∀ t ∈ items, UpholdsTerm past after (f t)) :
    UpholdsTerms past w (items.mapM f) := by
  induction items generalizing w with
  | nil => exact .pure honest (by simp)
  | cons t rest ih =>
    rw [List.mapM_cons]
    refine (each w honest t List.mem_cons_self).bind fun first middle honest here => ?_
    refine (ih honest fun after honest u member => each after honest u (List.mem_cons_of_mem t member)).bind
      fun others after honest later => ?_
    exact .pure honest (List.forall_mem_cons.2 ⟨here, later⟩)

theorem forM {f : α → Eval Unit} {items : List α} (honest : w.Honest past)
    (each : ∀ after, after.Honest past → ∀ a ∈ items, Upholds past after (f a) fun _ => True) :
    Upholds past w (items.forM f) fun _ => True := by
  induction items generalizing w with
  | nil => exact .pure honest trivial
  | cons a rest ih =>
    refine (each w honest a List.mem_cons_self).bind fun _ _ honest _ => ?_
    exact ih honest fun after honest b member => each after honest b (List.mem_cons_of_mem a member)

end Upholds

end Eval

open Eval

variable {w : World} {s : Settings}

/-! ## Simplification -/

namespace Simplify

/-- A way to evaluate terms that upholds honesty. -/
def Honest (past : Past) (f : Term → Eval Term) : Prop :=
  ∀ {w : World}, w.Honest past → ∀ {t : Term}, t.Honest past → UpholdsTerm past w (f t)

variable {lookup : Lookup}

/-- A way to replace parameters of functions by honest terms that upholds honesty. -/
def HonestReplace (past : Past) (f : Datum → Term → Term → Eval Term) : Prop :=
  past.seen .lambda = true → ∀ x {value : Term}, value.Honest past → Honest past (f (.text x) value)

theorem honest_of_functionOf? {t body : Term} {parameter : Datum} (known : lookup.Honest past)
    (fine : t.Honest past) (found : functionOf? lookup t = some (parameter, body)) :
    (∃ x, parameter = .text x) ∧ body.Honest past ∧ past.seen .lambda = true := by
  have inner {u : Term} (fine : u.Honest past) (is : u = .function parameter body) :
      (∃ x, parameter = .text x) ∧ body.Honest past ∧ past.seen .lambda = true := by
    subst is
    cases fine with
    | function named inner seen => exact ⟨⟨_, rfl⟩, inner, seen⟩
  unfold functionOf? at found
  split at found
  · cases found
    exact inner fine rfl
  · split at found
    · rename_i bound
      cases found
      exact inner (known.find? bound) rfl
    · cases found
  · cases found

theorem upholds_contract {f : Datum → Term → Term → Eval Term}
    (apply : HonestReplace past f) (known : lookup.Honest past)
    {rest : List Term} {first : Term} (honest : w.Honest past) (here : first.Honest past)
    (later : ∀ t ∈ rest, t.Honest past) : UpholdsTerms past w (contract lookup f first rest) := by
  induction rest generalizing w first with
  | nil => exact .pure honest (by simpa using here)
  | cons next rest ih =>
    rw [List.forall_mem_cons] at later
    unfold contract
    split
    · rename_i found _
      obtain ⟨⟨x, rfl⟩, body, seen⟩ := honest_of_functionOf? known here found
      refine (apply seen x later.1 honest body).bind fun result _ honest fine => ?_
      exact ih honest fine later.2
    · refine (ih honest later.1 later.2).bind fun out _ honest fine => ?_
      exact .pure honest (List.forall_mem_cons.2 ⟨here, fine⟩)

theorem upholds_contractAll {f : Datum → Term → Term → Eval Term}
    (apply : HonestReplace past f) (known : lookup.Honest past)
    {items : List Term} (honest : w.Honest past) (fine : ∀ t ∈ items, t.Honest past) :
    UpholdsTerms past w (contractAll lookup f items) := by
  cases items with
  | nil => exact .pure honest fine
  | cons first rest =>
    rw [List.forall_mem_cons] at fine
    exact upholds_contract apply known honest fine.1 fine.2

theorem honest_resolve {f : Term → Eval Term} (simplify : Honest past f) (known : lookup.Honest past) :
    Honest past (resolve lookup f) := by
  intro w honest t fine
  unfold resolve
  split
  · split
    · rename_i bound
      exact simplify honest (known.find? bound)
    · exact .pure honest fine
  · exact .pure honest fine

theorem upholds_literal {op : Operator} {l r : Datum} {wrap : Datum → Term} (honest : w.Honest past)
    (left : past.Holds l) (right : past.Holds r)
    (fine : ∀ {store : Store} {d : Datum}, op.apply (Term.wording store s.depth) l r = .ok d →
      (wrap d).Honest past) :
    UpholdsTerm past w (do let result ← Eval.apply s op l r; Eval.make s (wrap result)) := by
  have applied : Upholds past w (Eval.apply s op l r) fun d => (wrap d).Honest past :=
    .examine honest (Operator.foreseen_apply left.truth right.truth) fun _ computed => fine computed
  exact applied.bind fun _ _ honest fine => .make honest fine

theorem mixed_of_isNumber {d : Datum} (holds : d.isNumber past.mixed = true) (text : d.isText = true) :
    past.mixed = true := by
  cases d with
  | text s => exact holds
  | none | bool | int | list | term => cases text

theorem mixed_of_isTruth {d : Datum} (holds : d.isTruth past.mixed = true) (text : d.isText = true) :
    past.mixed = true := by
  cases d with
  | text s => exact holds
  | none | bool | int | list | term => cases text

theorem upholds_compute {op : Operator} (known : op.isKnown = true) {lhs rhs : Term} (honest : w.Honest past)
    (left : lhs.Honest past) (right : rhs.Honest past) : UpholdsTerm past w (compute s op lhs rhs) := by
  unfold compute
  split
  · refine upholds_literal honest (left.value rfl) (right.value rfl) fun computed => ?_
    cases left with
    | int holds admitted =>
      exact honest_literal known (mixed_of_isNumber holds) admitted (right.value rfl).admitted computed
  · refine upholds_literal honest (left.value rfl) (right.value rfl) fun computed => ?_
    cases left with
    | bool holds admitted =>
      exact honest_literal known (mixed_of_isTruth holds) admitted (right.value rfl).admitted computed
  · refine upholds_literal honest (left.value rfl) (right.value rfl) fun computed => ?_
    cases left with
    | string holds admitted =>
      exact honest_stringLiteral known holds admitted (right.value rfl).admitted computed
  · obtain ⟨symbol, sign⟩ := Operator.exists_sign known
    rw [sign]
    exact (Upholds.look honest (.pure symbol)).bind fun _ _ honest _ => .throw honest rfl

/-- The parameter of an honest function is a text that it may have. -/
theorem upholds_parameter {x : String} (honest : w.Honest past) (named : past.texts x = true) :
    Upholds past w (Eval.examine fun store => (Datum.text x).plain (Term.wording store s.depth)) fun y =>
      past.texts y = true := by
  refine .examine honest (.pure x) ?_
  rintro _ ⟨⟩
  exact named

theorem honest_simplified {f : Term → Eval Term} {g : Datum → Term → Term → Eval Term}
    (known : lookup.Honest past) (simplify : Honest past f)
    (replace : HonestReplace past g) :
    Honest past (simplified s lookup f g) := by
  intro w honest t fine
  cases fine with
  | int holds admitted => exact .make honest (.int holds admitted)
  | bool holds admitted => exact .make honest (.bool holds admitted)
  | string holds admitted => exact .make honest (.string holds admitted)
  | name named =>
    simp only [simplified]
    repeat' split
    · exact .make honest (.bool rfl (past.admits_of_not_text rfl))
    · exact .make honest (.bool rfl (past.admits_of_not_text rfl))
    · rename_i bound
      exact simplify honest (known.find? bound)
    · exact .make honest (.name named)
  | function named inner seen =>
    refine (upholds_parameter honest named).bind fun y _ honest named => ?_
    exact (simplify honest inner).bind fun b _ honest fine => .make honest (.function named fine seen)
  | operation left operates right =>
    refine (simplify honest left).bind fun l _ honest left => ?_
    refine (simplify honest right).bind fun r _ honest right => ?_
    refine (honest_resolve simplify known honest left).bind fun l _ honest left => ?_
    refine (honest_resolve simplify known honest right).bind fun r _ honest right => ?_
    exact upholds_compute operates honest left right
  | conditional first second third =>
    refine (simplify honest first).bind fun c _ honest fine => ?_
    split
    · split
      · exact simplify honest second
      · exact simplify honest third
    · exact .make honest (.conditional fine second third)
  | chain each =>
    have all := Upholds.mapM honest fun after honest t member => simplify honest (each t member)
    refine all.bind fun items _ honest fine => ?_
    refine (upholds_contractAll replace known honest fine).bind fun items _ honest fine => ?_
    split
    · exact simplify honest (fine _ List.mem_cons_self)
    · exact .make honest (.chain fine)
  | list cell =>
    have each := honest.items cell
    have all := Upholds.mapM honest fun after honest t member => simplify honest (each t member)
    exact .get (all.bind fun items _ honest fine => .makeList honest fine)

/-- Nothing is replaced in a string: this is said, and replacement fails. -/
theorem upholds_replaced_string {f g : Term → Eval Term} {x d : Datum} {value : Term}
    (applies : past.seen .lambda = true) (holds : d.isText = true) (admitted : past.Admits d)
    (honest : w.Honest past) : UpholdsTerm past w (replaced s f x value g (.string d)) := by
  have fails {after : World} (honest : after.Honest past)
      (said : after.output.back? = some (.line "ERROR:  fall through in replace")) :
      UpholdsTerm past after (throw (.unset "v")) :=
    .fail honest (.unreplaced said (admitted.seen holds) applies)
  simp only [replaced]
  refine (Upholds.emit honest).sequence fun _ after ended honest _ => ?_
  cases ended
  split
  · have string : (Term.string d).Honest past := .string holds admitted
    refine (Upholds.look honest (string.printed honest)).sequence fun _ after ended honest _ => ?_
    rw [(ok_of_examine ended).2] at honest ⊢
    exact fails honest Array.back?_push
  · exact fails honest Array.back?_push

theorem honest_replaced {f g : Term → Eval Term} (applies : past.seen .lambda = true) (x : Datum) {value : Term}
    (given : value.Honest past) (simplify : Honest past f) (replace : Honest past g) :
    Honest past (replaced s f x value g) := by
  intro w honest t fine
  cases fine with
  | int holds admitted => exact .make honest (.int holds admitted)
  | bool holds admitted => exact .make honest (.bool holds admitted)
  | string holds admitted => exact upholds_replaced_string applies holds admitted honest
  | name named =>
    simp only [replaced]
    repeat' split
    · exact .copy honest given
    · exact .make honest (.name named)
    · exact .make honest (.name named)
  | function named inner seen =>
    refine (upholds_parameter honest named).bind fun y _ honest named => ?_
    exact (replace honest inner).bind fun b _ honest fine => .make honest (.function named fine seen)
  | operation left operates right =>
    refine (replace honest left).bind fun l _ honest left => ?_
    exact (replace honest right).bind fun r _ honest right => .make honest (.operation left operates right)
  | conditional first second third =>
    refine (replace honest first).bind fun c _ honest fine => ?_
    refine (simplify honest fine).bind fun c _ honest fine => ?_
    split
    · refine (replace honest (by split <;> assumption)).bind fun chosen _ honest fine => ?_
      exact simplify honest fine
    · refine (replace honest second).bind fun y _ honest second => ?_
      exact (replace honest third).bind fun n _ honest third => .make honest (.conditional fine second third)
  | chain each =>
    have all := Upholds.mapM honest fun after honest t member => replace honest (each t member)
    exact all.bind fun items _ honest fine => .make honest (.chain fine)
  | list cell =>
    have each := honest.items cell
    have all := Upholds.mapM honest fun after honest t member => replace honest (each t member)
    exact .get (all.bind fun items _ honest fine => .makeList honest fine)

theorem upholds_traceReplacement {x : String} {value before after : Term} (honest : w.Honest past)
    (given : value.Honest past) (first : before.Honest past) (second : after.Honest past) :
    Upholds past w (traceReplacement s (.text x) value before after) fun _ => True := by
  unfold traceReplacement
  split
  · refine Upholds.bind (.look honest ?_) fun changed _ honest _ => ?_
    · exact (first.printed honest).bind fun _ => (second.printed honest).map
    split
    · refine .trace honest ?_
      exact (first.dumped honest).bind fun _ => (given.dumped honest).bind fun _ => (second.dumped honest).map
    · exact .pure honest trivial
  · exact .pure honest trivial

/-- Simplification and replacement make honest terms of honest terms. -/
theorem honest_simplify_replace (s : Settings) (known : lookup.Honest past) (depth : Nat) :
    Honest past (simplify s lookup depth) ∧ HonestReplace past (replace s lookup depth) := by
  induction depth with
  | zero => exact ⟨fun honest _ _ => .throw honest rfl, fun _ _ _ _ _ honest _ _ => .throw honest rfl⟩
  | succ depth ih =>
    obtain ⟨below, belowReplace⟩ := ih
    constructor
    · intro w honest t fine
      have other : ∀ d, t = .datum d → False := by
        rintro d rfl
        cases fine
      rw [simplify.eq_3 s lookup t depth other]
      refine (Upholds.trace honest (fine.dumped honest).map).bind fun _ _ honest _ => ?_
      refine (honest_simplified known below belowReplace honest fine).bind fun result _ honest simple => ?_
      refine Upholds.bind (.trace honest ?_) fun _ _ honest _ => .pure honest simple
      exact (fine.dumped honest).bind fun _ => (simple.dumped honest).map
    · intro applies x value given w honest t fine
      have other : ∀ d, t = .datum d → False := by
        rintro d rfl
        cases fine
      rw [replace.eq_3 s lookup (.text x) value t depth other]
      refine (honest_replaced applies (.text x) given below (belowReplace applies x given) honest fine).bind
        fun result _ honest replaced => ?_
      exact (upholds_traceReplacement honest given fine replaced).bind fun _ _ honest _ => .pure honest replaced

theorem upholds_simplify {depth : Nat} {t : Term} (honest : w.Honest past) (known : lookup.Honest past)
    (fine : t.Honest past) : UpholdsTerm past w (simplify s lookup depth t) :=
  (honest_simplify_replace s known depth).1 honest fine

end Simplify

/-! ## Sorting -/

namespace Sorting

open Simplify (Lookup)

variable {lookup : Lookup}

/-- What integer literals hold is compared, but for an integer and a text. -/
theorem upholds_holds {m n : Datum} (sorts : past.reads .sortWord = true) (honest : w.Honest past)
    (first : (Term.int m).Honest past) (second : (Term.int n).Honest past) :
    Upholds past w (Eval.ofExcept (Operator.le.holds m n)) fun _ => True := by
  cases first with
  | int left admitsLeft =>
    cases second with
    | int right admitsRight =>
      cases m with
      | none | bool | list | term => cases left
      | int =>
        cases n with
        | none | bool | list | term => cases right
        | int => exact .pure honest trivial
        | text => exact .fail honest (.unordered (.inl ⟨rfl, rfl⟩) sorts right (admitsRight.seen rfl))
      | text =>
        cases n with
        | none | bool | list | term => cases right
        | int => exact .fail honest (.unordered (.inr ⟨rfl, rfl⟩) sorts left (admitsLeft.seen rfl))
        | text => exact .pure honest trivial

theorem upholds_precedes {a b : Term} (sorts : past.reads .sortWord = true) (honest : w.Honest past)
    (known : lookup.Honest past) (first : a.Honest past) (second : b.Honest past) :
    Upholds past w (precedes s lookup a b) fun _ => True := by
  refine (Simplify.upholds_simplify honest known first).bind fun l _ honest first => ?_
  refine (Simplify.upholds_simplify honest known second).bind fun r _ honest second => ?_
  split
  · exact upholds_holds sorts honest first second
  · exact .throw honest rfl

theorem upholds_joinUpTo {count : Nat} {left right : List Term} (sorts : past.reads .sortWord = true)
    (honest : w.Honest past) (known : lookup.Honest past) (first : ∀ t ∈ left, t.Honest past)
    (second : ∀ t ∈ right, t.Honest past) :
    UpholdsTerms past w (joinUpTo s lookup id count left right) := by
  induction count generalizing w left right with
  | zero => exact .pure honest (List.forall_mem_append.2 ⟨first, second⟩)
  | succ count ih =>
    cases left with
    | nil => exact .pure honest second
    | cons a left =>
      cases right with
      | nil => exact .pure honest (List.forall_mem_append.2 ⟨first, second⟩)
      | cons b right =>
        obtain ⟨here, left⟩ := List.forall_mem_cons.1 first
        obtain ⟨there, right⟩ := List.forall_mem_cons.1 second
        refine (upholds_precedes sorts honest known here there).bind fun before _ honest _ => ?_
        split
        · exact (ih honest left second).bind fun rest _ honest fine =>
            .pure honest (List.forall_mem_cons.2 ⟨here, fine⟩)
        · exact (ih honest first right).bind fun rest _ honest fine =>
            .pure honest (List.forall_mem_cons.2 ⟨there, fine⟩)

theorem upholds_sortUpTo {depth : Nat} {items : List Term} (sorts : past.reads .sortWord = true)
    (honest : w.Honest past) (known : lookup.Honest past) (fine : ∀ t ∈ items, t.Honest past) :
    UpholdsTerms past w (sortUpTo s lookup id depth items) := by
  induction depth generalizing w items with
  | zero => exact .pure honest fine
  | succ depth ih =>
    unfold sortUpTo
    split
    · exact .pure honest fine
    · refine (ih honest fun t member => fine t (List.mem_of_mem_take member)).bind fun left _ honest first => ?_
      refine (ih honest fun t member => fine t (List.mem_of_mem_drop member)).bind
        fun right _ honest second => ?_
      simp only [merge, outcome_mergeUpTo]
      exact upholds_joinUpTo sorts honest known first second

end Sorting

end DotLambda
