import DotLambda.Proofs.Tandem

/-!
Two simplifications of terms that are alike. Main statement: to simplify terms that are alike, or to replace a name in
them, gives results that are alike or the same failure, unless the first run runs out of depth. With a term on both
sides this says that more depth does not change what it comes to.
-/

namespace DotLambda

open Eval

open Simplify (Lookup)

variable {lookup lookup' : Lookup} {l more most : Likeness} {w w' after after' last last' : World}

namespace Simplify

/-- Ways to evaluate terms that take terms which are alike to such terms. -/
def Accords (lookup lookup' : Lookup) (f f' : Term → Eval Term) : Prop :=
  ∀ {l : Likeness} {w w' : World}, Meets lookup lookup' l w w' → ∀ {t t' : Term}, Term.Alike l t t' →
    TandemTerm lookup lookup' l w w' (f t) (f' t')

/-- Ways to replace a name by arguments that are alike. -/
def AccordsGiven (lookup lookup' : Lookup) (g g' : Datum → Term → Term → Eval Term) : Prop :=
  ∀ {l : Likeness} {w w' : World}, Meets lookup lookup' l w w' → ∀ {x : Datum} {value value' : Term}, l.data x →
    value.isArgument = true → Term.Alike l value value' → ∀ {t t' : Term}, Term.Alike l t t' →
      TandemTerm lookup lookup' l w w' (g x value t) (g' x value' t')

variable {f f' : Term → Eval Term} {g g' : Datum → Term → Term → Eval Term} {t t' : Term}

/-- Terms that are alike are or name functions whose bodies are alike, or none of them does. -/
theorem functionOf?_rel (meets : Meets lookup lookup' l w w') (alike : Term.Alike l t t') :
    Option.Rel (fun here there => there.1 = here.1 ∧ l.data here.1 ∧ Term.Alike l here.2 there.2)
      (functionOf? lookup t) (functionOf? lookup' t') := by
  cases alike with
  | function fits inner => exact .some ⟨rfl, fits, inner⟩
  | @name id named =>
    have found := meets.lookups id named
    simp only [functionOf?]
    generalize lookup.find? id = here at found ⊢
    generalize lookup'.find? id = there at found ⊢
    cases found with
    | none => exact .none
    | some alike =>
      cases alike with
      | function fits inner => exact .some ⟨rfl, fits, inner⟩
      | int | bool | string | name | nameless | operation | conditional | nil | cons | list | wrapped | itemless
      | unknown | datum => exact .none
  | int | bool | string | nameless | operation | conditional | nil | cons | list | wrapped | itemless | unknown
  | datum => exact .none

theorem tandem_contract (replace : AccordsGiven lookup lookup' g g') {first first' : Term} {rest rest' : List Term}
    (meets : Meets lookup lookup' l w w') (here : Term.Alike l first first')
    (others : List.Forall₂ (Term.Alike l) rest rest') :
    Tandem lookup lookup' l w w' (contract lookup g first rest) (contract lookup' g' first' rest')
      fun more _ _ out out' => List.Forall₂ (Term.Alike more) out out' := by
  induction rest generalizing l w w' first first' rest' with
  | nil =>
    cases others
    exact .pure meets (.cons here .nil)
  | cons next rest ih =>
    cases others with
    | @cons _ next' _ rest' second others =>
      have kept : Tandem lookup lookup' l w w'
          (do let others ← contract lookup g next rest; pure (first :: others))
          (do let others ← contract lookup' g' next' rest'; pure (first' :: others))
          fun more _ _ out out' => List.Forall₂ (Term.Alike more) out out' :=
        (ih meets second others).bind fun _ _ _ _ _ advances out =>
          .pure advances.meets (.cons (advances.alike here) out)
      have functions := functionOf?_rel meets here
      simp only [contract, second.isArgument_eq]
      generalize functionOf? lookup first = found at functions ⊢
      generalize functionOf? lookup' first' = found' at functions ⊢
      cases functions with
      | none => exact kept
      | @some body body' both =>
        cases argument : next.isArgument with
        | false => exact kept
        | true =>
          obtain ⟨parameter, body⟩ := body
          obtain ⟨_, body'⟩ := body'
          obtain ⟨rfl, fits, inner⟩ := both
          refine (replace meets fits argument second inner).bind fun _ _ _ _ _ advances result => ?_
          exact ih advances.meets result (advances.each others)

theorem tandem_contractAll (replace : AccordsGiven lookup lookup' g g') {items items' : List Term}
    (meets : Meets lookup lookup' l w w') (each : List.Forall₂ (Term.Alike l) items items') :
    Tandem lookup lookup' l w w' (contractAll lookup g items) (contractAll lookup' g' items')
      fun more _ _ out out' => List.Forall₂ (Term.Alike more) out out' := by
  cases each with
  | nil => exact .pure meets .nil
  | cons here others => exact tandem_contract replace meets here others

theorem accords_resolve (simplify : Accords lookup lookup' f f') :
    Accords lookup lookup' (resolve lookup f) (resolve lookup' f') := by
  intro l w w' meets t t' alike
  have whole := alike
  cases alike with
  | @name id named =>
    have found := meets.lookups id named
    simp only [resolve]
    generalize lookup.find? id = here at found ⊢
    generalize lookup'.find? id = there at found ⊢
    cases found with
    | none => exact .pure meets whole
    | some alike => exact simplify meets alike
  | int | bool | string | nameless | function | operation | conditional | nil | cons | list | wrapped | itemless
  | unknown | datum => exact .pure meets whole

theorem alike_literal (op : Operator) {d : Datum} (fits : l.data d) :
    Term.Alike l (literal op d) (literal op d) := by
  unfold literal
  split
  · exact .int fits
  · exact .bool fits

theorem alike_stringLiteral (op : Operator) {d : Datum} (fits : l.data d) :
    Term.Alike l (stringLiteral op d) (stringLiteral op d) := by
  unfold stringLiteral
  split
  · exact .string fits
  · exact alike_literal op fits

/-- Where one operand is no literal there is nothing to compute. -/
theorem compute_of_unlike {s : Settings} {op : Operator} {lhs rhs : Term}
    (unlike : lhs.isLiteral = false ∨ rhs.isLiteral = false) :
    compute s op lhs rhs =
      (do let symbol ← Eval.plain s op.sign; throw (.incompatibleKinds symbol lhs.kind rhs.kind)) := by
  unfold compute
  split
  · rcases unlike with is | is <;> cases is
  · rcases unlike with is | is <;> cases is
  · rcases unlike with is | is <;> cases is
  · rfl

variable {s s' : Settings} (le : s.Le s')
include le

/-- The literal of what an operator computes, however it is made. -/
theorem tandem_literal {op : Operator} {lhs rhs : Datum} {wrap : Datum → Term} (meets : Meets lookup lookup' l w w')
    (left : l.data lhs) (right : l.data rhs)
    (literal : ∀ {l : Likeness} {d : Datum}, l.data d → Term.Alike l (wrap d) (wrap d)) :
    TandemTerm lookup lookup' l w w' (do let d ← Eval.apply s op lhs rhs; Eval.make s (wrap d))
      (do let d ← Eval.apply s' op lhs rhs; Eval.make s' (wrap d)) := by
  refine (Tandem.apply le meets left right).bind ?_
  rintro more after after' _ d advances ⟨rfl, plain⟩
  exact .make le advances.meets (literal (advances.meets.plain d plain))

/-- What operands of one kind come to: they are literals with the same datum, or there is nothing to compute. -/
theorem tandem_compute {op : Operator} {lhs lhs' rhs rhs' : Term} (meets : Meets lookup lookup' l w w')
    (signed : l.data op.sign) (left : Term.Similar l lhs lhs') (right : Term.Similar l rhs rhs') :
    TandemTerm lookup lookup' l w w' (compute s op lhs rhs) (compute s' op lhs' rhs') := by
  have complains (kind kind' : String) : TandemTerm lookup lookup' l w w'
      (do let symbol ← Eval.plain s op.sign; throw (.incompatibleKinds symbol kind kind'))
      (do let symbol ← Eval.plain s' op.sign; throw (.incompatibleKinds symbol kind kind')) := by
    refine (Tandem.plain le meets signed).bind ?_
    rintro _ _ _ symbol _ _ rfl
    exact .throw
  have unlike (here : lhs.isLiteral = false ∨ rhs.isLiteral = false)
      (there : lhs'.isLiteral = false ∨ rhs'.isLiteral = false) :
      TandemTerm lookup lookup' l w w' (compute s op lhs rhs) (compute s' op lhs' rhs') := by
    rw [compute_of_unlike here, compute_of_unlike there, left.kind_eq, right.kind_eq]
    exact complains _ _
  cases left with
  | other here there => exact unlike (.inl here) (.inl there)
  | int fits =>
    cases right with
    | int fits' => exact tandem_literal le meets fits fits' (alike_literal op)
    | bool | string => exact complains _ _
    | other here there => exact unlike (.inr here) (.inr there)
  | bool fits =>
    cases right with
    | bool fits' => exact tandem_literal le meets fits fits' (alike_literal op)
    | int | string => exact complains _ _
    | other here there => exact unlike (.inr here) (.inr there)
  | string fits =>
    cases right with
    | string fits' => exact tandem_literal le meets fits fits' (alike_stringLiteral op)
    | int | bool => exact complains _ _
    | other here there => exact unlike (.inr here) (.inr there)

theorem accords_simplified (simplify : Accords lookup lookup' f f') (replace : AccordsGiven lookup lookup' g g') :
    Accords lookup lookup' (simplified s lookup f g) (simplified s' lookup' f' g') := by
  intro l w w' meets t t' alike
  have items {here there : List Term} (each : List.Forall₂ (Term.Alike l) here there) :
      Tandem lookup lookup' l w w' (here.mapM f) (there.mapM f')
        fun more _ _ out out' => List.Forall₂ (Term.Alike more) out out' :=
    .mapM (fun advances alike => advances.alike alike) meets each fun _ _ _ advances _ _ alike =>
      simplify advances.meets (advances.alike alike)
  have chain {here there : List Term} (each : List.Forall₂ (Term.Alike l) here there) :
      TandemTerm lookup lookup' l w w' (simplified s lookup f g (.chain here))
        (simplified s' lookup' f' g' (.chain there)) := by
    refine (items each).bind fun _ _ _ _ _ advances each => ?_
    refine (tandem_contractAll replace advances.meets each).bind fun _ _ _ _ _ advances out => ?_
    have made := Tandem.make le advances.meets (.chain out)
    cases out with
    | nil => exact made
    | cons first others =>
      cases others with
      | nil => exact simplify advances.meets first
      | cons => exact made
  cases alike with
  | int fits => exact .make le meets (.int fits)
  | bool fits => exact .make le meets (.bool fits)
  | string fits => exact .make le meets (.string fits)
  | @name id named =>
    simp only [simplified]
    by_cases isTrue : id = "true"
    · rw [if_pos isTrue, if_pos isTrue]
      exact .make le meets (.bool (meets.plain _ rfl))
    by_cases isFalse : id = "false"
    · rw [if_neg isTrue, if_neg isTrue, if_pos isFalse, if_pos isFalse]
      exact .make le meets (.bool (meets.plain _ rfl))
    rw [if_neg isTrue, if_neg isTrue, if_neg isFalse, if_neg isFalse]
    have found := meets.lookups id named
    generalize lookup.find? id = here at found ⊢
    generalize lookup'.find? id = there at found ⊢
    cases found with
    | none => exact .make le meets (.name named)
    | some alike => exact simplify meets alike
  | @nameless d fits =>
    cases d with
    | list => exact .throw
    | none | bool | int | text | term => exact .make le meets (.nameless fits)
  | function fits inner =>
    refine (Tandem.plain le meets fits).bind ?_
    rintro _ _ _ _ x advances rfl
    refine (simplify advances.meets (advances.alike inner)).bind fun _ _ _ _ _ advances inner => ?_
    exact .make le advances.meets (.function (advances.meets.plain _ rfl) inner)
  | operation left fits right =>
    refine (simplify meets left).bind fun _ _ _ _ _ first left => ?_
    refine (simplify first.meets (first.alike right)).bind fun _ _ _ _ _ second right => ?_
    refine (accords_resolve simplify second.meets (second.alike left)).bind fun _ _ _ _ _ third left => ?_
    refine (accords_resolve simplify third.meets (third.alike right)).bind fun _ _ _ _ _ fourth right => ?_
    have signed := ((first.trans second).trans (third.trans fourth)).data fits
    exact tandem_compute le fourth.meets signed (fourth.alike left).similar right.similar
  | conditional decides first second =>
    refine (simplify meets decides).bind fun more _ _ c c' advances decided => ?_
    have first := advances.alike first
    have second := advances.alike second
    have kept := Tandem.make le advances.meets (.conditional decided first second)
    cases decided with
    | @bool d fits =>
      dsimp only
      cases d.truth with
      | true => exact simplify advances.meets first
      | false => exact simplify advances.meets second
    | int | string | name | nameless | function | operation | conditional | nil | cons | list | wrapped | itemless
    | unknown | datum => exact kept
  | nil => exact chain .nil
  | cons first others => exact chain (.cons first others.items_of_chain)
  | list paired =>
    refine .get ?_
    refine (items (meets.relates.items _ _ paired)).bind fun _ _ _ _ _ advances each => ?_
    exact .makeList le advances.meets each
  | wrapped inner =>
    refine (simplify meets inner).bind fun _ _ _ _ _ advances inner => ?_
    refine (Tandem.trace le advances.meets fun _ => ?_).bind fun _ _ _ _ _ _ _ => .throw
    exact .map (Component.together_single (inner.dumped_near advances.meets.relates le.depth).together)
  | itemless => exact .throw
  | unknown => exact (Tandem.emit meets).bind fun _ _ _ _ _ _ _ => .throw
  | datum => exact .throw

theorem accords_replaced (simplify : Accords lookup lookup' f f') (replace : AccordsGiven lookup lookup' g g') :
    AccordsGiven lookup lookup' (fun x value => replaced s f x value (g x value))
      (fun x value => replaced s' f' x value (g' x value)) := by
  intro l w w' meets x value value' named argument given t t' alike
  have items {here there : List Term} (each : List.Forall₂ (Term.Alike l) here there) :
      Tandem lookup lookup' l w w' (here.mapM (g x value)) (there.mapM (g' x value'))
        fun more _ _ out out' => List.Forall₂ (Term.Alike more) out out' :=
    .mapM (fun advances alike => advances.alike alike) meets each fun _ _ _ advances _ _ alike =>
      replace advances.meets (advances.data named) argument (advances.alike given) (advances.alike alike)
  have chain {here there : List Term} (each : List.Forall₂ (Term.Alike l) here there) :
      TandemTerm lookup lookup' l w w' (replaced s f x value (g x value) (.chain here))
        (replaced s' f' x value' (g' x value') (.chain there)) :=
    (items each).bind fun _ _ _ _ _ advances each => .make le advances.meets (.chain each)
  have fails {t t' : Term} (alike : Term.Alike l t t') : TandemTerm lookup lookup' l w w'
      (do Eval.emit (.line "ERROR:  fall through in replace")
          if s.tracing then
            let _ ← Eval.examine fun store => t.printed store s.depth
          throw (.unset "v"))
      (do Eval.emit (.line "ERROR:  fall through in replace")
          if s'.tracing then
            let _ ← Eval.examine fun store => t'.printed store s'.depth
          throw (.unset "v")) := by
    refine (Tandem.emit meets).bind fun _ _ _ _ _ advances _ => ?_
    rw [le.tracing]
    cases s.tracing with
    | false => exact .throw
    | true =>
      have near := (advances.alike alike).printed_near advances.meets.relates le.depth
      exact (Tandem.look advances.meets near.together).bind fun _ _ _ _ _ _ _ => .throw
  cases alike with
  | int fits => exact .make le meets (.int fits)
  | bool fits => exact .make le meets (.bool fits)
  | string fits => exact fails (.string fits)
  | @name id is =>
    have made := Tandem.make le meets (.name is)
    cases x with
    | text name =>
      simp only [replaced]
      by_cases same : id = name
      · rw [if_pos same, if_pos same]
        exact .copy argument meets given
      · rw [if_neg same, if_neg same]
        exact made
    | none | bool | int | list | term => exact made
  | @nameless d fits =>
    simp only [replaced]
    cases d.equal x with
    | true => exact .copy argument meets given
    | false => exact .make le meets (.nameless fits)
  | function fits inner =>
    refine (Tandem.plain le meets fits).bind ?_
    rintro _ _ _ _ y advances rfl
    refine (replace advances.meets (advances.data named) argument (advances.alike given)
      (advances.alike inner)).bind fun _ _ _ _ _ advances inner => ?_
    exact .make le advances.meets (.function (advances.meets.plain _ rfl) inner)
  | operation left fits right =>
    refine (replace meets named argument given left).bind fun _ _ _ _ _ first left => ?_
    refine (replace first.meets (first.data named) argument (first.alike given) (first.alike right)).bind
      fun _ _ _ _ _ second right => ?_
    exact .make le second.meets (.operation (second.alike left) ((first.trans second).data fits) right)
  | @conditional _ _ yes yes' no no' decides first second =>
    refine (replace meets named argument given decides).bind fun _ _ _ _ _ early decided => ?_
    refine (simplify early.meets decided).bind fun more after after' c c' late decided => ?_
    have advances := early.trans late
    have first := advances.alike first
    have second := advances.alike second
    have named := advances.data named
    have given := advances.alike given
    have kept : TandemTerm lookup lookup' more after after'
        (do let y ← g x value yes; let n ← g x value no; Eval.make s (.conditional c y n))
        (do let y ← g' x value' yes'; let n ← g' x value' no'; Eval.make s' (.conditional c' y n)) := by
      refine (replace late.meets named argument given first).bind fun _ _ _ _ _ early first => ?_
      refine (replace early.meets (early.data named) argument (early.alike given) (early.alike second)).bind
        fun _ _ _ _ _ late second => ?_
      exact .make le late.meets (.conditional ((early.trans late).alike decided) (late.alike first) second)
    cases decided with
    | @bool d fits =>
      refine Tandem.bind (replace late.meets named argument given ?_) fun _ _ _ _ _ advances chosen =>
        simplify advances.meets chosen
      split
      · exact first
      · exact second
    | int | string | name | nameless | function | operation | conditional | nil | cons | list | wrapped | itemless
    | unknown | datum => exact kept
  | nil => exact chain .nil
  | cons first others => exact chain (.cons first others.items_of_chain)
  | list paired =>
    refine .get ?_
    refine (items (meets.relates.items _ _ paired)).bind fun _ _ _ _ _ advances each => ?_
    exact .makeList le advances.meets each
  | wrapped inner => exact .throw
  | itemless => exact .throw
  | unknown => exact fails .unknown
  | datum fits => exact fails (.datum fits)

theorem tandem_traceReplacement {x : Datum} {value value' before before' result result' : Term}
    (meets : Meets lookup lookup' l w w') (named : l.data x) (given : Term.Alike l value value')
    (early : Term.Alike l before before') (late : Term.Alike l result result') :
    Tandem lookup lookup' l w w' (traceReplacement s x value before result)
      (traceReplacement s' x value' before' result') fun _ _ _ _ _ => True := by
  unfold traceReplacement
  rw [le.tracing]
  cases s.tracing with
  | false => exact .pure meets trivial
  | true =>
    have changed : Tandem lookup lookup' l w w'
        (Eval.examine fun store => do
          let b ← before.printed store s.depth
          let a ← result.printed store s.depth
          pure (b != a))
        (Eval.examine fun store => do
          let b ← before'.printed store s'.depth
          let a ← result'.printed store s'.depth
          pure (b != a)) fun _ _ _ b b' => b' = b := by
      refine .examine meets (Nears.agree ?_)
      exact (early.printed_near meets.relates le.depth).bind fun _ =>
        (late.printed_near meets.relates le.depth).bind fun _ => .refl _
    refine changed.bind ?_
    rintro more after after' _ b advances rfl
    cases b with
    | false => exact .pure advances.meets trivial
    | true =>
      have relates := advances.meets.relates
      refine .trace le advances.meets fun _ => Nears.together ?_
      exact (Term.Alike.plain_near relates (advances.data named) le.depth).bind fun _ =>
        ((advances.alike early).dumped_near relates le.depth).bind fun _ =>
          ((advances.alike given).dumped_near relates le.depth).bind fun _ =>
            ((advances.alike late).dumped_near relates le.depth).bind fun _ => .refl _

omit le in
theorem replacementFailure_eq {x d : Datum} {value value' : Term} (argument : value.isArgument = true)
    (given : Term.Alike l value value') : replacementFailure x value' d = replacementFailure x value d := by
  cases given with
  | int | bool => cases d <;> cases x <;> rfl
  | string | name | nameless | function | operation | conditional | nil | cons | list | wrapped | itemless
  | unknown | datum => cases argument

/-- To simplify terms that are alike goes alike, and so does to replace a name in them by arguments that are. -/
theorem accords_simplify_replace {depth depth' : Nat} (deeper : depth ≤ depth') :
    Accords lookup lookup' (simplify s lookup depth) (simplify s' lookup' depth') ∧
      AccordsGiven lookup lookup' (replace s lookup depth) (replace s' lookup' depth') := by
  -- At each depth, both go on with both at the depth below.
  induction depth generalizing depth' with
  | zero => exact ⟨fun _ _ _ _ => .endless rfl, fun _ _ _ _ _ _ _ _ _ _ => .endless rfl⟩
  | succ depth ih =>
    obtain ⟨depth', rfl⟩ : ∃ below, depth' = below + 1 := ⟨depth' - 1, by omega⟩
    obtain ⟨simplifies, replaces⟩ := ih (Nat.le_of_succ_le_succ deeper)
    constructor
    · intro l w w' meets t t' alike
      cases proper : t.isDatum with
      | true =>
        obtain ⟨d, rfl⟩ := Term.eq_datum proper
        cases alike
        exact .throw
      | false =>
        rw [simplify.eq_3 s lookup t depth (Term.ne_datum proper),
          simplify.eq_3 s' lookup' t' depth' (Term.ne_datum (alike.isDatum_eq.trans proper))]
        have near := alike.dumped_near meets.relates le.depth
        refine (Tandem.trace le meets fun _ => near.together.map).bind fun _ _ _ _ _ first _ => ?_
        have alike := first.alike alike
        refine (accords_simplified le simplifies replaces first.meets alike).bind fun _ _ _ _ _ second result => ?_
        have near := (second.alike alike).dumped_near second.meets.relates le.depth
        have near' := result.dumped_near second.meets.relates le.depth
        refine (Tandem.trace le second.meets fun _ => ?_).bind fun _ _ _ _ _ third _ => ?_
        · exact near.together.bind fun _ _ _ => near'.together.map
        · exact .pure third.meets (third.alike result)
    · intro l w w' meets x value value' named argument given t t' alike
      cases proper : t.isDatum with
      | true =>
        obtain ⟨d, rfl⟩ := Term.eq_datum proper
        cases alike
        simp only [replace, replacementFailure_eq argument given]
        exact .throw
      | false =>
        rw [replace.eq_3 s lookup x value t depth (Term.ne_datum proper),
          replace.eq_3 s' lookup' x value' t' depth' (Term.ne_datum (alike.isDatum_eq.trans proper))]
        refine (accords_replaced le simplifies replaces meets named argument given alike).bind
          fun _ _ _ _ _ first result => ?_
        refine (tandem_traceReplacement le first.meets (first.data named) (first.alike given) (first.alike alike)
          result).bind fun _ _ _ _ _ second _ => ?_
        exact .pure second.meets (second.alike result)

end Simplify

end DotLambda
