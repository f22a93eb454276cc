import DotLambda.Proofs.Building
import DotLambda.Proofs.Kinship
import DotLambda.Proofs.Refinement

/-!
Folding. While a tree is evaluated, operations on numbers are computed, equations are decided and conditionals with a
boolean condition are replaced by a clause. Main statement: without that, simplification comes to the same in the end.
It fails in the same way, or both results are equal in structure, but for the clauses of conditionals that are not
decided.
-/

namespace DotLambda

open Eval

/-! ## Trees without folding -/

/-- The operator between two operands, if it is one that computes. -/
def Dyad.operator? : Dyad → Option Operator
  | add => some .add
  | sub => some .sub
  | mul => some .mul
  | div => some .div
  | eq => some .eq
  | ne => some .ne
  | lt => some .lt
  | le => some .le
  | gt => some .gt
  | ge => some .ge
  | both | either => none

theorem Dyad.sign_of_operator? {op : Dyad} {o : Operator} (computes : op.operator? = some o) :
    ∃ symbol, o.sign = .text symbol := by
  cases op <;> cases computes <;> exact ⟨_, rfl⟩

namespace Phrase

/-- Whether a tree is made of numbers, strings, names, signs, operators that compute, conditionals and lists. -/
def isFoldable : {form : Form} → Phrase form → Bool
  | _, number _ | _, string _ | _, name _ | _, emptyList => true
  | _, group e | _, sign _ e | _, list e | _, alone e | _, item e => e.isFoldable
  | _, dyad op lhs rhs => op.operator?.isSome && lhs.isFoldable && rhs.isFoldable
  | _, conditional condition yes no => condition.isFoldable && yes.isFoldable && no.isFoldable
  | _, items first rest => first.isFoldable && rest.isFoldable
  | _, _ => false

/-- The value of a tree in which operators that compute and conditionals are kept as they are. -/
def unfolded (s : Settings) : {form : Form} → Phrase form → Eval Term
  | _, group inner => inner.unfolded s
  | _, sign minus e => do
    let t ← e.unfolded s
    Meaning.sign s (if minus then "-" else "+") t
  | _, dyad op lhs rhs => do
    let l ← lhs.unfolded s
    let r ← rhs.unfolded s
    match op.operator? with
    | some operator => Eval.make s (.operation l operator r)
    | none => op.evaluate s l r
  | _, conditional condition yes no => do
    let c ← condition.unfolded s
    let y ← yes.unfolded s
    let n ← no.unfolded s
    Eval.make s (.conditional c y n)
  | _, list contents => contents.unfolded s
  | _, alone only => only.unfolded s
  | _, item last => do
    let t ← last.unfolded s
    Eval.makeList s [t]
  | _, items first rest => do
    let f ← first.unfolded s
    let r ← rest.unfolded s
    Meaning.item s f r
  | _, e => e.evaluate s

end Phrase

/-- What an operator that computes makes of two operands: the operation, or the literal for what it computes on two
numbers or two booleans. -/
theorem Dyad.evaluate_cases {op : Dyad} {o : Operator} (computes : op.operator? = some o) (lhs rhs : Term) :
    (∀ s, op.evaluate s lhs rhs = Eval.make s (.operation lhs o rhs)) ∨
    ∃ (wrap : Datum → Term) (x y : Datum), (wrap = .int ∨ wrap = .bool) ∧ lhs = wrap x ∧ rhs = wrap y ∧
      ∀ s, op.evaluate s lhs rhs = (do let d ← Eval.apply s o x y; Eval.make s (Simplify.literal o d)) := by
  by_cases numbers : ∃ x y, lhs = .int x ∧ rhs = .int y
  · obtain ⟨x, y, rfl, rfl⟩ := numbers
    refine .inr ⟨.int, x, y, .inl rfl, rfl, rfl, fun s => ?_⟩
    cases op <;> cases computes <;> rfl
  have arithmetic (s : Settings) (o : Operator) :
      Meaning.arithmetic s lhs o rhs = Eval.make s (.operation lhs o rhs) := by
    unfold Meaning.arithmetic
    split
    · exact absurd ⟨_, _, rfl, rfl⟩ numbers
    · rfl
  have comparison (s : Settings) (o : Operator) :
      Meaning.comparison s lhs o rhs = Eval.make s (.operation lhs o rhs) := by
    unfold Meaning.comparison
    split
    · exact absurd ⟨_, _, rfl, rfl⟩ numbers
    · rfl
  have equality (s : Settings) (o : Operator) (booleans : ¬ ∃ x y, lhs = .bool x ∧ rhs = .bool y) :
      Meaning.equality s lhs o rhs = Eval.make s (.operation lhs o rhs) := by
    unfold Meaning.equality
    split
    · exact absurd ⟨_, _, rfl, rfl⟩ numbers
    · exact absurd ⟨_, _, rfl, rfl⟩ booleans
    · rfl
  cases op with
  | add | sub | mul | div =>
    cases computes
    exact .inl fun s => arithmetic s _
  | lt | le | gt | ge =>
    cases computes
    exact .inl fun s => comparison s _
  | eq | ne =>
    cases computes
    by_cases booleans : ∃ x y, lhs = .bool x ∧ rhs = .bool y
    · obtain ⟨x, y, rfl, rfl⟩ := booleans
      exact .inr ⟨.bool, x, y, .inr rfl, rfl, rfl, fun s => rfl⟩
    · exact .inl fun s => equality s _ booleans
  | both | either => cases computes

namespace Phrase

variable {s s' : Settings} (le : s.Le s')
include le

theorem persists_name (id : String) : Persists (Meaning.name s id) (Meaning.name s' id) := by
  refine .get fun w => ?_
  cases w.bindings.find? id with
  | some t =>
    refine (Persists.trace le fun store => ?_).bind fun _ => .refl _
    exact ((t.texts_near store le.depth).1.bind fun _ => .refl _).bind fun _ => .refl _
  | none => exact (Persists.trace le fun store => .refl _).bind fun _ => .make le _

theorem persists_item (first rest : Term) : Persists (Meaning.item s first rest) (Meaning.item s' first rest) := by
  have made (items : List Term) : Persists
      (do let t ← Eval.makeList s (first :: items)
          Meaning.traceDumped s "Rule: expr COMMA comma_sep_list -> comma_sep_list" t
          pure t)
      (do let t ← Eval.makeList s' (first :: items)
          Meaning.traceDumped s' "Rule: expr COMMA comma_sep_list -> comma_sep_list" t
          pure t) := by
    refine (Persists.makeList le _).bind fun t => (Persists.trace le fun store => ?_).bind fun _ => .refl _
    exact (t.texts_near store le.depth).2.bind fun _ => .refl _
  cases rest with
  | list cell => exact Persists.bind (.refl _) made
  | int | bool | string | name | nameless | function | operation | conditional | chain | wrapped | itemless | unknown
  | datum => exact made []

/-- What a tree has been built to is built with more depth as well. -/
theorem persists_evaluate {form : Form} (e : Phrase form) (foldable : e.isFoldable = true) :
    Persists (e.evaluate s) (e.evaluate s') := by
  induction e with
  | number n => exact .make le _
  | string text => exact .make le _
  | name id => exact persists_name le id
  | group inner ih => exact ih foldable
  | sign minus operand ih =>
    refine (ih foldable).bind fun t => ?_
    unfold Meaning.sign
    split
    · exact (Persists.make le _).bind fun _ => .make le _
    · exact .refl _
  | dyad op lhs rhs left right =>
    simp only [isFoldable, Bool.and_eq_true, Option.isSome_iff_exists] at foldable
    obtain ⟨⟨⟨o, computes⟩, foldable⟩, foldable'⟩ := foldable
    refine (left foldable).bind fun l => (right foldable').bind fun r => ?_
    rcases Dyad.evaluate_cases computes l r with kept | ⟨wrap, x, y, -, -, -, computed⟩
    · rw [kept s, kept s']
      exact .make le _
    · rw [computed s, computed s']
      exact (Persists.apply le o x y).bind fun d => .make le _
  | conditional condition yes no decides first second =>
    simp only [isFoldable, Bool.and_eq_true] at foldable
    refine (decides foldable.1.1).bind fun c => (first foldable.1.2).bind fun y => (second foldable.2).bind fun n => ?_
    unfold Meaning.conditional
    split
    · exact .refl _
    · exact .make le _
  | emptyList => exact .makeList le _
  | list contents ih => exact ih foldable
  | alone only ih => exact ih foldable
  | item last ih => exact (ih foldable).bind fun t => .makeList le _
  | items first rest ih ih' =>
    simp only [isFoldable, Bool.and_eq_true] at foldable
    exact (ih foldable.1).bind fun f => (ih' foldable.2).bind fun r => persists_item le f r
  | negation | function | builtin | application | argument | arguments => cases foldable

end Phrase

/-! ## Values built with and without folding -/

/-- A term that is built with folding and one that is built without it. They simplify alike, and the second comes to
the first if that is a literal. -/
structure Builds (scene : Scene) (store store' : Store) (t t' : Term) : Prop where
  shown : Showable scene.tracing store t
  shown' : Showable scene.tracing store' t'
  kin : Kin scene store store' t t'
  kin' : Kin scene store' store t' t
  comes : t.isLiteral = true → Comes scene store' t' t

/-- Lists with items that are built with folding and without it. -/
def BuildsList (scene : Scene) (store store' : Store) (t t' : Term) : Prop :=
  ∃ cell cell', t = .list cell ∧ t' = .list cell' ∧ cell < store.size ∧ cell' < store'.size ∧
    List.Forall₂ (Builds scene store store') (store.items cell) (store'.items cell')

variable {scene : Scene} {store store' : Store}

namespace Builds

theorem grow {later later' : Store} {t t' : Term} (builds : Builds scene store store' t t')
    (grown : store.Continues later) (grown' : store'.Continues later') : Builds scene later later' t t' where
  shown := builds.shown.grow grown
  shown' := builds.shown'.grow grown'
  kin := builds.kin.grow grown grown'
  kin' := builds.kin'.grow grown' grown
  comes literal := (builds.comes literal).grow grown'

theorem later {w w' after after' : World} {t t' : Term} (builds : Builds scene w.store w'.store t t')
    (grown : w.Grows after) (grown' : w'.Grows after') : Builds scene after.store after'.store t t' :=
  builds.grow grown.store.continues grown'.store.continues

/-- A term that was there before is the same with folding and without it. -/
theorem ofOwned {t : Term} (owned : scene.origin.Owns t) (shown : Showable scene.tracing scene.origin t)
    (grown : scene.origin.Continues store) (grown' : scene.origin.Continues store') :
    Builds scene store store' t t where
  shown := shown.grow grown
  shown' := shown.grow grown'
  kin := .ofAlike owned
  kin' := .ofAlike owned
  comes literal := by
    obtain ⟨depth, shown⟩ := shown
    exact .ofLiteral literal owned (shown.grow grown')

theorem ofComes {t v : Term} (shown : Showable scene.tracing store v) (shown' : Showable scene.tracing store' t)
    (comes : Comes scene store' t v) : Builds scene store store' v t := by
  obtain ⟨depth, told⟩ := shown
  have itself : Comes scene store v v := .ofLiteral comes.literal comes.owned told
  exact ⟨⟨depth, told⟩, shown', .ofComes itself comes, .ofComes comes itself, fun _ => comes⟩

theorem operation {op : Operator} {symbol : String} {lhs lhs' rhs rhs' : Term} (written : op.sign = .text symbol)
    (left : Builds scene store store' lhs lhs') (right : Builds scene store store' rhs rhs') :
    Builds scene store store' (.operation lhs op rhs) (.operation lhs' op rhs') := by
  have shown := Showable.operation written left.shown right.shown
  have shown' := Showable.operation written left.shown' right.shown'
  exact ⟨shown, shown', .operation written left.kin right.kin shown shown',
    .operation written left.kin' right.kin' shown' shown, Bool.noConfusion⟩

theorem conditional {condition condition' yes yes' no no' : Term}
    (decides : Builds scene store store' condition condition') (first : Builds scene store store' yes yes')
    (second : Builds scene store store' no no') :
    Builds scene store store' (.conditional condition yes no) (.conditional condition' yes' no') := by
  have shown := Showable.conditional decides.shown first.shown second.shown
  have shown' := Showable.conditional decides.shown' first.shown' second.shown'
  refine ⟨shown, shown', ?_, ?_, Bool.noConfusion⟩
  · exact .conditional decides.kin first.kin second.kin first.shown first.shown' second.shown second.shown' shown shown'
  · exact .conditional decides.kin' first.kin' second.kin' first.shown' first.shown second.shown' second.shown shown'
      shown

/-- A clause stands for the conditional that chooses it. -/
theorem chosen {condition' yes yes' no no' : Term} {d : Datum}
    (decides : Builds scene store store' (.bool d) condition') (first : Builds scene store store' yes yes')
    (second : Builds scene store store' no no') :
    Builds scene store store' (if d.truth then yes else no) (.conditional condition' yes' no') := by
  obtain ⟨depth, shown'⟩ := Showable.conditional decides.shown' first.shown' second.shown'
  have clause : Builds scene store store' (if d.truth then yes else no) (if d.truth then yes' else no') := by
    cases d.truth with
    | true => exact first
    | false => exact second
  have comes := decides.comes rfl
  exact ⟨clause.shown, ⟨depth, shown'⟩, .chosen_right comes clause.kin shown', .chosen_left comes clause.kin' shown',
    fun literal => .conditional comes (clause.comes literal) shown'⟩

end Builds

theorem BuildsList.builds {t t' : Term} (builds : BuildsList scene store store' t t') :
    Builds scene store store' t t' := by
  obtain ⟨cell, cell', rfl, rfl, old, old', each⟩ := builds
  have shown : Showable scene.tracing store (.list cell) := .list old fun t member => by
    obtain ⟨_, -, builds⟩ := exists_mem_of_forall₂ each member
    exact builds.shown
  have shown' : Showable scene.tracing store' (.list cell') := .list old' fun t member => by
    obtain ⟨_, -, builds⟩ := exists_mem_of_forall₂ each.flip member
    exact builds.shown'
  refine ⟨shown, shown', .list old old' (each.imp fun _ _ builds => builds.kin) shown shown', ?_, Bool.noConfusion⟩
  exact .list old' old (each.flip.imp fun _ _ builds => builds.kin') shown' shown

/-- What trees of a form are built to. -/
def Form.Builds (scene : Scene) (store store' : Store) : Form → Term → Term → Prop
  | items => BuildsList scene store store'
  | expression | sequence | arguments => DotLambda.Builds scene store store'

theorem Form.Builds.builds {form : Form} {t t' : Term} (builds : form.Builds scene store store' t t') :
    DotLambda.Builds scene store store' t t' := by
  cases form with
  | items => exact BuildsList.builds builds
  | expression | sequence | arguments => exact builds

namespace Builds

variable {b : Settings} {w w' : World} {t t' : Term}

theorem follows_make (builds : Builds scene w.store w'.store t t') :
    Follows scene.tracing w w' (Eval.make b t) (fun s => Eval.make s t') (Builds scene) := by
  intro r after ended
  obtain ⟨rfl, -, grown, same⟩ := ok_of_make ended
  rw [← same] at builds
  exact ⟨grown, .make builds.shown' builds⟩

theorem follows_conditional {condition condition' yes yes' no no' : Term}
    (decides : Builds scene w.store w'.store condition condition') (first : Builds scene w.store w'.store yes yes')
    (second : Builds scene w.store w'.store no no') :
    Follows scene.tracing w w' (Meaning.conditional b condition yes no)
      (fun s => Eval.make s (.conditional condition' yes' no')) (Builds scene) := by
  unfold Meaning.conditional
  split
  · rintro _ _ ⟨⟩
    have builds := chosen decides first second
    exact ⟨.refl _, .make builds.shown' builds⟩
  · exact follows_make (.conditional decides first second)

theorem follows_makeList {items items' : List Term} (each : List.Forall₂ (Builds scene w.store w'.store) items items') :
    Follows scene.tracing w w' (Eval.makeList b items) (fun s => Eval.makeList s items') (BuildsList scene) := by
  intro r after ended
  obtain ⟨rfl, grown, stored⟩ := ok_of_makeList ended
  refine ⟨grown, .makeList (fun t member => ?_) ⟨_, _, rfl, rfl, ?_, ?_, ?_⟩⟩
  · obtain ⟨_, -, builds⟩ := exists_mem_of_forall₂ each.flip member
    exact builds.shown'
  · rw [stored, Store.size_allocate]
    exact Nat.lt_succ_self _
  · rw [Store.size_allocate]
    exact Nat.lt_succ_self _
  · rw [stored, Store.items_allocate_self, Store.items_allocate_self]
    exact each.imp fun _ _ builds => builds.grow (.allocate _ _) (.allocate _ _)

theorem follows_item (traces : b.tracing = scene.tracing) {rest rest' : Term}
    (first : Builds scene w.store w'.store t t') (others : BuildsList scene w.store w'.store rest rest') :
    Follows scene.tracing w w' (Meaning.item b t rest) (fun s => Meaning.item s t' rest') (BuildsList scene) := by
  obtain ⟨cell, cell', rfl, rfl, -, -, each⟩ := others
  refine .look ((follows_makeList (.cons first each)).bind fun _ _ _ _ _ _ builds => ?_)
  refine Follows.bind (Follows.trace traces fun is _ => (builds.builds.shown'.reached is).map)
    fun _ _ _ _ _ _ traced => .pure ?_
  rw [traced.2.1, traced.2.2]
  exact builds

variable (coherent : scene.origin.Coherent) (plays : scene.Plays w) (plays' : scene.Plays w')
include coherent plays plays'

/-- A term that was there before is the same with folding and without it, if it could be dumped. -/
theorem ofTold {depth : Nat} (owned : scene.origin.Owns t)
    (told : scene.tracing = true → Succeeds (t.dumped w.store depth)) : Builds scene w.store w'.store t t := by
  have shown : Shown scene.tracing scene.origin depth t := .ofOwned coherent owned fun is => by
    rw [← (owned.texts_eq (coherent.grow (.refl _) plays.grown.continues) depth).2]
    exact told is
  exact .ofOwned owned ⟨depth, shown⟩ plays.grown.continues plays'.grown.continues

theorem follows_same (traces : b.tracing = scene.tracing) (owned : scene.origin.Owns t) :
    Follows scene.tracing w w' (Eval.make b t) (fun s => Eval.make s t) (Builds scene) := by
  intro r after ended
  obtain ⟨-, told, -⟩ := ok_of_make ended
  rw [traces] at told
  exact follows_make (ofTold coherent plays plays' owned told) r after ended

/-- A literal stands for an operation on two numbers or two booleans. -/
theorem follows_computed {op : Operator} {symbol : String} {wrap : Datum → Term} {x y : Datum} {lhs rhs : Term}
    (traces : b.tracing = scene.tracing) (written : op.sign = .text symbol) (alike : wrap = .int ∨ wrap = .bool)
    (left : Builds scene w.store w'.store (wrap x) lhs) (right : Builds scene w.store w'.store (wrap y) rhs) :
    Follows scene.tracing w w' (do let d ← Eval.apply b op x y; Eval.make b (Simplify.literal op d))
      (fun s => Eval.make s (.operation lhs op rhs)) (Builds scene) := by
  intro r after ended
  obtain ⟨d, mid, applied, made⟩ := ok_of_bind ended
  obtain ⟨computed, rfl⟩ := ok_of_examine applied
  obtain ⟨rfl, told, grown, same⟩ := ok_of_make made
  have fits : scene.origin.own.data d := Store.own_data_of_plain (Operator.references_of_apply computed)
  rw [traces] at told
  have literal := ofTold coherent plays plays' (Simplify.alike_literal op fits) told
  obtain ⟨depth, shown⟩ := Showable.operation written left.shown' right.shown'
  obtain ⟨depth', shown'⟩ := literal.shown'
  have constant (d : Datum) : (wrap d).isLiteral = true := by
    rcases alike with rfl | rfl <;> rfl
  have comes : Comes scene w'.store (.operation lhs op rhs) (Simplify.literal op d) :=
    .operation alike (left.comes (constant x)) (right.comes (constant y)) computed
      (shown.deepen (Nat.le_max_left depth depth')) (shown'.deepen (Nat.le_max_right depth depth'))
  refine ⟨grown, .make ⟨depth, shown⟩ ?_⟩
  rw [same]
  exact .ofComes literal.shown ⟨depth, shown⟩ comes

theorem follows_dyad {op : Dyad} {o : Operator} {lhs lhs' rhs rhs' : Term} (traces : b.tracing = scene.tracing)
    (computes : op.operator? = some o) (left : Builds scene w.store w'.store lhs lhs')
    (right : Builds scene w.store w'.store rhs rhs') :
    Follows scene.tracing w w' (op.evaluate b lhs rhs) (fun s => Eval.make s (.operation lhs' o rhs'))
      (Builds scene) := by
  obtain ⟨symbol, written⟩ := Dyad.sign_of_operator? computes
  rcases Dyad.evaluate_cases computes lhs rhs with kept | ⟨wrap, x, y, alike, rfl, rfl, computed⟩
  · rw [kept]
    exact follows_make (.operation written left right)
  · rw [computed]
    exact follows_computed coherent plays plays' traces written alike left right

/-- A variable is the term that it stands for, an unknown name stands for itself. -/
theorem follows_name (traces : b.tracing = scene.tracing) (known : Simplify.Owned scene.lookup scene.origin)
    (id : String) : Follows scene.tracing w w' (Meaning.name b id) (fun s => Meaning.name s id) (Builds scene) := by
  refine .get ?_
  rw [plays.bindings, plays'.bindings]
  cases found : scene.lookup.find? id with
  | some t =>
    have owned := known id t found
    have texts := owned.texts_eq (coherent.grow plays.grown.continues plays'.grown.continues) b.depth
    refine Follows.bind (Follows.trace traces fun is told => ?_) fun _ _ after after' grown grown' traced => .pure ?_
    · rw [Succeeds.map_iff, Succeeds.map_iff, ← texts.1] at told
      exact (Reached.ofNear (fun s le => (t.texts_near w'.store le).1) told).map.map
    · obtain ⟨told, same, same'⟩ := traced
      rw [same, same']
      exact ofTold coherent plays plays' owned fun is =>
        Term.dumped_of_printed (Succeeds.map_iff.1 (Succeeds.map_iff.1 (told is)))
  | none =>
    refine Follows.bind (Follows.trace traces fun is _ => ⟨_, 0, fun _ _ => rfl⟩)
      fun _ _ after after' grown grown' _ => ?_
    exact follows_same coherent (plays.grow grown) (plays'.grow grown') traces (.name trivial)

end Builds

/-- A tree is built without folding where it is built with it, and what it is built to simplifies alike. -/
theorem Phrase.follows_unfolded {b : Settings} (coherent : scene.origin.Coherent)
    (known : Simplify.Owned scene.lookup scene.origin) (traces : b.tracing = scene.tracing) {form : Form}
    (e : Phrase form) (foldable : e.isFoldable = true) {w w' : World} (plays : scene.Plays w)
    (plays' : scene.Plays w') :
    Follows scene.tracing w w' (e.evaluate b) (fun s => e.unfolded s)
      fun store store' => form.Builds scene store store' := by
  induction e generalizing w w' with
  | number n => exact Builds.follows_same coherent plays plays' traces (.int (Store.own_data_of_plain rfl))
  | string text => exact Builds.follows_same coherent plays plays' traces (.string (Store.own_data_of_plain rfl))
  | name id => exact Builds.follows_name coherent plays plays' traces known id
  | group inner ih => exact ih foldable plays plays'
  | alone only ih => exact ih foldable plays plays'
  | sign minus operand ih =>
    refine (ih foldable plays plays').bind fun t t' after after' grown grown' builds => ?_
    cases minus with
    | false => exact .pure builds
    | true =>
      refine (Builds.follows_same coherent (plays.grow grown) (plays'.grow grown') traces
        (.int (Store.own_data_of_plain rfl))).bind fun nought nought' last last' grown grown' zero => ?_
      exact Builds.follows_make (.operation rfl zero (Builds.later builds grown grown'))
  | dyad op lhs rhs left right =>
    simp only [isFoldable, Bool.and_eq_true, Option.isSome_iff_exists] at foldable
    obtain ⟨⟨⟨o, computes⟩, foldable⟩, foldable'⟩ := foldable
    simp only [evaluate, unfolded, computes]
    refine (left foldable plays plays').bind fun l l' mid mid' grown grown' left => ?_
    have plays := plays.grow grown
    have plays' := plays'.grow grown'
    refine (right foldable' plays plays').bind fun r r' last last' grown grown' right => ?_
    exact Builds.follows_dyad coherent (plays.grow grown) (plays'.grow grown') traces computes
      (Builds.later left grown grown') right
  | conditional condition yes no decides first second =>
    simp only [isFoldable, Bool.and_eq_true] at foldable
    refine (decides foldable.1.1 plays plays').bind fun c c' one one' grown grown' decides => ?_
    have plays := plays.grow grown
    have plays' := plays'.grow grown'
    refine (first foldable.1.2 plays plays').bind fun y y' two two' grown grown' first => ?_
    have decides := Builds.later decides grown grown'
    refine (second foldable.2 (plays.grow grown) (plays'.grow grown')).bind
      fun n n' last last' grown grown' second => ?_
    exact Builds.follows_conditional (decides.later grown grown') (Builds.later first grown grown') second
  | emptyList => exact (Builds.follows_makeList .nil).mono fun _ _ _ _ builds => builds.builds
  | list contents ih => exact (ih foldable plays plays').mono fun _ _ _ _ builds => BuildsList.builds builds
  | item last ih =>
    refine (ih foldable plays plays').bind fun t t' after after' _ _ builds => ?_
    exact Builds.follows_makeList (.cons builds .nil)
  | items first rest ih ih' =>
    simp only [isFoldable, Bool.and_eq_true] at foldable
    refine (ih foldable.1 plays plays').bind fun t t' mid mid' grown grown' first => ?_
    refine (ih' foldable.2 (plays.grow grown) (plays'.grow grown')).bind
      fun r r' last last' grown grown' rest => ?_
    exact Builds.follows_item traces (Builds.later first grown grown') rest
  | negation | function | builtin | application | argument | arguments => cases foldable

/-- A tree comes to the same with folding and without it. It can be built without folding where it can be with it; and
if there is enough depth, what is built fails in the same way when it is simplified, or gives results that lead to
conditionals together and otherwise are equal in structure. Without enough depth they differ only if one runs out of
it. -/
theorem folding_preserves_meaning {form : Form} {e : Phrase form} {b : Settings} {w after : World} {folded : Term}
    (foldable : e.isFoldable = true) (sound : w.store.Sound)
    (known : ∀ id t, w.bindings.find? id = some t → t.Of w.store) (built : e.evaluate b w = .ok folded after) :
    ∃ whole last enough,
      (∀ depth, enough ≤ depth → e.evaluate ⟨b.tracing, depth⟩ w = .ok folded after ∧
        e.unfolded ⟨b.tracing, depth⟩ w = .ok whole last ∧
        Outcome.Means (simplify ⟨b.tracing, depth⟩ w.bindings depth folded after)
          (simplify ⟨b.tracing, depth⟩ w.bindings depth whole last)) ∧
      ∀ depth depth', Outcome.RunsOut (simplify ⟨b.tracing, depth⟩ w.bindings depth folded after) ∨
        Outcome.RunsOut (simplify ⟨b.tracing, depth'⟩ w.bindings depth' whole last) ∨
        Outcome.Means (simplify ⟨b.tracing, depth⟩ w.bindings depth folded after)
          (simplify ⟨b.tracing, depth'⟩ w.bindings depth' whole last) := by
  have coherent := sound.coherent
  have owned : Simplify.Owned w.bindings w.store := fun id t found => (known id t found).owns
  have plays : Scene.Plays ⟨b.tracing, w.bindings, w.store⟩ w := ⟨rfl, .refl _⟩
  obtain ⟨grown, whole, last, grown', builds, early, run⟩ :=
    e.follows_unfolded coherent owned rfl foldable plays plays folded after built
  have builds := builds.builds
  obtain ⟨lag, carries⟩ := builds.kin.carries coherent owned (plays.grow grown) (plays.grow grown')
  obtain ⟨lag', carries'⟩ := builds.kin'.carries coherent owned (plays.grow grown') (plays.grow grown)
  obtain ⟨late, means⟩ := carries.eventually carries'
  refine ⟨whole, last, max b.depth (max early late), fun depth le => ?_, carries.means carries'⟩
  have deeper : b.depth ≤ depth := by omega
  have enough : early ≤ depth := by omega
  refine ⟨?_, run ⟨b.tracing, depth⟩ rfl enough, means depth (by omega)⟩
  have le : b.Le ⟨b.tracing, depth⟩ := ⟨rfl, deeper⟩
  exact Phrase.persists_evaluate le e foldable w folded after built

/-- A list of a conditional, which is a number by folding, and of a difference, which is not computed. -/
theorem folding_preserves_meaning_of_list :
    ∃ e : Phrase .expression,
      e = .list (.items (.conditional (.dyad .lt (.number 1) (.number 2)) (.dyad .add (.name "x") (.number 4))
        (.name "y")) (.item (.sign true (.name "x")))) ∧ e.isFoldable = true ∧
      ∃ folded after, e.evaluate ⟨false, 9⟩ ⟨[("x", .int (.int 3))], .empty, #[]⟩ = .ok folded after ∧
        folded = .list 1 ∧ after.store.items 1 = [.int (.int 7), .operation (.int (.int 0)) .sub (.int (.int 3))] ∧
        ∃ whole last enough, ∀ depth, enough ≤ depth →
          e.unfolded ⟨false, depth⟩ ⟨[("x", .int (.int 3))], .empty, #[]⟩ = .ok whole last ∧
          Outcome.Means (simplify ⟨false, depth⟩ [("x", .int (.int 3))] depth folded after)
            (simplify ⟨false, depth⟩ [("x", .int (.int 3))] depth whole last) := by
  have sound : Store.Sound .empty := by
    constructor
    · intro cell t member
      cases member
    · intro cell old
      cases old
  have known (id : String) (t : Term) (found : Bindings.find? [("x", .int (.int 3))] id = some t) : t.Of .empty := by
    by_cases same : id = "x"
    · subst same
      cases found
      exact ⟨List.forall_mem_nil _, List.forall_mem_nil _⟩
    · have missing := (Bindings.find?_insert_of_ne (Term.int (.int 3)) [] same).symm.trans found
      cases missing
  refine ⟨_, rfl, rfl, _, _, rfl, rfl, rfl, ?_⟩
  obtain ⟨whole, last, enough, agree, -⟩ := folding_preserves_meaning (w := ⟨[("x", .int (.int 3))], .empty, #[]⟩)
    (e := .list (.items (.conditional (.dyad .lt (.number 1) (.number 2)) (.dyad .add (.name "x") (.number 4))
      (.name "y")) (.item (.sign true (.name "x"))))) (b := ⟨false, 9⟩) rfl sound known rfl
  exact ⟨whole, last, enough, fun depth le => (agree depth le).2⟩

end DotLambda
