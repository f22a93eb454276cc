import DotLambda.Proofs.Constancy

/-!
Terms that simplify alike although they are built in different ways. A constant may stand in one term where in the
other there is an operation or a conditional that comes to it, and a clause in one where in the other there is the
conditional that chooses it. Main statements: to be so related is kept by building terms from terms; and the results
are equal in structure, but for the clauses of conditionals that are not decided, unless one of the two simplifications
runs out of depth.
-/

namespace DotLambda

open Eval

open Simplify (Lookup)

variable {scene : Scene} {base base' : Store} {t t' v : Term}

/-! ## Results that differ in clauses only -/

/-- A term that leads to no conditional. -/
def Store.Unconditional (store : Store) (t : Term) : Prop := ∀ c y n, ¬ store.Leads t (.conditional c y n)

namespace Term.Alike

variable {l : Likeness} {store store' : Store} {t t' : Term}

theorem parts (relates : l.Relates store store') (alike : Alike l t t') :
    List.Forall₂ (Alike l) (store.parts t) (store'.parts t') := by
  cases alike with
  | function _ inner => exact .cons inner .nil
  | operation left _ right => exact .cons left (.cons right .nil)
  | conditional decides first second => exact .cons decides (.cons first (.cons second .nil))
  | nil => exact .nil
  | cons first rest => exact .cons first rest.items_of_chain
  | list is => exact relates.items _ _ is
  | wrapped inner => exact .cons inner .nil
  | int | bool | string | name | nameless | itemless | unknown | datum => exact .nil

theorem referred (relates : l.Relates store store') (alike : Alike l t t') :
    ∀ cell ∈ t.references, cell ∈ t'.references ∧ Alike l (store.term cell) (store'.term cell) := by
  have datum {d : Datum} (fits : l.data d) (cell : Nat) (refers : cell ∈ d.references) :=
    (relates.referred d fits cell refers).2.2
  induction alike with
  | int fits | bool fits | string fits | nameless fits | datum fits =>
    exact fun cell refers => ⟨refers, datum fits cell refers⟩
  | name | list | itemless | unknown | nil => exact List.forall_mem_nil _
  | wrapped _ ih => exact ih
  | function fits _ ih =>
    simp only [references, List.mem_append]
    rintro cell (refers | refers)
    · exact ⟨.inl refers, datum fits cell refers⟩
    · exact (ih cell refers).imp_left .inr
  | operation _ fits _ left right =>
    simp only [references, List.mem_append]
    rintro cell ((refers | refers) | refers)
    · exact (left cell refers).imp_left fun there => .inl (.inl there)
    · exact ⟨.inl (.inr refers), datum fits cell refers⟩
    · exact (right cell refers).imp_left .inr
  | conditional _ _ _ decides first second =>
    simp only [references, List.mem_append]
    rintro cell ((refers | refers) | refers)
    · exact (decides cell refers).imp_left fun there => .inl (.inl there)
    · exact (first cell refers).imp_left fun there => .inl (.inr there)
    · exact (second cell refers).imp_left .inr
  | cons _ _ first rest =>
    simp only [references, referencesAll, List.mem_append] at rest ⊢
    rintro cell (refers | refers)
    · exact (first cell refers).imp_left .inl
    · exact (rest cell refers).imp_left .inr

/-- Terms that are alike lead to conditionals together. -/
theorem ne_conditional {u : Term} (relates : l.Relates store store') (leads : store.Leads t u) (alike : Alike l t t')
    (decided : store'.Unconditional t') (c y n : Term) : u ≠ .conditional c y n := by
  induction leads generalizing t' with
  | self t =>
    rintro rfl
    cases alike
    exact decided _ _ _ (.self _)
  | @part t between u member _ ih =>
    obtain ⟨between', member', alike⟩ := exists_mem_of_forall₂ (alike.parts relates) member
    exact ih alike fun c y n leads => decided c y n (.part member' leads)
  | @referred t u cell refers _ ih =>
    obtain ⟨refers, alike⟩ := alike.referred relates cell refers
    exact ih alike fun c y n leads => decided c y n (.referred refers leads)

end Term.Alike

theorem Store.Equal.unconditional {store store' : Store} {t t' : Term} (equal : store.Equal store' t t')
    (decided : store'.Unconditional t') : store.Unconditional t := by
  obtain ⟨l, relates, alike⟩ := equal
  exact fun c y n leads => alike.ne_conditional relates leads decided c y n rfl

/-- Terms in a row, alike but for the clauses of conditionals that are not decided, of which is known that they can be
dumped. -/
inductive Close (tracing : Bool) (lag : Nat) (l : Likeness) (store store' : Store) : List Term → List Term → Prop where
  | nil : Close tracing lag l store store' [] []
  | alike {t t' : Term} {rest rest' : List Term} (alike : Term.Alike l t t')
      (others : Close tracing lag l store store' rest rest') :
      Close tracing lag l store store' (t :: rest) (t' :: rest')
  | conditional {condition condition' yes yes' no no' : Term} {rest rest' : List Term}
      (decides : Close tracing lag l store store' [condition] [condition'])
      (first : Shown tracing store lag yes) (first' : Shown tracing store' lag yes')
      (second : Shown tracing store lag no) (second' : Shown tracing store' lag no')
      (others : Close tracing lag l store store' rest rest') :
      Close tracing lag l store store' (.conditional condition yes no :: rest)
        (.conditional condition' yes' no' :: rest')
  | list {cell cell' : Nat} {rest rest' : List Term} (here : cell < store.size) (there : cell' < store'.size)
      (items : Close tracing lag l store store' (store.items cell) (store'.items cell'))
      (others : Close tracing lag l store store' rest rest') :
      Close tracing lag l store store' (.list cell :: rest) (.list cell' :: rest')

namespace Close

variable {tracing : Bool} {lag later : Nat} {l more : Likeness} {store store' after after' : Store}
  {items items' : List Term}

theorem mono (close : Close tracing lag l store store' items items') (le : lag ≤ later) (wider : l.Le more)
    (grown : store.Continues after) (grown' : store'.Continues after') :
    Close tracing later more after after' items items' := by
  induction close with
  | nil => exact .nil
  | alike alike _ others => exact .alike (alike.mono wider) others
  | conditional _ first first' second second' _ decides others =>
    exact .conditional decides ((first.grow grown).deepen le) ((first'.grow grown').deepen le)
      ((second.grow grown).deepen le) ((second'.grow grown').deepen le) others
  | @list cell cell' _ _ here there _ _ items others =>
    refine .list (Nat.lt_of_lt_of_le here grown.size_le) (Nat.lt_of_lt_of_le there grown'.size_le) ?_ others
    rw [grown.items_eq cell here, grown'.items_eq cell' there]
    exact items

theorem ofForall₂ (each : List.Forall₂ (fun t t' => Close tracing lag l store store' [t] [t']) items items') :
    Close tracing lag l store store' items items' := by
  induction each with
  | nil => exact .nil
  | cons first _ others =>
    cases first with
    | alike alike => exact .alike alike others
    | conditional decides first first' second second' => exact .conditional decides first first' second second' others
    | list here there items => exact .list here there items others

/-- What is close can be dumped together, the second with more depth. -/
theorem dumped (relates : l.Relates store store') (is : tracing = true)
    (close : Close tracing lag l store store' items items') {depth depth' : Nat} (deeper : depth + lag ≤ depth') :
    List.Forall₂ (fun t t' => Together (t.dumped store depth) (t'.dumped store' depth')) items items' := by
  induction close generalizing depth depth' with
  | nil => exact .nil
  | alike alike _ others =>
    exact .cons (alike.dumped_near relates (by omega)).together (others deeper)
  | conditional _ first first' second second' _ decides others =>
    refine .cons ?_ (others deeper)
    cases depth with
    | zero => exact .endless rfl
    | succ depth =>
      obtain ⟨depth', rfl⟩ : ∃ below, depth' = below + 1 := ⟨depth' - 1, by omega⟩
      have clause {t t' : Term} (shown : Shown tracing store lag t) (shown' : Shown tracing store' lag t') :
          Together (t.dumped store depth) (t'.dumped store' depth') :=
        (shown.certain is (.refl store) depth).together (shown'.certain is (.refl store') depth') (by omega)
      have deeper : depth + lag ≤ depth' := by omega
      cases decides deeper with
      | cons decided =>
        exact decided.bind fun _ _ _ => (clause first first').bind fun _ _ _ => (clause second second').map
  | list _ _ _ _ items others =>
    refine .cons ?_ (others deeper)
    cases depth with
    | zero => exact .endless rfl
    | succ depth =>
      obtain ⟨depth', rfl⟩ : ∃ below, depth' = below + 1 := ⟨depth' - 1, by omega⟩
      exact (Together.mapM (items (by omega)) fun _ _ together => together).map

theorem dumped_single {t t' : Term} (relates : l.Relates store store') (is : tracing = true)
    (close : Close tracing lag l store store' [t] [t']) {depth depth' : Nat} (deeper : depth + lag ≤ depth') :
    Together (t.dumped store depth) (t'.dumped store' depth') := by
  cases close.dumped relates is deeper with
  | cons together => exact together

/-- Lists are taken for each other also if their items are close and lead to no conditional. -/
def likeness (tracing : Bool) (lag : Nat) (l : Likeness) (store store' : Store) : Likeness :=
  { l with
    cells := fun cell cell' => l.cells cell cell' ∨ cell < store.size ∧ cell' < store'.size ∧
      Close tracing lag l store store' (store.items cell) (store'.items cell') ∧
        ∀ t ∈ store'.items cell', store'.Unconditional t }

theorem le_likeness : l.Le (likeness tracing lag l store store') :=
  ⟨fun _ is => is, fun _ is => is, fun _ _ is => .inl is⟩

theorem alikes (close : Close tracing lag l store store' items items')
    (decided : ∀ t ∈ items', store'.Unconditional t) :
    List.Forall₂ (Term.Alike (likeness tracing lag l store store')) items items' := by
  induction close with
  | nil => exact .nil
  | alike alike _ others =>
    rw [List.forall_mem_cons] at decided
    exact .cons (alike.mono le_likeness) (others decided.2)
  | conditional =>
    rw [List.forall_mem_cons] at decided
    exact absurd (.self _) (decided.1 _ _ _)
  | @list cell cell' _ _ here there items _ _ others =>
    rw [List.forall_mem_cons] at decided
    refine .cons (.list (.inr ⟨here, there, items, fun t member => ?_⟩)) (others decided.2)
    exact fun c y n leads => decided.1 c y n (.part member leads)

/-- What is close is equal in structure where the second leads to no conditional. -/
theorem equal {t t' : Term} (relates : l.Relates store store') (close : Close tracing lag l store store' [t] [t'])
    (decided : store'.Unconditional t') : store.Equal store' t t' := by
  have rows := close.alikes (List.forall_mem_singleton.2 decided)
  refine ⟨likeness tracing lag l store store', ⟨?_, ?_, ?_, fun d is cell refers => ?_⟩, ?_⟩
  · rintro cell cell' (is | ⟨here, -⟩)
    · exact relates.here cell cell' is
    · exact here
  · rintro cell cell' (is | ⟨-, there, -⟩)
    · exact relates.there cell cell' is
    · exact there
  · rintro cell cell' (is | ⟨-, -, close, decided⟩)
    · exact (relates.items cell cell' is).imp fun _ _ alike => alike.mono le_likeness
    · exact close.alikes decided
  · obtain ⟨old, old', alike⟩ := relates.referred d is cell refers
    exact ⟨old, old', alike.mono le_likeness⟩
  · cases rows with
    | cons alike => exact alike

theorem symm (close : Close tracing lag l store store' items items') :
    Close tracing lag l.flip store' store items' items := by
  induction close with
  | nil => exact .nil
  | alike alike _ others => exact .alike alike.symm others
  | conditional _ first first' second second' _ decides others =>
    exact .conditional decides first' first second' second others
  | list here there _ _ items others => exact .list there here items others

end Close

/-! ## Terms that simplify alike -/

/-- Two runs in a scene on what goes on with two stores, of which the second has so much more depth. -/
structure Course (scene : Scene) (base base' : Store) (lag : Nat) (s s' : Settings) (l : Likeness) (w w' : World) :
    Prop where
  traces : s.tracing = scene.tracing
  traces' : s'.tracing = scene.tracing
  depth : s.depth + lag ≤ s'.depth
  known : scene.origin.own.Le l
  meets : Meets scene.lookup scene.lookup l w w'
  here : base.Continues w.store
  there : base'.Continues w'.store

/-- Terms of two stores that simplify to what is close, or fail alike, in all runs of which the second has so much
more depth, unless the first runs out of it. -/
def KinWithin (scene : Scene) (base base' : Store) (lag : Nat) (t t' : Term) : Prop :=
  ∀ {s s' : Settings} {l : Likeness} {w w' : World} {depth depth' : Nat},
    Course scene base base' lag s s' l w w' → depth + lag ≤ depth' →
      Tandem scene.lookup scene.lookup l w w' (simplify s scene.lookup depth t) (simplify s' scene.lookup depth' t')
        fun more store store' r r' => Close scene.tracing lag more store store' [r] [r']

/-- Terms of two stores that simplify alike. -/
def Kin (scene : Scene) (base base' : Store) (t t' : Term) : Prop := ∃ lag, KinWithin scene base base' lag t t'

variable {lag : Nat} {s s' : Settings} {l more : Likeness} {w w' after after' : World}

namespace Course

theorem le (course : Course scene base base' lag s s' l w w') : s.Le s' :=
  ⟨course.traces'.trans course.traces.symm, by have := course.depth; omega⟩

theorem advance (course : Course scene base base' lag s s' l w w')
    (advances : Advances scene.lookup scene.lookup l w w' more after after') :
    Course scene base base' lag s s' more after after' :=
  { course with
    known := course.known.trans advances.wider
    meets := advances.meets
    here := course.here.trans advances.here
    there := course.there.trans advances.there }

theorem weaken {less : Nat} (course : Course scene base base' lag s s' l w w') (le : less ≤ lag) :
    Course scene base base' less s s' l w w' :=
  { course with depth := by have := course.depth; omega }

theorem rebase {early early' : Store} (course : Course scene base base' lag s s' l w w')
    (grown : early.Continues base) (grown' : early'.Continues base') :
    Course scene early early' lag s s' l w w' :=
  { course with
    here := grown.trans course.here
    there := grown'.trans course.there }

end Course

/-- A name that a term comes to is looked up once more. What is no name stays as it is. -/
theorem Close.resolve {depth depth' : Nat} (course : Course scene base base' lag s s' l w w')
    (deeper : depth ≤ depth') (close : Close scene.tracing lag l w.store w'.store [t] [t']) :
    Tandem scene.lookup scene.lookup l w w' (Simplify.resolve scene.lookup (simplify s scene.lookup depth) t)
      (Simplify.resolve scene.lookup (simplify s' scene.lookup depth') t')
      fun more _ _ r r' => Term.Similar more r r' := by
  cases close with
  | alike alike =>
    have run := Simplify.accords_resolve (Simplify.accords_simplify_replace course.le deeper).1 course.meets alike
    exact run.mono fun _ _ _ _ _ _ alike => alike.similar
  | conditional => exact .pure course.meets (.other rfl rfl rfl)
  | list => exact .pure course.meets (.other rfl rfl rfl)

/-- Lists with items that are close are put into new cells. -/
theorem Close.newList {tracing : Bool} {lookup lookup' : Lookup} {items items' : List Term}
    (meets : Meets lookup lookup' l w w') (close : Close tracing lag l w.store w'.store items items') :
    Tandem lookup lookup' l w w' (Eval.newList items) (Eval.newList items')
      fun more store store' r r' => Close tracing lag more store store' [r] [r'] := by
  have grown := Store.Continues.allocate w.store items
  have grown' := Store.Continues.allocate w'.store items'
  refine .ofOk rfl rfl ⟨grown, grown', .refl l, fun _ is => is, ?_⟩ (.list ?_ ?_ ?_ .nil)
  · exact ⟨meets.relates.grow grown grown', meets.even, meets.plain, meets.lookups⟩
  · rw [Store.size_allocate]
    exact Nat.lt_succ_self _
  · rw [Store.size_allocate]
    exact Nat.lt_succ_self _
  · rw [Store.items_allocate_self, Store.items_allocate_self]
    exact close.mono (Nat.le_refl _) (.refl l) grown grown'

namespace KinWithin

theorem weaken {greater : Nat} (kin : KinWithin scene base base' lag t t') (le : lag ≤ greater) :
    KinWithin scene base base' greater t t' := by
  intro s s' l w w' depth depth' course deeper
  refine (kin (course.weaken le) (by omega)).mono fun _ _ _ _ _ _ close => ?_
  exact close.mono le (.refl _) (.refl _) (.refl _)

/-- The lines of the trace before and after a simplification can be written, so terms simplify alike if their steps
do. -/
theorem ofStep (proper : t.isDatum = false) (proper' : t'.isDatum = false)
    (shown : Shown scene.tracing base lag t) (shown' : Shown scene.tracing base' lag t')
    (step : ∀ {s s' : Settings} {l : Likeness} {w w' : World} {depth depth' : Nat},
      Course scene base base' lag s s' l w w' → depth + lag ≤ depth' →
        Tandem scene.lookup scene.lookup l w w'
          (Simplify.simplified s scene.lookup (simplify s scene.lookup depth) (replace s scene.lookup depth) t)
          (Simplify.simplified s' scene.lookup (simplify s' scene.lookup depth') (replace s' scene.lookup depth') t')
          fun more store store' r r' => Close scene.tracing lag more store store' [r] [r']) :
    KinWithin scene base base' lag t t' := by
  intro s s' l w w' depth depth' course deeper
  cases depth with
  | zero => exact .endless rfl
  | succ depth =>
    obtain ⟨depth', rfl⟩ : ∃ below, depth' = below + 1 := ⟨depth' - 1, by omega⟩
    have enough : lag ≤ s'.depth := by have := course.depth; omega
    have told {more : Likeness} {after after' : World} (course : Course scene base base' lag s s' more after after')
        (tracing : s.tracing = true) :
        Together (t.dumped after.store s.depth) (t'.dumped after'.store s'.depth) := by
      rw [course.traces] at tracing
      exact (shown.certain tracing course.here s.depth).together (shown'.certain tracing course.there s'.depth) enough
    rw [simplify.eq_3 s scene.lookup t depth (Term.ne_datum proper),
      simplify.eq_3 s' scene.lookup t' depth' (Term.ne_datum proper')]
    refine (Tandem.trace course.le course.meets fun tracing => (told course tracing).map).bind
      fun _ _ _ _ _ first _ => ?_
    have course := course.advance first
    refine (step course (by omega)).bind fun _ _ _ _ _ second close => ?_
    have course := course.advance second
    refine (Tandem.trace course.le course.meets fun tracing => ?_).bind fun _ _ _ _ _ third _ => ?_
    · refine (told course tracing).bind fun _ _ _ => Together.map ?_
      exact close.dumped_single course.meets.relates (course.traces ▸ tracing) course.depth
    · exact .pure third.meets (close.mono (Nat.le_refl _) third.wider third.here third.there)

theorem ofAlike (alike : Term.Alike scene.origin.own t t') : KinWithin scene base base' 0 t t' := by
  intro s s' l w w' depth depth' course deeper
  have run := (Simplify.accords_simplify_replace course.le deeper).1 course.meets (alike.mono course.known)
  exact run.mono fun _ _ _ _ _ _ alike => .alike alike .nil

theorem operation {op : Operator} {lhs lhs' rhs rhs' : Term} (plain : op.sign.references = [])
    (left : KinWithin scene base base' lag lhs lhs') (right : KinWithin scene base base' lag rhs rhs')
    (shown : Shown scene.tracing base lag (.operation lhs op rhs))
    (shown' : Shown scene.tracing base' lag (.operation lhs' op rhs')) :
    KinWithin scene base base' lag (.operation lhs op rhs) (.operation lhs' op rhs') := by
  refine ofStep rfl rfl shown shown' fun course deeper => ?_
  refine (left course deeper).bind fun _ _ _ _ _ first left => ?_
  have course := course.advance first
  refine (right course deeper).bind fun _ _ _ _ _ second right => ?_
  have course := course.advance second
  have left := left.mono (Nat.le_refl _) second.wider second.here second.there
  refine (left.resolve course (by omega)).bind fun _ _ _ _ _ third left => ?_
  have course := course.advance third
  have right := right.mono (Nat.le_refl _) third.wider third.here third.there
  refine (right.resolve course (by omega)).bind fun _ _ _ _ _ fourth right => ?_
  have course := course.advance fourth
  have signed := course.meets.plain op.sign plain
  exact (Simplify.tandem_compute course.le course.meets signed (left.mono fourth.wider) right).mono
    fun _ _ _ _ _ _ alike => .alike alike .nil

theorem conditional {condition condition' yes yes' no no' : Term}
    (decides : KinWithin scene base base' lag condition condition') (first : KinWithin scene base base' lag yes yes')
    (second : KinWithin scene base base' lag no no') (told : Shown scene.tracing base lag yes)
    (told' : Shown scene.tracing base' lag yes') (tells : Shown scene.tracing base lag no)
    (tells' : Shown scene.tracing base' lag no') (shown : Shown scene.tracing base lag (.conditional condition yes no))
    (shown' : Shown scene.tracing base' lag (.conditional condition' yes' no')) :
    KinWithin scene base base' lag (.conditional condition yes no) (.conditional condition' yes' no') := by
  refine ofStep rfl rfl shown shown' fun {s s' _ _ _ depth depth'} course deeper => ?_
  refine (decides course deeper).bind fun more after after' c c' advances close => ?_
  have course := course.advance advances
  have kept : Tandem scene.lookup scene.lookup more after after' (Eval.make s (.conditional c yes no))
      (Eval.make s' (.conditional c' yes' no'))
      fun more store store' r r' => Close scene.tracing lag more store store' [r] [r'] := by
    have whole : Close scene.tracing lag more after.store after'.store [.conditional c yes no]
        [.conditional c' yes' no'] :=
      .conditional close (told.grow course.here) (told'.grow course.there) (tells.grow course.here)
        (tells'.grow course.there) .nil
    refine .makes course.le course.meets (fun advances => ?_) fun tracing => ?_
    · have later := whole.mono (Nat.le_refl _) advances.wider advances.here advances.there
      exact ⟨later, fun tracing =>
        later.dumped_single advances.meets.relates (course.traces ▸ tracing) course.depth⟩
    · rw [course.traces] at tracing
      have clause {t t' : Term} (shown : Shown scene.tracing base lag t) (shown' : Shown scene.tracing base' lag t') :
          Together (t.dumped after.store s.depth) (t'.dumped after'.store s'.depth) :=
        (shown.certain tracing course.here s.depth).together (shown'.certain tracing course.there s'.depth)
          (by have := course.depth; omega)
      exact Component.together_dumpedBindings (.cons
        (close.dumped_single course.meets.relates tracing course.depth)
        (.cons (clause told told') (.cons (clause tells tells') .nil)))
  cases close with
  | conditional => exact kept
  | list => exact kept
  | alike alike =>
    cases alike with
    | @bool d fits =>
      dsimp only
      cases d.truth with
      | true => exact first course deeper
      | false => exact second course deeper
    | int | string | name | nameless | function | operation | conditional | nil | cons | list | wrapped | itemless
    | unknown | datum => exact kept

theorem list {cell cell' : Nat} (old : cell < base.size) (old' : cell' < base'.size)
    (each : List.Forall₂ (KinWithin scene base base' lag) (base.items cell) (base'.items cell'))
    (shown : Shown scene.tracing base lag (.list cell)) (shown' : Shown scene.tracing base' lag (.list cell')) :
    KinWithin scene base base' lag (.list cell) (.list cell') := by
  refine ofStep rfl rfl shown shown' fun course deeper => .get ?_
  rw [course.here.items_eq cell old, course.there.items_eq cell' old']
  have grows {l more : Likeness} {w w' after after' : World} {t t' : Term}
      (advances : Advances scene.lookup scene.lookup l w w' more after after')
      (close : Close scene.tracing lag l w.store w'.store [t] [t']) :
      Close scene.tracing lag more after.store after'.store [t] [t'] :=
    close.mono (Nat.le_refl _) advances.wider advances.here advances.there
  refine (Tandem.mapM grows course.meets each fun _ _ _ advances _ _ kin =>
    kin (course.advance advances) deeper).bind fun more after after' out out' advances each => ?_
  have course := course.advance advances
  have close := Close.ofForall₂ each
  refine .makesList course.le course.meets (fun tracing => ?_) (fun most last last' later => ?_) grows ?_
  · have told := close.dumped course.meets.relates (course.traces ▸ tracing) course.depth
    exact Together.mapM told fun _ _ together => together
  · exact Close.newList later.meets (close.mono (Nat.le_refl _) later.wider later.here later.there)
  · intro more after after' t t' meets close tracing
    exact close.dumped_single meets.relates (course.traces ▸ tracing) course.depth

end KinWithin

namespace Kin

theorem ofAlike (alike : Term.Alike scene.origin.own t t') : Kin scene base base' t t' :=
  ⟨0, KinWithin.ofAlike alike⟩

theorem grow {later later' : Store} (kin : Kin scene base base' t t') (grown : base.Continues later)
    (grown' : base'.Continues later') : Kin scene later later' t t' := by
  obtain ⟨lag, kin⟩ := kin
  exact ⟨lag, fun course deeper => kin (course.rebase grown grown') deeper⟩

theorem operation {op : Operator} {symbol : String} {lhs lhs' rhs rhs' : Term} (written : op.sign = .text symbol)
    (left : Kin scene base base' lhs lhs') (right : Kin scene base base' rhs rhs')
    (shown : Showable scene.tracing base (.operation lhs op rhs))
    (shown' : Showable scene.tracing base' (.operation lhs' op rhs')) :
    Kin scene base base' (.operation lhs op rhs) (.operation lhs' op rhs') := by
  obtain ⟨first, left⟩ := left
  obtain ⟨second, right⟩ := right
  obtain ⟨depth, shown⟩ := shown
  obtain ⟨depth', shown'⟩ := shown'
  have plain : op.sign.references = [] := by
    rw [written]
    rfl
  refine ⟨max (max first second) (max depth depth'), KinWithin.operation plain (left.weaken ?_) (right.weaken ?_)
    (shown.deepen ?_) (shown'.deepen ?_)⟩ <;> omega

theorem conditional {condition condition' yes yes' no no' : Term} (decides : Kin scene base base' condition condition')
    (first : Kin scene base base' yes yes') (second : Kin scene base base' no no')
    (told : Showable scene.tracing base yes) (told' : Showable scene.tracing base' yes')
    (tells : Showable scene.tracing base no) (tells' : Showable scene.tracing base' no')
    (shown : Showable scene.tracing base (.conditional condition yes no))
    (shown' : Showable scene.tracing base' (.conditional condition' yes' no')) :
    Kin scene base base' (.conditional condition yes no) (.conditional condition' yes' no') := by
  obtain ⟨a, decides⟩ := decides
  obtain ⟨b, first⟩ := first
  obtain ⟨c, second⟩ := second
  obtain ⟨d, told⟩ := told
  obtain ⟨d', told'⟩ := told'
  obtain ⟨e, tells⟩ := tells
  obtain ⟨e', tells'⟩ := tells'
  obtain ⟨f, shown⟩ := shown
  obtain ⟨f', shown'⟩ := shown'
  refine ⟨a + b + c + d + d' + e + e' + f + f', KinWithin.conditional (decides.weaken ?_) (first.weaken ?_)
    (second.weaken ?_) (told.deepen ?_) (told'.deepen ?_) (tells.deepen ?_) (tells'.deepen ?_) (shown.deepen ?_)
    (shown'.deepen ?_)⟩ <;> omega

theorem common {items items' : List Term} (each : List.Forall₂ (Kin scene base base') items items') :
    ∃ lag, List.Forall₂ (KinWithin scene base base' lag) items items' := by
  refine exists_forall₂_of_mono (R := KinWithin scene base base') ?_ each
  intro _ _ _ _ le kin
  exact kin.weaken le

theorem list {cell cell' : Nat} (old : cell < base.size) (old' : cell' < base'.size)
    (each : List.Forall₂ (Kin scene base base') (base.items cell) (base'.items cell'))
    (shown : Showable scene.tracing base (.list cell)) (shown' : Showable scene.tracing base' (.list cell')) :
    Kin scene base base' (.list cell) (.list cell') := by
  obtain ⟨lag, each⟩ := common each
  obtain ⟨depth, shown⟩ := shown
  obtain ⟨depth', shown'⟩ := shown'
  refine ⟨lag + depth + depth', KinWithin.list old old' (each.imp fun _ _ kin => kin.weaken ?_)
    (shown.deepen ?_) (shown'.deepen ?_)⟩ <;> omega

/-- Terms that come to the same literal. -/
theorem ofComes (here : Comes scene base t v) (there : Comes scene base' t' v) : Kin scene base base' t t' := by
  obtain ⟨_, -, attains⟩ := here.attains
  obtain ⟨lag, -, attains'⟩ := there.attains
  refine ⟨lag, fun {s s' l w w' depth depth'} course deeper => ?_⟩
  have enough : lag ≤ s'.depth ∧ lag ≤ depth' := by
    have := course.depth
    omega
  have first : Attains False w (simplify s scene.lookup depth t) v :=
    (attains course.traces course.here).weaken False.elim
  have second : Attains True w' (simplify s' scene.lookup depth' t') v :=
    (attains' course.traces' course.there).weaken fun _ => enough
  refine .mirror first second fun mid mid' same same' => .pure (course.meets.congr same same') ?_
  exact .alike (here.owned.mono course.known) .nil

/-- A conditional that is decided simplifies as the clause that it chooses does: as the second of two terms. -/
theorem chosen_right {condition yes no : Term} {d : Datum} {depth : Nat}
    (decides : Comes scene base' condition (.bool d)) (kin : Kin scene base base' t (if d.truth then yes else no))
    (shown : Shown scene.tracing base' depth (.conditional condition yes no)) :
    Kin scene base base' t (.conditional condition yes no) := by
  obtain ⟨lag, kin⟩ := kin
  obtain ⟨enough, le, mirrors⟩ := decides.mirrors shown
  have deep : lag ≤ max lag enough + 1 := by omega
  refine ⟨max lag enough + 1, fun {s s' l w w' below below'} course deeper => ?_⟩
  obtain ⟨below', rfl⟩ : ∃ n, below' = n + 1 := ⟨below' - 1, by omega⟩
  have room := course.depth
  rw [← bind_pure (simplify s scene.lookup below t)]
  refine .mirror (.refl _) ((mirrors course.traces' course.there).weaken fun _ => by omega)
    fun mid mid' same same' => ?_
  have course : Course scene base base' lag s s' l mid mid' :=
    { course.weaken deep with
      meets := course.meets.congr same same'
      here := same ▸ course.here
      there := same' ▸ course.there }
  refine ((kin course (by omega)).trail fun more after after' r r' _ ended advances => ⟨.refl _, ?_⟩).mono
    fun _ _ _ _ _ _ close => close.mono deep (.refl _) (.refl _) (.refl _)
  refine Simplify.attains_finish (fun tracing => ?_) fun tracing => ?_
  · have onward := course.there.trans advances.there
    exact (shown.certain (course.traces' ▸ tracing) onward s'.depth).weaken fun _ => by omega
  · exact .inl (Simplify.dumped_of_simplify ended tracing)

/-- A conditional that is decided simplifies as the clause that it chooses does: as the first of two terms. -/
theorem chosen_left {condition yes no : Term} {d : Datum} {depth : Nat}
    (decides : Comes scene base condition (.bool d)) (kin : Kin scene base base' (if d.truth then yes else no) t)
    (shown : Shown scene.tracing base depth (.conditional condition yes no)) :
    Kin scene base base' (.conditional condition yes no) t := by
  obtain ⟨lag, kin⟩ := kin
  obtain ⟨enough, le, mirrors⟩ := decides.mirrors shown
  refine ⟨lag, fun {s s' l w w' below below'} course deeper => ?_⟩
  cases below with
  | zero => exact .endless rfl
  | succ below =>
    rw [← bind_pure (simplify s' scene.lookup below' t)]
    refine .mirror ((mirrors course.traces course.here).weaken False.elim) (.refl _) fun mid mid' same same' => ?_
    have course : Course scene base base' lag s s' l mid mid' :=
      { course with
        meets := course.meets.congr same same'
        here := same ▸ course.here
        there := same' ▸ course.there }
    refine (kin course (by omega)).trail fun more after after' r r' ended _ advances => ⟨?_, .refl _⟩
    refine Simplify.attains_finish (fun tracing => ?_) fun tracing => ?_
    · have onward := course.here.trans advances.here
      exact (shown.certain (course.traces ▸ tracing) onward s.depth).weaken False.elim
    · exact .inl (Simplify.dumped_of_simplify ended tracing)

end Kin

/-! ## Outcomes that mean the same -/

/-- A world in which names stand for what they stand for in a scene, and what was there is as it was. -/
structure Scene.Plays (scene : Scene) (w : World) : Prop where
  bindings : w.bindings = scene.lookup
  grown : scene.origin.Extends w.store

theorem Scene.Plays.grow {w after : World} (plays : scene.Plays w) (grown : w.Grows after) : scene.Plays after :=
  ⟨grown.bindings_eq.trans plays.bindings, plays.grown.trans grown.store⟩

theorem Scene.Plays.meets {w w' : World} (coherent : scene.origin.Coherent)
    (known : Simplify.Owned scene.lookup scene.origin) (plays : scene.Plays w) (plays' : scene.Plays w') :
    Meets scene.lookup scene.lookup scene.origin.own w w' where
  relates := coherent.grow plays.grown.continues plays'.grown.continues
  even := by rw [plays.grown.terms_eq, plays'.grown.terms_eq]
  plain _ none := Store.own_data_of_plain none
  lookups id _ := by
    cases found : scene.lookup.find? id with
    | some t => exact .some (known id t found)
    | none => exact .none

/-- What comes of a simplification. -/
abbrev Outcome := EStateM.Result Error World Term

namespace Outcome

/-- An outcome for want of depth. -/
def RunsOut (r : Outcome) : Prop := ∃ last, r = .error .endless last

/-- Outcomes that are the same failure, or results that lead to conditionals together and otherwise are equal in
structure. -/
def Means : Outcome → Outcome → Prop
  | .ok t w, .ok t' w' => (w.store.Unconditional t ↔ w'.store.Unconditional t') ∧
    (w'.store.Unconditional t' → w.store.Equal w'.store t t')
  | .error e _, .error e' _ => e = e'
  | _, _ => False

variable {r r' r'' : Outcome}

theorem RunsOut.means (out : r.RunsOut) (out' : r'.RunsOut) : r.Means r' := by
  obtain ⟨_, rfl⟩ := out
  obtain ⟨_, rfl⟩ := out'
  rfl

namespace Means

theorem symm (means : r.Means r') : r'.Means r := by
  cases r with
  | ok t w =>
    cases r' with
    | ok t' w' => exact ⟨means.1.symm, fun decided => (means.2 (means.1.1 decided)).symm⟩
    | error => exact means.elim
  | error e w =>
    cases r' with
    | ok => exact means.elim
    | error e' w' => exact Eq.symm means

theorem trans (means : r.Means r') (next : r'.Means r'') : r.Means r'' := by
  cases r with
  | ok t w =>
    cases r' with
    | ok t' w' =>
      cases r'' with
      | ok t'' w'' =>
        exact ⟨means.1.trans next.1, fun decided => (means.2 (next.1.2 decided)).trans (next.2 decided)⟩
      | error => exact next.elim
    | error => exact means.elim
  | error e w =>
    cases r' with
    | ok => exact means.elim
    | error e' w' =>
      cases r'' with
      | ok => exact next.elim
      | error e'' w'' => exact Eq.trans means next

theorem runsOut (means : r.Means r') (out : r'.RunsOut) : r.RunsOut := by
  obtain ⟨last, rfl⟩ := out
  cases r with
  | ok => exact means.elim
  | error e w =>
    cases means
    exact ⟨w, rfl⟩

end Means

/-- What comes at any depth comes elsewhere with so much more depth. -/
def Carries (lag : Nat) (f g : Nat → Outcome) : Prop :=
  ∀ {depth depth' : Nat}, depth + lag ≤ depth' → (f depth).RunsOut ∨ (f depth).Means (g depth')

namespace Carries

variable {lag lag' : Nat} {f g : Nat → Outcome}

/-- Outcomes that carry over to each other mean the same at any depths, unless one is for want of depth. -/
theorem means (carries : Carries lag f g) (carries' : Carries lag' g f) (depth depth' : Nat) :
    (f depth).RunsOut ∨ (g depth').RunsOut ∨ (f depth).Means (g depth') := by
  by_cases out : (f depth).RunsOut
  · exact .inl out
  by_cases out' : (g depth').RunsOut
  · exact .inr (.inl out')
  -- Both go over to the first with still more depth.
  have first := (carries (Nat.le_refl (depth + lag))).resolve_left out
  have second : (g (depth + lag)).Means (f (max (depth + lag) depth' + lag')) :=
    (carries' (by omega)).resolve_left fun short => out (first.runsOut short)
  have third : (g depth').Means (f (max (depth + lag) depth' + lag')) := (carries' (by omega)).resolve_left out'
  exact .inr (.inr ((first.trans second).trans third.symm))

/-- Outcomes that carry over to each other mean the same if there is enough depth. -/
theorem eventually (carries : Carries lag f g) (carries' : Carries lag' g f) :
    ∃ enough, ∀ depth, enough ≤ depth → (f depth).Means (g depth) := by
  by_cases always : ∀ depth, (f depth).RunsOut
  · refine ⟨0, fun depth _ => (always depth).means ?_⟩
    rcases carries' (Nat.le_refl (depth + lag')) with short | means
    · exact short
    · exact means.runsOut (always _)
  · obtain ⟨start, out⟩ := not_forall.1 always
    refine ⟨start + lag + lag', fun depth le => ?_⟩
    have first := (carries (Nat.le_refl (start + lag))).resolve_left out
    have later : (f start).Means (g depth) := (carries (by omega)).resolve_left out
    have again : (g (start + lag)).Means (f depth) :=
      (carries' (by omega)).resolve_left fun short => out (first.runsOut short)
    exact (first.trans again).symm.trans later

end Carries

end Outcome

/-- What comes of a term comes of one that simplifies alike, with more depth. -/
theorem Kin.carries {w w' : World} {t t' : Term} (coherent : scene.origin.Coherent)
    (known : Simplify.Owned scene.lookup scene.origin) (plays : scene.Plays w) (plays' : scene.Plays w')
    (kin : Kin scene w.store w'.store t t') :
    ∃ lag, Outcome.Carries lag (fun depth => simplify ⟨scene.tracing, depth⟩ scene.lookup depth t w)
      fun depth => simplify ⟨scene.tracing, depth⟩ scene.lookup depth t' w' := by
  obtain ⟨lag, kin⟩ := kin
  refine ⟨lag, fun {depth depth'} le => ?_⟩
  have course :
      Course scene w.store w'.store lag ⟨scene.tracing, depth⟩ ⟨scene.tracing, depth'⟩ scene.origin.own w w' :=
    ⟨rfl, rfl, le, .refl _, plays.meets coherent known plays', .refl _, .refl _⟩
  rcases kin course le with out | ⟨r, after, r', after', more, ended, ended', advances, close⟩ |
    ⟨e, after, after', ended, ended'⟩
  · exact .inl out
  · have relates := advances.meets.relates
    have equal := close.equal relates
    have equal' := close.symm.equal relates.flip
    dsimp only
    rw [ended, ended']
    refine .inr ⟨⟨fun decided => ?_, fun decided => (equal decided).unconditional decided⟩, equal⟩
    exact (equal' decided).unconditional decided
  · dsimp only
    rw [ended, ended']
    exact .inr rfl

end DotLambda
