import DotLambda.Eval

/-!
How deeply the texts of terms go. Main statements: a text that is found is the same with more depth; a term
that prints can be dumped; and with a term all of which it is made can be dumped.
-/

namespace DotLambda

/-! ## Results that are found with less depth -/

/-- A result that is found with less depth, unless the depth runs out, is the same with more. -/
def Nears {α : Type} (x y : Except Error α) : Prop := x = .error .endless ∨ y = x

/-- A computation that does not fail. -/
def Succeeds {α : Type} (x : Except Error α) : Prop := ∃ a, x = .ok a

namespace Nears

variable {α β : Type} {x y : Except Error α}

theorem refl (x : Except Error α) : Nears x x := .inr rfl

theorem bind {f g : α → Except Error β} (first : Nears x y) (next : ∀ a, Nears (f a) (g a)) :
    Nears (x >>= f) (y >>= g) := by
  rcases first with rfl | rfl
  · exact .inl rfl
  · cases y with
    | ok a => exact next a
    | error e => exact .refl _

theorem mapM {γ : Type} {f g : γ → Except Error β} {items : List γ}
    (each : ∀ a ∈ items, Nears (f a) (g a)) : Nears (items.mapM f) (items.mapM g) := by
  induction items with
  | nil => exact .refl _
  | cons a rest ih =>
    rw [List.mapM_cons, List.mapM_cons]
    rw [List.forall_mem_cons] at each
    exact each.1.bind fun _ => (ih each.2).bind fun _ => .refl _

theorem eq_of_ok {a : α} (near : Nears x y) (found : x = .ok a) : y = .ok a := by
  rcases near with endless | same
  · rw [found] at endless
    cases endless
  · rw [same, found]

theorem succeeds (near : Nears x y) (found : Succeeds x) : Succeeds y := by
  obtain ⟨a, found⟩ := found
  exact ⟨a, near.eq_of_ok found⟩

end Nears

namespace Succeeds

variable {α β : Type} {x : Except Error α}

@[simp] theorem pure (a : α) : Succeeds (pure a : Except Error α) := ⟨a, rfl⟩

@[simp] theorem throw (e : Error) : ¬ Succeeds (throw e : Except Error α) := nofun

theorem bind_iff {f : α → Except Error β} : Succeeds (x >>= f) ↔ ∃ a, x = .ok a ∧ Succeeds (f a) := by
  cases x with
  | ok a =>
    constructor
    · exact fun found => ⟨a, rfl, found⟩
    · rintro ⟨_, ⟨⟩, found⟩
      exact found
  | error e =>
    constructor
    · rintro ⟨_, found⟩
      cases found
    · rintro ⟨_, same, _⟩
      cases same

/-- What is made of a result does not fail. -/
@[simp] theorem map_iff {g : α → β} : Succeeds (do let a ← x; Pure.pure (g a)) ↔ Succeeds x := by
  rw [bind_iff]
  exact ⟨fun ⟨a, found, _⟩ => ⟨a, found⟩, fun ⟨a, found⟩ => ⟨a, found, pure _⟩⟩

/-- What is done after a result, but does not depend on it, has to succeed as well. -/
@[simp] theorem and_iff {y : Except Error β} {γ : Type} {g : α → β → γ} :
    Succeeds (do let a ← x; let b ← y; Pure.pure (g a b)) ↔ Succeeds x ∧ Succeeds y := by
  simp only [bind_iff, pure, and_true]
  exact ⟨fun ⟨a, found, b, next⟩ => ⟨⟨a, found⟩, b, next⟩, fun ⟨⟨a, found⟩, b, next⟩ => ⟨a, found, b, next⟩⟩

theorem mapM_iff {γ : Type} {f : γ → Except Error β} {items : List γ} :
    Succeeds (items.mapM f) ↔ ∀ a ∈ items, Succeeds (f a) := by
  induction items with
  | nil => simp
  | cons a rest ih => rw [List.mapM_cons, and_iff, ih, List.forall_mem_cons]

end Succeeds

/-! ## The trace -/

namespace Eval

variable {w after : World} {s : Settings} {color : Color} {text : Store → Except Error String}

theorem ok_of_examine {α : Type} {f : Store → Except Error α} {a : α} (ended : examine f w = .ok a after) :
    f w.store = .ok a ∧ after = w := by
  cases found : f w.store with
  | ok b =>
    rw [examine_of_ok found] at ended
    cases ended
    exact ⟨rfl, rfl⟩
  | error e =>
    rw [examine_of_error found] at ended
    cases ended

/-- The text of a line that has been traced could be made, and nothing else has been done. -/
theorem ok_of_trace (ended : trace s color text w = .ok () after) :
    (s.tracing = true → Succeeds (text w.store)) ∧ after.bindings = w.bindings ∧ after.store = w.store := by
  unfold trace at ended
  split at ended
  · cases made : text w.store with
    | ok line =>
      rw [bind_of_ok (examine_of_ok made)] at ended
      cases ended
      exact ⟨fun _ => ⟨line, rfl⟩, rfl, rfl⟩
    | error e =>
      rw [bind_of_error (examine_of_error made)] at ended
      cases ended
  · rename_i untraced
    cases ended
    exact ⟨fun tracing => absurd tracing untraced, rfl, rfl⟩

/-- A line whose text can be made is traced. -/
theorem trace_of_ok {line : String} (tracing : s.tracing = true) (made : text w.store = .ok line) :
    trace s color text w = .ok () { w with output := w.output.push (.trace color line) } := by
  rw [trace, if_pos tracing, bind_of_ok (examine_of_ok made)]
  rfl

end Eval

/-! ## Data -/

namespace Datum

variable {w v : Wording}

mutual

theorem quoted_near (near : ∀ cell, Nears (w.dumped cell) (v.dumped cell)) :
    (d : Datum) → Nears (d.quoted w) (d.quoted v)
  | none | bool _ | int _ | text _ => .refl _
  | list items => (quotedAll_near near items).bind fun _ => .refl _
  | term cell => near cell

theorem quotedAll_near (near : ∀ cell, Nears (w.dumped cell) (v.dumped cell)) :
    (items : List Datum) → Nears (quotedAll w items) (quotedAll v items)
  | [] => .refl _
  | d :: rest => (quoted_near near d).bind fun _ => (quotedAll_near near rest).bind fun _ => .refl _

end

theorem plain_near (prints : ∀ cell, Nears (w.printed cell) (v.printed cell))
    (dumps : ∀ cell, Nears (w.dumped cell) (v.dumped cell)) (d : Datum) : Nears (d.plain w) (d.plain v) := by
  cases d with
  | text _ => exact .refl _
  | term cell => exact prints cell
  | none | bool _ | int _ | list _ => exact quoted_near dumps _

/-- A datum that can be shown plainly can be shown with its texts in quotes. -/
theorem quoted_of_plain (dumps : ∀ cell, Succeeds (w.printed cell) → Succeeds (w.dumped cell)) {d : Datum}
    (shown : Succeeds (d.plain w)) : Succeeds (d.quoted w) := by
  cases d with
  | text _ => exact .pure _
  | term cell => exact dumps cell shown
  | none | bool _ | int _ | list _ => exact shown

end Datum

/-! ## Terms -/

namespace Term

variable {store : Store} {depth : Nat} {t : Term}

theorem texts_near (store : Store) {depth more : Nat} (le : depth ≤ more) (t : Term) :
    Nears (t.printed store depth) (t.printed store more) ∧
      Nears (t.dumped store depth) (t.dumped store more) := by
  induction depth generalizing more t with
  | zero => exact ⟨.inl rfl, .inl rfl⟩
  | succ depth ih =>
    obtain ⟨more, rfl⟩ : ∃ m, more = m + 1 := ⟨more - 1, by omega⟩
    have inner (u : Term) := ih (Nat.le_of_succ_le_succ le) u
    have prints (cell : Nat) := (inner (store.term cell)).1
    have dumps (cell : Nat) := (inner (store.term cell)).2
    have plain (d : Datum) : Nears (d.plain (wording store depth)) (d.plain (wording store more)) :=
      d.plain_near prints dumps
    have quoted (d : Datum) : Nears (d.quoted (wording store depth)) (d.quoted (wording store more)) :=
      d.quoted_near dumps
    constructor
    · cases t with
      | int d | bool d | string d | datum d => exact (plain d).bind fun _ => .refl _
      | name | nameless | wrapped | itemless | unknown => exact .refl _
      | function parameter body => exact (plain parameter).bind fun _ => (inner body).1.bind fun _ => .refl _
      | operation lhs op rhs => exact (inner lhs).1.bind fun _ => (inner rhs).1.bind fun _ => .refl _
      | conditional condition yes no =>
        exact (inner condition).1.bind fun _ => (inner yes).1.bind fun _ => (inner no).1.bind fun _ => .refl _
      | chain items => exact (Nears.mapM fun u _ => (inner u).1).bind fun _ => .refl _
      | list cell => exact (Nears.mapM fun u _ => (inner u).1).bind fun _ => .refl _
    · cases t with
      | int d | bool d | string d | nameless d => exact (plain d).bind fun _ => .refl _
      | name | wrapped | itemless | unknown => exact .refl _
      | datum d => exact quoted d
      | function parameter body => exact (plain parameter).bind fun _ => (inner body).2.bind fun _ => .refl _
      | operation lhs op rhs =>
        exact (inner lhs).2.bind fun _ => (plain op.sign).bind fun _ => (inner rhs).2.bind fun _ => .refl _
      | conditional condition yes no =>
        exact (inner condition).2.bind fun _ => (inner yes).2.bind fun _ => (inner no).2.bind fun _ => .refl _
      | chain items => exact (Nears.mapM fun u _ => (inner u).2).bind fun _ => .refl _
      | list cell => exact (Nears.mapM fun u _ => (inner u).2).bind fun _ => .refl _

/-- A term that prints can be dumped. -/
theorem dumped_of_printed (shown : Succeeds (t.printed store depth)) : Succeeds (t.dumped store depth) := by
  induction depth generalizing t with
  | zero => exact absurd shown (Succeeds.throw _)
  | succ depth ih =>
    cases t with
    | int d | bool d | string d => exact Succeeds.map_iff.2 (Succeeds.map_iff.1 shown)
    | datum d =>
      have plain : Succeeds (d.plain (wording store depth)) := Succeeds.map_iff.1 shown
      exact Datum.quoted_of_plain (fun _ => ih) plain
    | name id => exact .pure _
    | nameless | wrapped | itemless | unknown => exact absurd shown (Succeeds.throw _)
    | function parameter body =>
      obtain ⟨plain, inner⟩ := Succeeds.and_iff.1 shown
      exact Succeeds.and_iff.2 ⟨plain, ih inner⟩
    | operation lhs op rhs =>
      obtain ⟨_, left, rest⟩ := Succeeds.bind_iff.1 shown
      obtain ⟨_, right, signed⟩ := Succeeds.bind_iff.1 rest
      obtain ⟨l, left⟩ := ih ⟨_, left⟩
      obtain ⟨r, right⟩ := ih ⟨_, right⟩
      cases sign : op.sign with
      | text symbol =>
        refine Succeeds.bind_iff.2 ⟨l, left, Succeeds.and_iff.2 ⟨?_, r, right⟩⟩
        rw [sign]
        exact .pure symbol
      | none | bool | int | list | term =>
        rw [sign] at signed
        exact absurd signed (Succeeds.throw _)
    | conditional condition yes no =>
      obtain ⟨_, decides, rest⟩ := Succeeds.bind_iff.1 shown
      obtain ⟨first, second⟩ := Succeeds.and_iff.1 rest
      obtain ⟨c, decides⟩ := ih ⟨_, decides⟩
      exact Succeeds.bind_iff.2 ⟨c, decides, Succeeds.and_iff.2 ⟨ih first, ih second⟩⟩
    | chain items | list cell =>
      have each := Succeeds.mapM_iff.1 (Succeeds.map_iff.1 shown)
      exact Succeeds.map_iff.2 (Succeeds.mapM_iff.2 fun u member => ih (each u member))

/-- A datum that a term shows plainly can be shown with its texts in quotes. -/
private theorem quoted_of_part {d : Datum} (shown : Succeeds (d.plain (wording store depth))) :
    Succeeds (d.quoted (wording store (depth + 1))) :=
  have quoted := Datum.quoted_of_plain (fun _ => dumped_of_printed) shown
  (d.quoted_near fun cell => ((store.term cell).texts_near store (Nat.le_succ depth)).2).succeeds quoted

private theorem dumped_of_part {u : Term} (shown : Succeeds (u.dumped store depth)) :
    Succeeds (u.dumped store (depth + 1)) :=
  (u.texts_near store (Nat.le_succ depth)).2.succeeds shown

/-- What a term that can be dumped is made of can be dumped. -/
theorem components_of_dumped (shown : Succeeds (t.dumped store depth)) :
    ∀ entry ∈ t.components, Succeeds (entry.2.dumped store depth) := by
  cases depth with
  | zero => exact absurd shown (Succeeds.throw _)
  | succ depth =>
    cases t with
    | int d | bool d | string d | nameless d =>
      rintro _ (_ | ⟨_, ⟨⟩⟩)
      exact quoted_of_part (Succeeds.map_iff.1 shown)
    | name id =>
      rintro _ (_ | ⟨_, ⟨⟩⟩)
      exact .pure _
    | function parameter body =>
      obtain ⟨plain, inner⟩ := Succeeds.and_iff.1 shown
      rintro _ (_ | ⟨_, _ | ⟨_, ⟨⟩⟩⟩)
      · exact quoted_of_part plain
      · exact dumped_of_part inner
    | operation lhs op rhs =>
      obtain ⟨l, left, rest⟩ := Succeeds.bind_iff.1 shown
      obtain ⟨signed, right⟩ := Succeeds.and_iff.1 rest
      rintro _ (_ | ⟨_, _ | ⟨_, _ | ⟨_, ⟨⟩⟩⟩⟩)
      · exact dumped_of_part ⟨l, left⟩
      · exact quoted_of_part signed
      · exact dumped_of_part right
    | conditional condition yes no =>
      obtain ⟨c, decides, rest⟩ := Succeeds.bind_iff.1 shown
      obtain ⟨first, second⟩ := Succeeds.and_iff.1 rest
      rintro _ (_ | ⟨_, _ | ⟨_, _ | ⟨_, ⟨⟩⟩⟩⟩)
      · exact dumped_of_part ⟨c, decides⟩
      · exact dumped_of_part first
      · exact dumped_of_part second
    | chain items =>
      have each := Succeeds.mapM_iff.1 (Succeeds.map_iff.1 shown)
      rintro _ (_ | ⟨_, ⟨⟩⟩)
      exact Succeeds.map_iff.2 (Succeeds.mapM_iff.2 fun u member => dumped_of_part (each u member))
    | wrapped | itemless | unknown => exact absurd shown (Succeeds.throw _)
    | list | datum => exact List.forall_mem_nil _

/-- The items of a list that can be dumped can be dumped. -/
theorem items_of_dumped {cell : Nat} (shown : Succeeds ((list cell).dumped store depth)) :
    ∀ u ∈ store.items cell, Succeeds (u.dumped store depth) := by
  cases depth with
  | zero => exact absurd shown (Succeeds.throw _)
  | succ depth =>
    have each := Succeeds.mapM_iff.1 (Succeeds.map_iff.1 shown)
    exact fun u member => dumped_of_part (each u member)

end Term

/-- Components can be dumped together if each can be. -/
theorem Component.dumpedBindings_succeeds {store : Store} {depth : Nat} {components : Bindings Component}
    (each : ∀ entry ∈ components, Succeeds (entry.2.dumped store depth)) :
    Succeeds (dumpedBindings store depth components) :=
  Succeeds.map_iff.2 (Succeeds.mapM_iff.2 fun entry member => Succeeds.map_iff.2 (each entry member))

end DotLambda
