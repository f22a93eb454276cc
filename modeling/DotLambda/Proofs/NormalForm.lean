import DotLambda.Proofs.Frame
import DotLambda.Proofs.Likeness

/-!
What comes out of simplification. Outside the clauses of conditionals that are not decided no operation, no bound
name and no chain of one item is left. Main statement: what simplification gives is in this normal form, and
does not nest deeper than the simplification went; to replace a name by an argument keeps a term in it.
-/

namespace DotLambda

/-! ## What belongs to a store -/

/-- A term of a store: the lists that it holds and the terms to which its data refer are there. -/
structure Term.Of (store : Store) (t : Term) : Prop where
  cells : ∀ cell ∈ t.cells, cell < store.size
  references : ∀ cell ∈ t.references, cell < store.terms.size

/-- A store whose lists hold terms of the store only, and so do the cells to which data refer. -/
structure Store.Sound (store : Store) : Prop where
  items : ∀ cell, ∀ t ∈ store.items cell, t.Of store
  terms : ∀ cell < store.terms.size, (store.term cell).Of store

namespace Store

/-- The likeness of a store with itself. -/
def own (store : Store) : Likeness where
  names _ := True
  data d := ∀ cell ∈ d.references, cell < store.terms.size
  cells cell cell' := cell' = cell ∧ cell < store.size

/-- A datum that refers to nothing may stand in any store. -/
theorem own_data_of_plain {store : Store} {d : Datum} (plain : d.references = []) : store.own.data d := by
  intro cell refers
  rw [plain] at refers
  cases refers

/-- A term that is alike with itself in a store. -/
abbrev Owns (store : Store) (t : Term) : Prop := Term.Alike store.own t t

/-- A store that is alike with itself. -/
abbrev Coherent (store : Store) : Prop := store.own.Relates store store

variable {store : Store}

mutual

theorem owns_of : (t : Term) → (∀ cell ∈ t.cells, cell < store.size) →
    (∀ cell ∈ t.references, cell < store.terms.size) → store.Owns t
  | .int _, _, refers => .int refers
  | .bool _, _, refers => .bool refers
  | .string _, _, refers => .string refers
  | .name _, _, _ => .name trivial
  | .nameless _, _, refers => .nameless refers
  | .function _ body, cells, refers => by
    rw [Term.references, List.forall_mem_append] at refers
    exact .function refers.1 (owns_of body cells refers.2)
  | .operation lhs _ rhs, cells, refers => by
    rw [Term.cells, List.forall_mem_append] at cells
    rw [Term.references, List.forall_mem_append, List.forall_mem_append] at refers
    exact .operation (owns_of lhs cells.1 refers.1.1) refers.1.2 (owns_of rhs cells.2 refers.2)
  | .conditional condition yes no, cells, refers => by
    rw [Term.cells, List.forall_mem_append, List.forall_mem_append] at cells
    rw [Term.references, List.forall_mem_append, List.forall_mem_append] at refers
    exact .conditional (owns_of condition cells.1.1 refers.1.1) (owns_of yes cells.1.2 refers.1.2)
      (owns_of no cells.2 refers.2)
  | .chain items, cells, refers => owns_ofAll items cells refers
  | .list cell, cells, _ => .list ⟨rfl, cells cell (List.mem_singleton_self cell)⟩
  | .wrapped inner, cells, refers => .wrapped (owns_of inner cells refers)
  | .itemless _ _, _, _ => .itemless
  | .unknown _, _, _ => .unknown
  | .datum _, _, refers => .datum refers

theorem owns_ofAll : (items : List Term) → (∀ cell ∈ Term.cellsAll items, cell < store.size) →
    (∀ cell ∈ Term.referencesAll items, cell < store.terms.size) → store.Owns (.chain items)
  | [], _, _ => .nil
  | t :: rest, cells, refers => by
    rw [Term.cellsAll, List.forall_mem_append] at cells
    rw [Term.referencesAll, List.forall_mem_append] at refers
    exact .cons (owns_of t cells.1 refers.1) (owns_ofAll rest cells.2 refers.2)

end

end Store

theorem Term.Of.owns {store : Store} {t : Term} (known : t.Of store) : store.Owns t :=
  Store.owns_of t known.cells known.references

namespace Store

variable {store : Store}

theorem Owns.items {items : List Term} (owned : store.Owns (.chain items)) : ∀ t ∈ items, store.Owns t := by
  have each := owned.items_of_chain
  rwa [List.forall₂_same] at each

theorem Sound.coherent (sound : store.Sound) : store.Coherent where
  here _ _ is := is.2
  there := by
    rintro cell _ ⟨rfl, old⟩
    exact old
  items := by
    rintro cell _ ⟨rfl, -⟩
    exact List.forall₂_same.2 fun t member => (sound.items _ t member).owns
  referred d is cell refers := ⟨is cell refers, is cell refers, (sound.terms cell (is cell refers)).owns⟩

theorem Continues.own_le {after : Store} (grown : store.Continues after) : store.own.Le after.own where
  names _ is := is
  data _ is cell refers := Nat.lt_of_lt_of_le (is cell refers) grown.terms_le
  cells _ _ is := ⟨is.1, Nat.lt_of_lt_of_le is.2 grown.size_le⟩

namespace Coherent

theorem owns_items (coherent : store.Coherent) {cell : Nat} (old : cell < store.size) :
    ∀ t ∈ store.items cell, store.Owns t := by
  have each := coherent.items cell cell ⟨rfl, old⟩
  rwa [List.forall₂_same] at each

theorem allocate (coherent : store.Coherent) {items : List Term} (each : ∀ t ∈ items, store.Owns t) :
    (store.allocate items).Coherent := by
  have wider := (Continues.allocate store items).own_le
  refine ⟨fun _ _ is => is.2, ?_, ?_, fun d is cell refers => ?_⟩
  · rintro cell _ ⟨rfl, old⟩
    exact old
  · rintro cell _ ⟨rfl, old⟩
    refine List.forall₂_same.2 fun t member => ?_
    rw [size_allocate] at old
    rcases Nat.lt_or_eq_of_le (Nat.le_of_lt_succ old) with old | rfl
    · rw [items_allocate_of_lt store items old] at member
      exact (coherent.owns_items old t member).mono wider
    · rw [items_allocate_self] at member
      exact (each t member).mono wider
  · exact ⟨is cell refers, is cell refers, (coherent.referred d is cell refers).2.2.mono wider⟩

theorem keep (coherent : store.Coherent) {terms : List Term} (each : ∀ t ∈ terms, store.Owns t) :
    (store.keep terms).Coherent := by
  have wider := (Continues.keep store terms).own_le
  refine ⟨fun _ _ is => is.2, ?_, ?_, fun d is cell refers => ?_⟩
  · rintro cell _ ⟨rfl, old⟩
    exact old
  · rintro cell _ ⟨rfl, old⟩
    exact List.forall₂_same.2 fun t member => (coherent.owns_items old t member).mono wider
  · have known := is cell refers
    refine ⟨known, known, ?_⟩
    by_cases old : cell < store.terms.size
    · rw [term_keep_of_lt store terms old]
      have single : store.own.data (.term cell) := fun c member => List.mem_singleton.1 member ▸ old
      exact (coherent.referred _ single cell (List.mem_singleton_self cell)).2.2.mono wider
    · have fresh : cell - store.terms.size < terms.length := by
        simp only [Store.keep, Array.size_append, List.size_toArray] at known
        omega
      have found : (store.keep terms).term cell = terms[cell - store.terms.size] := by
        simp [Store.keep, Store.term, Array.getElem?_append, old, fresh]
      rw [found]
      exact (each _ (List.getElem_mem fresh)).mono wider

end Coherent

end Store

namespace Datum

mutual

theorem references_redirect (f : Nat → Nat) : (d : Datum) → (d.redirect f).references = d.references.map f
  | list items => referencesAll_redirectAll f items
  | term _ | none | bool _ | int _ | text _ => rfl

theorem referencesAll_redirectAll (f : Nat → Nat) :
    (items : List Datum) → referencesAll (redirectAll f items) = (referencesAll items).map f
  | [] => rfl
  | d :: rest => by
    rw [redirectAll, referencesAll, referencesAll, references_redirect f d, referencesAll_redirectAll f rest,
      List.map_append]

end

/-- A copy of a datum refers to the copies of the terms to which the datum does. -/
theorem redirect_data {store : Store} (d : Datum) :
    (store.keep (d.references.eraseDups.map store.term)).own.data
      (d.redirect fun cell => store.terms.size + d.references.eraseDups.idxOf cell) := by
  intro cell refers
  rw [references_redirect, List.mem_map] at refers
  obtain ⟨old, member, rfl⟩ := refers
  have place := List.idxOf_lt_length_of_mem (List.mem_eraseDups.2 member)
  simp only [Store.keep, Array.size_append, List.size_toArray, List.length_map]
  omega

end Datum

/-! ## Evaluations that keep a store coherent -/

namespace Eval

/-- An evaluation whose result, if it has one, is good in the store after it. All that there was is as it was,
and the store is coherent again. -/
def Yields {α : Type} (w : World) (x : Eval α) (good : Store → α → Prop) : Prop :=
  ∀ a after, x w = .ok a after →
    w.store.Continues after.store ∧ after.store.Coherent ∧ good after.store a

namespace Yields

variable {α β : Type} {w : World} {x : Eval α} {good : Store → α → Prop} {s : Settings}

theorem pure {a : α} (coherent : w.store.Coherent) (fine : good w.store a) : Yields w (pure a) good := by
  rintro _ _ ⟨⟩
  exact ⟨.refl _, coherent, fine⟩

theorem throw {e : Error} : Yields w (throw e) good := nofun

theorem mono {better : Store → α → Prop} (yields : Yields w x good)
    (widens : ∀ store a, good store a → better store a) : Yields w x better := by
  intro a after ended
  obtain ⟨grown, coherent, fine⟩ := yields a after ended
  exact ⟨grown, coherent, widens _ a fine⟩

theorem bind {f : α → Eval β} {best : Store → β → Prop} (first : Yields w x good)
    (next : ∀ a after, w.store.Continues after.store → after.store.Coherent → good after.store a →
      Yields after (f a) best) : Yields w (x >>= f) best := by
  intro b last ended
  cases started : x w with
  | ok a after =>
    rw [bind_of_ok started] at ended
    obtain ⟨grown, coherent, fine⟩ := first a after started
    obtain ⟨later, coherent, best⟩ := next a after grown coherent fine b last ended
    exact ⟨grown.trans later, coherent, best⟩
  | error e after =>
    rw [bind_of_error started] at ended
    cases ended

theorem get {f : World → Eval β} {best : Store → β → Prop} (next : Yields w (f w) best) :
    Yields w (MonadState.get >>= f) best := next

theorem ofExcept {e : Except Error α} (coherent : w.store.Coherent) (fine : ∀ a, e = .ok a → good w.store a) :
    Yields w (Eval.ofExcept e) good := by
  cases e with
  | ok a => exact .pure coherent (fine a rfl)
  | error _ => exact .throw

theorem examine {f : Store → Except Error α} (coherent : w.store.Coherent)
    (fine : ∀ a, f w.store = .ok a → good w.store a) : Yields w (Eval.examine f) good :=
  .get (.ofExcept coherent fine)

theorem look {f : Store → Except Error α} (coherent : w.store.Coherent) :
    Yields w (Eval.examine f) fun _ _ => True :=
  examine coherent fun _ _ => trivial

theorem emit {e : Event} (coherent : w.store.Coherent) :
    Yields w (Eval.emit e) fun store _ => store = w.store := by
  rintro _ _ ⟨⟩
  exact ⟨.refl _, coherent, rfl⟩

theorem trace {color : Color} {text : Store → Except Error String} (coherent : w.store.Coherent) :
    Yields w (Eval.trace s color text) fun store _ => store = w.store := by
  unfold Eval.trace
  split
  · have looked : Yields w (Eval.examine text) fun store _ => store = w.store := examine coherent fun _ _ => rfl
    refine looked.bind fun _ _ _ coherent same => ?_
    rw [← same]
    exact .emit coherent
  · exact .pure coherent rfl

section
variable {t : Term} {good : Store → Term → Prop}

theorem make (coherent : w.store.Coherent) (fine : good w.store t) : Yields w (Eval.make s t) good := by
  refine (trace coherent).bind fun _ _ _ coherent same => ?_
  refine (trace coherent).bind fun _ _ _ coherent same' => .pure coherent ?_
  rw [same', same]
  exact fine

theorem makeList {items : List Term} (coherent : w.store.Coherent) (each : ∀ t ∈ items, w.store.Owns t)
    (fine : good (w.store.allocate items) (.list w.store.size)) : Yields w (Eval.makeList s items) good := by
  refine (trace coherent).bind fun _ between _ coherent same => ?_
  have made : Yields between (Eval.newList items) fun store r =>
      r = .list w.store.size ∧ store = w.store.allocate items := by
    rintro _ _ ⟨⟩
    rw [← same] at each ⊢
    exact ⟨.allocate _ _, coherent.allocate each, rfl, rfl⟩
  refine made.bind ?_
  rintro r after - coherent ⟨is, allocated⟩
  refine (trace coherent).bind fun _ last _ coherent same => .pure coherent ?_
  rw [is, same, allocated]
  exact fine

end

/-- A copy of an argument is an argument. -/
theorem copy {t : Term} (argument : t.isArgument = true) (coherent : w.store.Coherent)
    (owned : w.store.Owns t) :
    Yields w (Eval.copy t) fun store r => store.Owns r ∧ r.isArgument = true := by
  rintro _ _ ⟨⟩
  have kept {d : Datum} (fits : w.store.own.data d) :
      (w.store.keep (d.references.eraseDups.map w.store.term)).Coherent := by
    refine coherent.keep fun u member => ?_
    obtain ⟨cell, refers, rfl⟩ := List.mem_map.1 member
    exact (coherent.referred d fits cell (List.mem_eraseDups.1 refers)).2.2
  cases owned with
  | int fits => exact ⟨.keep _ _, kept fits, .int (Datum.redirect_data _), rfl⟩
  | bool fits => exact ⟨.keep _ _, kept fits, .bool (Datum.redirect_data _), rfl⟩
  | string | name | nameless | function | operation | conditional | nil | cons | list | wrapped | itemless
  | unknown | datum => cases argument

theorem mapM {f : Term → Eval Term} {items : List Term} {best : Term → Store → Term → Prop}
    (grows : ∀ {t r before after}, before.Continues after → best t before r → best t after r)
    (coherent : w.store.Coherent)
    (each : ∀ after, w.store.Continues after.store → after.store.Coherent → ∀ t ∈ items,
      Yields after (f t) (best t)) :
    Yields w (items.mapM f) fun store out => List.Forall₂ (fun t r => best t store r) items out := by
  induction items generalizing w with
  | nil => exact .pure coherent .nil
  | cons t rest ih =>
    rw [List.mapM_cons]
    refine (each w (.refl _) coherent t List.mem_cons_self).bind fun r between grown coherent here => ?_
    refine (ih coherent fun after later coherent u member =>
      each after (grown.trans later) coherent u (List.mem_cons_of_mem t member)).bind
        fun others after later coherent there => ?_
    exact .pure coherent (.cons (grows later here) there)

end Yields

end Eval

/-! ## Normal forms -/

namespace Simplify

open Eval

/-- A term in which nothing is left to look up, to compute or to decide outside the clauses of conditionals, and
which nests outside of them at most to a height. Of a list its items are meant. -/
def Normal (lookup : Lookup) (store : Store) : (height : Nat) → Term → Prop
  | 0, _ => False
  | height + 1, t =>
    match t with
    | .int _ | .bool _ | .string _ => True
    | .name id => id ≠ "true" ∧ id ≠ "false" ∧ lookup.find? id = none
    | .nameless id => ∀ items, id ≠ .list items
    | .function parameter body => (∃ x, parameter = .text x) ∧ Normal lookup store height body
    | .conditional condition _ _ => Normal lookup store height condition ∧ ∀ d, condition ≠ .bool d
    | .chain items => items.length ≠ 1 ∧ ∀ t ∈ items, Normal lookup store height t
    | .list cell => cell < store.size ∧ ∀ t ∈ store.items cell, Normal lookup store height t
    | _ => False

/-- A term of a store in normal form. -/
structure Settled (lookup : Lookup) (store : Store) (height : Nat) (t : Term) : Prop where
  owned : store.Owns t
  normal : Normal lookup store height t

/-- What names stand for are terms of a store. -/
def Owned (lookup : Lookup) (store : Store) : Prop :=
  ∀ id t, lookup.find? id = some t → store.Owns t

variable {lookup : Lookup} {store after : Store} {height : Nat} {t : Term}

/-- A greater height does as well, and so do more lists. -/
theorem Normal.mono {more : Nat} (le : height ≤ more) (grown : store.Continues after)
    (normal : Normal lookup store height t) : Normal lookup after more t := by
  induction height generalizing more t with
  | zero => exact normal.elim
  | succ height ih =>
    obtain ⟨more, rfl⟩ : ∃ m, more = m + 1 := ⟨more - 1, by omega⟩
    have step {u : Term} (normal : Normal lookup store height u) : Normal lookup after more u :=
      ih (by omega) normal
    cases t with
    | int | bool | string => trivial
    | name | nameless => exact normal
    | function parameter body => exact ⟨normal.1, step normal.2⟩
    | conditional condition yes no => exact ⟨step normal.1, normal.2⟩
    | chain items => exact ⟨normal.1, fun u member => step (normal.2 u member)⟩
    | list cell =>
      refine ⟨Nat.lt_of_lt_of_le normal.1 grown.size_le, fun u member => step (normal.2 u ?_)⟩
      rwa [grown.items_eq cell normal.1] at member
    | operation | wrapped | itemless | unknown | datum => exact normal.elim

theorem Settled.mono {more : Nat} (settled : Settled lookup store height t) (le : height ≤ more)
    (grown : store.Continues after) : Settled lookup after more t :=
  ⟨settled.owned.mono grown.own_le, settled.normal.mono le grown⟩

theorem Normal.ofArgument (argument : t.isArgument = true) : Normal lookup store (height + 1) t := by
  cases t with
  | int | bool => trivial
  | string | name | nameless | function | operation | conditional | chain | list | wrapped | itemless | unknown
  | datum => cases argument

/-- The function that a term in normal form is has a body in normal form; such a term names none. -/
theorem Settled.body {parameter : Datum} {body : Term} (settled : Settled lookup store height t)
    (found : functionOf? lookup t = some (parameter, body)) : Settled lookup store height body := by
  cases height with
  | zero => exact settled.normal.elim
  | succ height =>
    cases t with
    | function parameter' body' =>
      cases found
      have owned : store.Owns body := by
        cases settled.owned with
        | function _ inner => exact inner
      exact ⟨owned, settled.normal.2.mono (Nat.le_succ height) (.refl store)⟩
    | name id =>
      simp only [functionOf?, settled.normal.2.2] at found
      cases found
    | int | bool | string | nameless | operation | conditional | chain | list | wrapped | itemless | unknown
    | datum => cases found

/-! ## Simplifying and replacing -/

variable {s : Settings} {depth : Nat} {w : World}

theorem Owned.grow (known : Owned lookup store) (grown : store.Continues after) : Owned lookup after :=
  fun id t found => (known id t found).mono grown.own_le

/-- A way to evaluate terms of a store that puts them in normal form. -/
def Normalizes (lookup : Lookup) (depth : Nat) (f : Term → Eval Term) : Prop :=
  ∀ {w : World} {t : Term}, w.store.Coherent → Owned lookup w.store → w.store.Owns t →
    Yields w (f t) (Settled lookup · depth)

/-- A way to evaluate terms of a store, given another one, that keeps them in normal form. -/
def KeepsNormal (lookup : Lookup) (depth : Nat) (value : Term) (f : Term → Eval Term) : Prop :=
  ∀ {w : World} {t : Term}, w.store.Coherent → Owned lookup w.store → w.store.Owns value → w.store.Owns t →
    Yields w (f t) fun store r => store.Owns r ∧ (Normal lookup w.store depth t → Normal lookup store depth r)

theorem yields_contract {g : Datum → Term → Term → Eval Term}
    (replace : ∀ x value, value.isArgument = true → KeepsNormal lookup depth value (g x value))
    {rest : List Term} {first : Term} (coherent : w.store.Coherent) (known : Owned lookup w.store)
    (here : Settled lookup w.store depth first) (others : ∀ t ∈ rest, Settled lookup w.store depth t) :
    Yields w (contract lookup g first rest) fun store out => ∀ t ∈ out, Settled lookup store depth t := by
  induction rest generalizing w first with
  | nil => exact .pure coherent (List.forall_mem_singleton.2 here)
  | cons next rest ih =>
    rw [List.forall_mem_cons] at others
    unfold contract
    split
    · rename_i parameter body found argument
      have inner := here.body found
      refine (replace parameter next argument coherent known others.1.owned inner.owned).bind ?_
      rintro result after grown coherent ⟨owned, normal⟩
      refine ih coherent (known.grow grown) ⟨owned, normal inner.normal⟩ fun t member => ?_
      exact (others.2 t member).mono (Nat.le_refl _) grown
    · refine (ih coherent known others.1 others.2).bind fun out after grown coherent fine => ?_
      exact .pure coherent (List.forall_mem_cons.2 ⟨here.mono (Nat.le_refl _) grown, fine⟩)

theorem yields_contractAll {g : Datum → Term → Term → Eval Term}
    (replace : ∀ x value, value.isArgument = true → KeepsNormal lookup depth value (g x value))
    {items : List Term} (coherent : w.store.Coherent) (known : Owned lookup w.store)
    (each : ∀ t ∈ items, Settled lookup w.store depth t) :
    Yields w (contractAll lookup g items) fun store out => ∀ t ∈ out, Settled lookup store depth t := by
  cases items with
  | nil => exact .pure coherent each
  | cons first rest =>
    rw [List.forall_mem_cons] at each
    exact yields_contract replace coherent known each.1 each.2

theorem yields_items {f : Term → Eval Term} (simplify : Normalizes lookup depth f) {items : List Term}
    (coherent : w.store.Coherent) (known : Owned lookup w.store) (each : ∀ t ∈ items, w.store.Owns t) :
    Yields w (items.mapM f) fun store out => ∀ t ∈ out, Settled lookup store depth t := by
  have row : Yields w (items.mapM f) fun store out =>
      List.Forall₂ (fun _ r => Settled lookup store depth r) items out := by
    refine .mapM (fun grown settled => settled.mono (Nat.le_refl _) grown) coherent ?_
    exact fun after grown coherent t member =>
      simplify coherent (known.grow grown) ((each t member).mono grown.own_le)
  refine row.mono fun _ _ each t member => ?_
  obtain ⟨_, -, settled⟩ := exists_mem_of_forall₂ each.flip member
  exact settled

theorem yields_resolve {f : Term → Eval Term} (simplify : Normalizes lookup depth f) (coherent : w.store.Coherent)
    (known : Owned lookup w.store) : Yields w (resolve lookup f t) fun _ _ => True := by
  unfold resolve
  split
  · split
    · rename_i bound
      exact (simplify coherent known (known _ _ bound)).mono fun _ _ _ => trivial
    · exact .pure coherent trivial
  · exact .pure coherent trivial

theorem settled_plain {d : Datum} (plain : d.references = []) (wrap : Datum → Term)
    (owned : store.own.data d → store.Owns (wrap d)) (normal : Normal lookup store height (wrap d)) :
    Settled lookup store height (wrap d) :=
  ⟨owned (Store.own_data_of_plain plain), normal⟩

theorem settled_literal (op : Operator) {d : Datum} (plain : d.references = []) :
    Settled lookup store (height + 1) (literal op d) := by
  unfold literal
  split
  · exact settled_plain plain .int .int trivial
  · exact settled_plain plain .bool .bool trivial

theorem settled_stringLiteral (op : Operator) {d : Datum} (plain : d.references = []) :
    Settled lookup store (height + 1) (stringLiteral op d) := by
  cases op with
  | add => exact settled_plain plain .string .string trivial
  | sub | mul | div | eq | ne | lt | le | gt | ge | other => exact settled_literal _ plain

theorem yields_compute {op : Operator} {lhs rhs : Term} (coherent : w.store.Coherent) :
    Yields w (compute s op lhs rhs) (Settled lookup · (depth + 1)) := by
  have literal {l r : Datum} {wrap : Datum → Term}
      (settled : ∀ {d : Datum} {store : Store}, d.references = [] → Settled lookup store (depth + 1) (wrap d)) :
      Yields w (do let result ← Eval.apply s op l r; Eval.make s (wrap result)) (Settled lookup · (depth + 1)) := by
    have applied : Yields w (Eval.apply s op l r) fun _ result => result.references = [] :=
      .examine coherent fun _ computed => Operator.references_of_apply computed
    exact applied.bind fun _ _ _ coherent plain => .make coherent (settled plain)
  unfold compute
  split
  · exact literal fun plain => settled_literal op plain
  · exact literal fun plain => settled_literal op plain
  · exact literal fun plain => settled_stringLiteral op plain
  · exact (Yields.look coherent).bind fun _ _ _ _ _ => .throw

theorem normalizes_simplified {f : Term → Eval Term} {g : Datum → Term → Term → Eval Term}
    (simplify : Normalizes lookup depth f)
    (replace : ∀ x value, value.isArgument = true → KeepsNormal lookup depth value (g x value)) :
    Normalizes lookup (depth + 1) (simplified s lookup f g) := by
  intro w t coherent known owned
  have later {w : World} {t : Term} (coherent : w.store.Coherent) (known : Owned lookup w.store)
      (owned : w.store.Owns t) : Yields w (f t) (Settled lookup · (depth + 1)) :=
    (simplify coherent known owned).mono fun _ _ settled => settled.mono (Nat.le_succ _) (.refl _)
  cases t with
  | int | bool | string => exact .make coherent ⟨owned, trivial⟩
  | name id =>
    simp only [simplified]
    by_cases yes : id = "true"
    · rw [if_pos yes]
      exact .make coherent (settled_plain rfl .bool .bool trivial)
    rw [if_neg yes]
    by_cases no : id = "false"
    · rw [if_pos no]
      exact .make coherent (settled_plain rfl .bool .bool trivial)
    rw [if_neg no]
    cases bound : lookup.find? id with
    | some value => exact later coherent known (known id value bound)
    | none => exact .make coherent ⟨owned, yes, no, bound⟩
  | nameless id =>
    cases id with
    | list items => exact .throw
    | none | bool | int | text | term => exact .make coherent ⟨owned, by simp [Normal]⟩
  | function parameter body =>
    obtain ⟨fits, inner⟩ : w.store.own.data parameter ∧ w.store.Owns body := by
      cases owned with
      | function fits inner => exact ⟨fits, inner⟩
    refine (Yields.look coherent).bind fun x between grown coherent _ => ?_
    refine (simplify coherent (known.grow grown) (inner.mono grown.own_le)).bind
      fun b after _ coherent settled => .make coherent ⟨.function ?_ settled.owned, ⟨x, rfl⟩, settled.normal⟩
    exact List.forall_mem_nil _
  | operation lhs op rhs =>
    obtain ⟨left, right⟩ : w.store.Owns lhs ∧ w.store.Owns rhs := by
      cases owned with
      | operation left _ right => exact ⟨left, right⟩
    refine (simplify coherent known left).bind fun l first grown coherent _ => ?_
    have known := known.grow grown
    refine (simplify coherent known (right.mono grown.own_le)).bind fun r second grown coherent _ => ?_
    have known := known.grow grown
    refine (yields_resolve simplify coherent known).bind fun l third grown coherent _ => ?_
    have known := known.grow grown
    exact (yields_resolve simplify coherent known).bind fun r _ _ coherent _ => yields_compute coherent
  | conditional condition yes no =>
    obtain ⟨decides, first, second⟩ : w.store.Owns condition ∧ w.store.Owns yes ∧ w.store.Owns no := by
      cases owned with
      | conditional decides first second => exact ⟨decides, first, second⟩
    refine (simplify coherent known decides).bind fun c after grown coherent settled => ?_
    have known := known.grow grown
    have first := first.mono grown.own_le
    have second := second.mono grown.own_le
    have undecided (different : ∀ d, c ≠ .bool d) :
        Yields after (Eval.make s (.conditional c yes no)) (Settled lookup · (depth + 1)) :=
      .make coherent ⟨.conditional settled.owned first second, settled.normal, different⟩
    cases c with
    | bool value =>
      cases truth : value.truth with
      | true =>
        simp only [truth, if_pos]
        exact later coherent known first
      | false =>
        simp only [truth, Bool.false_eq_true, if_false]
        exact later coherent known second
    | int | string | name | nameless | function | operation | conditional | chain | list | wrapped | itemless
    | unknown | datum => exact undecided (by simp)
  | chain items =>
    refine (yields_items simplify coherent known (Store.Owns.items owned)).bind
      fun out between grown coherent settled => ?_
    have known := known.grow grown
    refine (yields_contractAll replace coherent known settled).bind fun out after grown coherent settled => ?_
    have known := known.grow grown
    have several (length : out.length ≠ 1) :
        Yields after (Eval.make s (.chain out)) (Settled lookup · (depth + 1)) := by
      refine .make coherent ⟨.chain ?_, length, fun u member => (settled u member).normal⟩
      exact List.forall₂_same.2 fun u member => (settled u member).owned
    rcases out with _ | ⟨only, _ | ⟨next, rest⟩⟩
    · exact several (by simp)
    · exact later coherent known (settled only (List.mem_singleton_self only)).owned
    · exact several (by simp)
  | list cell =>
    have old : cell < w.store.size := by
      cases owned with
      | list paired => exact paired.2
    refine .get ?_
    refine (yields_items simplify coherent known (coherent.owns_items old)).bind
      fun out after grown coherent settled => ?_
    refine .makeList coherent (fun u member => (settled u member).owned) ?_
    have fresh : after.store.size < (after.store.allocate out).size := by
      rw [Store.size_allocate]
      exact Nat.lt_succ_self _
    refine ⟨.list ⟨rfl, fresh⟩, fresh, fun u member => ?_⟩
    rw [Store.items_allocate_self] at member
    exact (settled u member).normal.mono (Nat.le_refl _) (.allocate _ _)
  | wrapped inner =>
    have inside : w.store.Owns inner := by
      cases owned with
      | wrapped inside => exact inside
    refine (simplify coherent known inside).bind fun _ _ _ coherent _ => ?_
    exact (Yields.trace coherent).bind fun _ _ _ _ _ => .throw
  | itemless kind owner => exact .throw
  | unknown kind => exact (Yields.emit coherent).bind fun _ _ _ _ _ => .throw
  | datum d => exact .throw

theorem yields_replacedItems {f : Term → Eval Term} {value : Term} (replace : KeepsNormal lookup depth value f)
    {items : List Term} (coherent : w.store.Coherent) (known : Owned lookup w.store) (given : w.store.Owns value)
    (each : ∀ t ∈ items, w.store.Owns t) :
    Yields w (items.mapM f) fun store out => out.length = items.length ∧ (∀ r ∈ out, store.Owns r) ∧
      ((∀ t ∈ items, Normal lookup w.store depth t) → ∀ r ∈ out, Normal lookup store depth r) := by
  have row : Yields w (items.mapM f) fun store out => List.Forall₂ (fun t r => store.Owns r ∧
      (Normal lookup w.store depth t → Normal lookup store depth r)) items out := by
    refine .mapM ?_ coherent fun after grown coherent t member => ?_
    · rintro t r before after grown ⟨owned, normal⟩
      exact ⟨owned.mono grown.own_le, fun is => (normal is).mono (Nat.le_refl _) grown⟩
    · have given := given.mono grown.own_le
      have owned := (each t member).mono grown.own_le
      refine (replace coherent (known.grow grown) given owned).mono ?_
      rintro store r ⟨owned, normal⟩
      exact ⟨owned, fun is => normal (is.mono (Nat.le_refl _) grown)⟩
  refine row.mono fun store out paired => ?_
  clear each row
  induction paired with
  | nil => simp
  | cons here _ there =>
    refine ⟨congrArg Nat.succ there.1, List.forall_mem_cons.2 ⟨here.1, there.2.1⟩, fun normal => ?_⟩
    rw [List.forall_mem_cons] at normal
    exact List.forall_mem_cons.2 ⟨here.2 normal.1, there.2.2 normal.2⟩

theorem keepsNormal_replaced {f g : Term → Eval Term} {x : Datum} {value : Term}
    (argument : value.isArgument = true) (simplify : Normalizes lookup depth f)
    (replace : KeepsNormal lookup depth value g) :
    KeepsNormal lookup (depth + 1) value (replaced s f x value g) := by
  intro w t coherent known given owned
  have copied : Yields w (Eval.copy value) fun store r => store.Owns r ∧
      (Normal lookup w.store (depth + 1) t → Normal lookup store (depth + 1) r) := by
    refine (Yields.copy argument coherent given).mono ?_
    rintro store r ⟨owned, argument⟩
    exact ⟨owned, fun _ => .ofArgument argument⟩
  cases t with
  | int | bool => exact .make coherent ⟨owned, fun normal => normal⟩
  | name id =>
    have same : Yields w (Eval.make s (.name id)) fun store r => store.Owns r ∧
        (Normal lookup w.store (depth + 1) (.name id) → Normal lookup store (depth + 1) r) :=
      .make coherent ⟨owned, fun normal => normal⟩
    cases x with
    | text name =>
      simp only [replaced]
      split
      · exact copied
      · exact same
    | none | bool | int | list | term => exact same
  | nameless id =>
    simp only [replaced]
    split
    · exact copied
    · exact .make coherent ⟨owned, fun normal => normal⟩
  | function parameter body =>
    have inner : w.store.Owns body := by
      cases owned with
      | function _ inner => exact inner
    refine (Yields.look coherent).bind fun y between grown coherent _ => ?_
    refine (replace coherent (known.grow grown) (given.mono grown.own_le) (inner.mono grown.own_le)).bind ?_
    rintro b after - coherent ⟨owned, normal⟩
    refine .make coherent ⟨.function (List.forall_mem_nil _) owned, fun is => ⟨⟨y, rfl⟩, ?_⟩⟩
    exact normal (is.2.mono (Nat.le_refl _) grown)
  | operation lhs op rhs =>
    obtain ⟨left, fits, right⟩ : w.store.Owns lhs ∧ w.store.own.data op.sign ∧ w.store.Owns rhs := by
      cases owned with
      | operation left fits right => exact ⟨left, fits, right⟩
    refine (replace coherent known given left).bind ?_
    rintro l between grown coherent ⟨ownedLeft, -⟩
    refine (replace coherent (known.grow grown) (given.mono grown.own_le) (right.mono grown.own_le)).bind ?_
    rintro r after later coherent ⟨ownedRight, -⟩
    refine .make coherent ⟨.operation (ownedLeft.mono later.own_le) ?_ ownedRight, False.elim⟩
    exact (grown.trans later).own_le.data _ fits
  | conditional condition yes no =>
    obtain ⟨decides, first, second⟩ : w.store.Owns condition ∧ w.store.Owns yes ∧ w.store.Owns no := by
      cases owned with
      | conditional decides first second => exact ⟨decides, first, second⟩
    refine (replace coherent known given decides).bind ?_
    rintro c one grown coherent ⟨ownedCondition, -⟩
    have known := known.grow grown
    refine (simplify coherent known ownedCondition).bind fun c two later coherent settled => ?_
    have known := known.grow later
    have wider := (grown.trans later).own_le
    have given := given.mono wider
    have chosen {clause : Term} (owned : w.store.Owns clause) :
        Yields two (do let t ← g clause; f t) fun store r => store.Owns r ∧
          (Normal lookup w.store (depth + 1) (.conditional condition yes no) →
            Normal lookup store (depth + 1) r) := by
      refine (replace coherent known given (owned.mono wider)).bind ?_
      rintro t three grown coherent ⟨owned, -⟩
      refine (simplify coherent (known.grow grown) owned).mono fun store r settled => ⟨settled.owned, fun _ => ?_⟩
      exact settled.normal.mono (Nat.le_succ _) (.refl _)
    have undecided (different : ∀ d, c ≠ .bool d) :
        Yields two (do let y ← g yes; let n ← g no; Eval.make s (.conditional c y n)) fun store r =>
          store.Owns r ∧ (Normal lookup w.store (depth + 1) (.conditional condition yes no) →
            Normal lookup store (depth + 1) r) := by
      refine (replace coherent known given (first.mono wider)).bind ?_
      rintro y three grown coherent ⟨ownedYes, -⟩
      have second := (second.mono wider).mono grown.own_le
      refine (replace coherent (known.grow grown) (given.mono grown.own_le) second).bind ?_
      rintro n four later coherent ⟨ownedNo, -⟩
      have settled := settled.mono (Nat.le_refl _) (grown.trans later)
      refine .make coherent ⟨.conditional settled.owned (ownedYes.mono later.own_le) ownedNo, fun _ => ?_⟩
      exact ⟨settled.normal, different⟩
    cases c with
    | bool v =>
      cases truth : v.truth with
      | true =>
        simp only [truth, if_pos]
        exact chosen first
      | false =>
        simp only [truth, Bool.false_eq_true, if_false]
        exact chosen second
    | int | string | name | nameless | function | operation | conditional | chain | list | wrapped | itemless
    | unknown | datum => exact undecided (by simp)
  | chain items =>
    refine (yields_replacedItems replace coherent known given (Store.Owns.items owned)).bind ?_
    rintro out after - coherent ⟨length, owned, normal⟩
    refine .make coherent ⟨.chain (List.forall₂_same.2 owned), fun is => ⟨?_, normal is.2⟩⟩
    rw [length]
    exact is.1
  | list cell =>
    have old : cell < w.store.size := by
      cases owned with
      | list paired => exact paired.2
    refine .get ?_
    refine (yields_replacedItems replace coherent known given (coherent.owns_items old)).bind ?_
    rintro out after grown coherent ⟨-, owned, normal⟩
    have fresh : after.store.size < (after.store.allocate out).size := by
      rw [Store.size_allocate]
      exact Nat.lt_succ_self _
    refine .makeList coherent owned ⟨.list ⟨rfl, fresh⟩, fun is => ⟨fresh, fun u member => ?_⟩⟩
    rw [Store.items_allocate_self] at member
    exact (normal is.2 u member).mono (Nat.le_refl _) (.allocate _ _)
  | wrapped inner => exact .throw
  | itemless kind owner => exact .throw
  | string | unknown | datum =>
    refine (Yields.emit coherent).bind fun _ _ _ coherent _ => ?_
    split
    · exact (Yields.look coherent).bind fun _ _ _ _ _ => .throw
    · exact .throw

theorem yields_traceReplacement {x : Datum} {value before changed : Term} (coherent : w.store.Coherent) :
    Yields w (traceReplacement s x value before changed) fun _ _ => True := by
  unfold traceReplacement
  split
  · refine (Yields.look coherent).bind fun differs _ _ coherent _ => ?_
    split
    · exact (Yields.trace coherent).mono fun _ _ _ => trivial
    · exact .pure coherent trivial
  · exact .pure coherent trivial

/-- What simplification gives is in normal form and nests at most as deeply as it went, and to replace a name by an
argument keeps a term in normal form. -/
theorem normalizes_simplify_replace (s : Settings) (lookup : Lookup) (depth : Nat) :
    Normalizes lookup depth (simplify s lookup depth) ∧
      ∀ x value, value.isArgument = true → KeepsNormal lookup depth value (replace s lookup depth x value) := by
  induction depth with
  | zero => exact ⟨fun _ _ _ => .throw, fun _ _ _ _ _ _ _ _ _ => .throw⟩
  | succ depth ih =>
    constructor
    · intro w t coherent known owned
      cases t with
      | datum d => exact .throw
      | int | bool | string | name | nameless | function | operation | conditional | chain | list | wrapped
      | itemless | unknown =>
        refine (Yields.trace coherent).bind fun _ between grown coherent _ => ?_
        refine (normalizes_simplified ih.1 ih.2 coherent (known.grow grown) (owned.mono grown.own_le)).bind
          fun r after _ coherent settled => ?_
        refine (Yields.trace coherent).bind fun _ last later coherent _ => .pure coherent ?_
        exact settled.mono (Nat.le_refl _) later
    · intro x value argument w t coherent known given owned
      cases t with
      | datum d => exact .throw
      | int | bool | string | name | nameless | function | operation | conditional | chain | list | wrapped
      | itemless | unknown =>
        refine (keepsNormal_replaced argument ih.1 (ih.2 x value argument) coherent known given owned).bind ?_
        rintro r after - coherent ⟨owned, normal⟩
        refine (yields_traceReplacement coherent).bind fun _ last later coherent _ => .pure coherent ?_
        exact ⟨owned.mono later.own_le, fun is => (normal is).mono (Nat.le_refl _) later⟩

end Simplify

end DotLambda
