import DotLambda.Proofs.Relevance
import DotLambda.Proofs.Termination
import DotLambda.Proofs.Equations
import DotLambda.Token.Segment
import Mathlib.Data.List.Basic

/-!
What a dump tells. In the dumped form every part stands with its kind, and where a part ends can be told from what
it begins with, whatever follows. Main statement: two finite terms, each with the store of its lists, have the same
dumped form exactly if they are equal in structure.
-/

namespace DotLambda

/-! ## Terms as lines make them -/

/-- Whether a text is written like a name. -/
def Text.isName (s : String) : Bool :=
  match s.toList with
  | [] => false
  | c :: rest => Segment.startsWord c && rest.all Segment.continuesWord

/-- Whether a term is of a kind that has a dumped form of its own and holds what its kind says, its parts aside:
numbers are not too long, strings have no quote inside, names and parameters are written like names, and operators
are known. -/
def Term.isRegular : Term → Bool
  | .int (.int n) => n.natAbs < Text.Decimal.bound
  | .string (.text s) => !s.toList.contains '\x22'
  | .name id | .function (.text id) _ => Text.isName id
  | .operation _ op _ => op.isKnown
  | .bool (.bool _) | .conditional _ _ _ | .chain _ | .list _ => true
  | _ => false

theorem Term.isRegular_int (n : Int) : (Term.int (.int n)).isRegular = decide (n.natAbs < Text.Decimal.bound) := rfl

theorem Text.notMem_of_isName {s : String} (named : isName s = true) {c : Char}
    (other : Segment.continuesWord c = false) : c ∉ s.toList := by
  unfold isName at named
  split at named
  · simp_all
  · rename_i first rest parts
    rw [Bool.and_eq_true] at named
    rw [parts, List.mem_cons, not_or]
    refine ⟨?_, fun member => ?_⟩
    · rintro rfl
      simp [Segment.continuesWord_of_startsWord named.1] at other
    · simp [List.all_eq_true.1 named.2 c member] at other

theorem Text.Decimal.digits_inj {m n : Int} (same : digits m = digits n) : m = n := by
  have value {k l : Nat} (same : k.repr.toList = l.repr.toList) : k = l := by
    rw [Nat.toList_repr, Nat.toList_repr] at same
    rw [← Nat.ofDigitChars_ten_toDigits (n := k), same, Nat.ofDigitChars_ten_toDigits]
  have unsigned {k l : Nat} : k.repr.toList ≠ '-' :: l.repr.toList := by
    intro same
    have minus : '-' ∈ Nat.toDigits 10 k := by
      rw [← Nat.toList_repr, same]
      exact List.mem_cons_self
    exact absurd (Nat.isDigit_of_mem_toDigits (by decide) (by decide) minus) (by decide)
  have chars := congrArg String.toList same
  cases m with
  | ofNat m =>
    cases n with
    | ofNat n => exact congrArg Int.ofNat (value chars)
    | negSucc n =>
      rw [digits, digits, String.toList_append] at chars
      exact absurd chars unsigned
  | negSucc m =>
    rw [digits, String.toList_append] at chars
    cases n with
    | ofNat n => exact absurd chars.symm unsigned
    | negSucc n =>
      rw [digits, String.toList_append] at chars
      exact congrArg Int.negSucc (Nat.succ.inj (value (List.append_cancel_left chars)))

/-! ## The dumped form -/

namespace Dump

/-- The dumped form of a part of a kind. -/
def node (kind : String) (payload : List Char) : List Char :=
  'V' :: 'a' :: 'l' :: 'u' :: 'e' :: '(' :: (kind.toList ++ ',' :: ' ' :: (payload ++ [')']))

/-- Texts with commas between them. -/
def joined : List (List Char) → List Char
  | [] => []
  | first :: rest => first ++ rest.flatMap fun text => ',' :: ' ' :: text

/-- The dumped form of a regular term. -/
inductive Writes (store : Store) : Term → List Char → Prop where
  | int {n : Int} (short : n.natAbs < Text.Decimal.bound) :
      Writes store (.int (.int n)) (node "int" (Text.Decimal.digits n).toList)
  | bool {b : Bool} : Writes store (.bool (.bool b)) (node "bool" (if b then "True" else "False").toList)
  | string {s : String} (inside : '\x22' ∉ s.toList) :
      Writes store (.string (.text s)) (node "string" ('\x22' :: (s.toList ++ ['\x22'])))
  | name {id : String} (named : Text.isName id = true) : Writes store (.name id) (node "id" id.toList)
  | function {x : String} {body : Term} {inner : List Char} (named : Text.isName x = true)
      (writes : Writes store body inner) :
      Writes store (.function (.text x) body) (node "function" (x.toList ++ ',' :: ' ' :: inner))
  | operation {op : Operator} {lhs rhs : Term} {left right : List Char} (known : op.isKnown = true)
      (first : Writes store lhs left) (second : Writes store rhs right) :
      Writes store (.operation lhs op rhs)
        (node "operation" (left ++ ',' :: ' ' :: (op.symbol.toList ++ ',' :: ' ' :: right)))
  | conditional {condition yes no : Term} {decided first second : List Char} (decides : Writes store condition decided)
      (writes : Writes store yes first) (otherwise : Writes store no second) :
      Writes store (.conditional condition yes no)
        (node "conditional" (decided ++ ',' :: ' ' :: (first ++ ',' :: ' ' :: second)))
  | chain {items : List Term} {text : Term → List Char} (each : ∀ t ∈ items, Writes store t (text t)) :
      Writes store (.chain items) (node "expr_list" ('[' :: (joined (items.map text) ++ [']'])))
  | list {cell : Nat} {text : Term → List Char} (inside : cell < store.size)
      (each : ∀ t ∈ store.items cell, Writes store t (text t)) :
      Writes store (.list cell) ('[' :: ' ' :: (joined ((store.items cell).map text) ++ [' ', ']']))

theorem intercalate_eq_joined (texts : List (List Char)) : [',', ' '].intercalate texts = joined texts := by
  cases texts with
  | nil => rfl
  | cons first rest =>
    induction rest generalizing first with
    | nil => simp [joined]
    | cons second rest ih =>
      rw [List.intercalate_cons_cons, ih]
      simp [joined]

variable {store store' : Store} {t t' : Term} {cs cs' rest rest' : List Char}

theorem mapM_eq {f : Term → Except Error String} {items : List Term} {text : Term → List Char}
    (each : ∀ t ∈ items, f t = .ok (String.ofList (text t))) :
    items.mapM f = .ok ((items.map text).map String.ofList) := by
  induction items with
  | nil => rfl
  | cons t rest ih =>
    rw [List.forall_mem_cons] at each
    rw [List.mapM_cons, each.1, ih each.2]
    rfl

/-- A regular term that nests to a height has a dumped form, which is found to that depth. -/
theorem exists_writes {height : Nat} (nests : Nests [] store height t)
    (regular : ∀ u, store.Leads t u → u.isRegular = true) :
    ∃ cs, Writes store t cs ∧ ∀ depth, height ≤ depth → t.dumped store depth = .ok (String.ofList cs) := by
  induction height generalizing t with
  | zero => exact nests.elim
  | succ height ih =>
    have here := regular t (.self t)
    have part {u : Term} (member : u ∈ store.parts t) (nests : Nests [] store height u) :=
      ih nests fun v leads => regular v (.part member leads)
    suffices found : ∃ cs, Writes store t cs ∧ ∀ depth, height ≤ depth →
        t.dumped store (depth + 1) = .ok (String.ofList cs) by
      obtain ⟨cs, writes, shown⟩ := found
      refine ⟨cs, writes, fun depth deep => ?_⟩
      obtain ⟨more, rfl⟩ := Nat.exists_eq_add_of_le' deep
      exact shown _ (Nat.le_add_left _ _)
    cases t with
    | int d =>
      cases d with
      | int n =>
        rw [Term.isRegular_int, decide_eq_true_eq] at here
        refine ⟨_, .int here, fun depth deep => ?_⟩
        simp only [Term.dumped, Datum.plain, Datum.quoted, Datum.decimal_eq here]
        exact congrArg Except.ok (String.toList_inj.1 (by simp [node]))
      | _ => cases here
    | bool d =>
      cases d with
      | bool b => exact ⟨_, .bool, fun depth deep => congrArg Except.ok (String.toList_inj.1 (by simp [node]))⟩
      | _ => cases here
    | string d =>
      cases d with
      | text s =>
        have inside : '\x22' ∉ s.toList := by simpa [Term.isRegular] using here
        exact ⟨_, .string inside, fun depth deep =>
          congrArg Except.ok (String.toList_inj.1 (by simp [node, Term.inQuotes]))⟩
      | _ => cases here
    | name id => exact ⟨_, .name here, fun depth deep => congrArg Except.ok (String.toList_inj.1 (by simp [node]))⟩
    | function d body =>
      cases d with
      | text x =>
        obtain ⟨inner, writes, shown⟩ := part List.mem_cons_self nests.2
        refine ⟨_, .function here writes, fun depth deep => ?_⟩
        simp only [Term.dumped, shown depth deep]
        exact congrArg Except.ok (String.toList_inj.1 (by simp [node]))
      | _ => cases here
    | operation lhs op rhs =>
      obtain ⟨left, first, shownLeft⟩ := part List.mem_cons_self nests.1
      obtain ⟨right, second, shownRight⟩ := part (List.mem_cons_of_mem _ List.mem_cons_self) nests.2.2
      refine ⟨_, .operation here first second, fun depth deep => ?_⟩
      simp only [Term.dumped, shownLeft depth deep, shownRight depth deep, Operator.sign_of_isKnown here]
      exact congrArg Except.ok (String.toList_inj.1 (by simp [node]))
    | conditional condition yes no =>
      obtain ⟨decided, decides, shownCondition⟩ := part List.mem_cons_self nests.1
      obtain ⟨first, writes, shownYes⟩ := part (List.mem_cons_of_mem _ List.mem_cons_self) nests.2.1
      obtain ⟨second, otherwise, shownNo⟩ :=
        part (List.mem_cons_of_mem _ (List.mem_cons_of_mem _ List.mem_cons_self)) nests.2.2
      refine ⟨_, .conditional decides writes otherwise, fun depth deep => ?_⟩
      simp only [Term.dumped, shownCondition depth deep, shownYes depth deep, shownNo depth deep]
      exact congrArg Except.ok (String.toList_inj.1 (by simp [node]))
    | chain items =>
      have each (t : Term) (member : t ∈ items) := part member (nests t member)
      choose! text found using each
      refine ⟨_, .chain fun t member => (found t member).1, fun depth deep => ?_⟩
      simp only [Term.dumped, mapM_eq fun t member => (found t member).2 depth deep]
      exact congrArg Except.ok (String.toList_inj.1 (by simp [node, intercalate_eq_joined, Function.comp_def]))
    | list cell =>
      have each (t : Term) (member : t ∈ store.items cell) := part member (nests.2 t member)
      choose! text found using each
      refine ⟨_, .list nests.1 fun t member => (found t member).1, fun depth deep => ?_⟩
      simp only [Term.dumped, mapM_eq fun t member => (found t member).2 depth deep]
      exact congrArg Except.ok (String.toList_inj.1 (by simp [intercalate_eq_joined, Function.comp_def]))
    | nameless | wrapped | itemless | unknown | datum => cases here

/-! ## Reading the dumped form -/

/-- A text up to a mark that does not stand in it. -/
theorem append_mark_inj {mark : Char} {front front' : List Char} (free : mark ∉ front) (free' : mark ∉ front')
    (same : front ++ mark :: rest = front' ++ mark :: rest') : front = front' ∧ rest = rest' := by
  induction front generalizing front' with
  | nil =>
    cases front' with
    | nil => exact ⟨rfl, (List.cons.inj same).2⟩
    | cons c more' => exact absurd ((List.cons.inj same).1 ▸ List.mem_cons_self) free'
  | cons c more ih =>
    cases front' with
    | nil => exact absurd ((List.cons.inj same).1 ▸ List.mem_cons_self) free
    | cons c' more' =>
      obtain ⟨rfl, later⟩ := List.cons.inj same
      rw [List.mem_cons, not_or] at free free'
      obtain ⟨rfl, ends⟩ := ih free.2 free'.2 later
      exact ⟨rfl, ends⟩

/-- What the dumped form of a term begins with: a bracket if it is a list, and else its kind. -/
theorem Writes.opens (writes : Writes store t cs) :
    (t.kind = "list" ∧ ∃ more, cs = '[' :: more) ∨ ',' ∉ t.kind.toList ∧ ∃ payload, cs = node t.kind payload := by
  cases writes with
  | list => exact .inl ⟨rfl, _, rfl⟩
  | _ => exact .inr ⟨by simp [Term.kind], _, rfl⟩

theorem Writes.exists_cons (writes : Writes store t cs) : ∃ c more, cs = c :: more ∧ (c = 'V' ∨ c = '[') := by
  rcases writes.opens with ⟨-, more, rfl⟩ | ⟨-, payload, rfl⟩
  · exact ⟨_, _, rfl, .inr rfl⟩
  · exact ⟨_, _, rfl, .inl rfl⟩

/-- Terms whose dumped forms begin alike are of the same kind. -/
theorem Writes.kind_eq (writes : Writes store t cs) (writes' : Writes store' t' cs')
    (same : cs ++ rest = cs' ++ rest') : t.kind = t'.kind := by
  rcases writes.opens with ⟨kind, more, rfl⟩ | ⟨plain, payload, rfl⟩
  · rcases writes'.opens with ⟨kind', -⟩ | ⟨-, payload', rfl⟩
    · rw [kind, kind']
    · cases same
  · rcases writes'.opens with ⟨-, more', rfl⟩ | ⟨plain', payload', rfl⟩
    · cases same
    · simp only [node, List.append_assoc, List.cons_append, List.cons.injEq, true_and] at same
      exact String.toList_inj.1 (append_mark_inj plain plain' same).1

/-- What follows the kind of a part, up to its end and on. -/
theorem node_append_inj {kind : String} {payload payload' : List Char}
    (same : node kind payload ++ rest = node kind payload' ++ rest') :
    payload ++ ')' :: rest = payload' ++ ')' :: rest' := by
  simpa only [node, List.append_assoc, List.append_cancel_left_eq, List.cons_append, List.nil_append, List.cons.injEq,
    true_and] using same

/-- The dumped form of a term shows its structure and where it ends. -/
def Shows (store store' : Store) (t : Term) (cs : List Char) : Prop :=
  ∀ {t' : Term} {cs' rest rest' : List Char}, Writes store' t' cs' → cs ++ rest = cs' ++ rest' →
    store.Equal store' t t' ∧ rest = rest'

variable {items items' : List Term} {text text' : Term → List Char} {stop : Char}

/-- Dumped forms, each after a comma, show the structure of their terms, and where there are no more of them. -/
theorem flatMap_shows (each : ∀ t ∈ items, Shows store store' t (text t))
    (each' : ∀ t ∈ items', Writes store' t (text' t)) (other : stop ≠ ',')
    (same : (items.map text).flatMap (fun cs => ',' :: ' ' :: cs) ++ stop :: rest =
      (items'.map text').flatMap (fun cs => ',' :: ' ' :: cs) ++ stop :: rest') :
    List.Forall₂ (store.Equal store') items items' ∧ rest = rest' := by
  induction items generalizing items' with
  | nil =>
    cases items' with
    | nil => exact ⟨.nil, (List.cons.inj same).2⟩
    | cons t' others' => exact absurd (List.cons.inj same).1 other
  | cons t others ih =>
    cases items' with
    | nil => exact absurd (List.cons.inj same).1.symm other
    | cons t' others' =>
      rw [List.forall_mem_cons] at each each'
      simp only [List.map_cons, List.flatMap_cons, List.cons_append, List.append_assoc, List.cons.injEq,
        true_and] at same
      obtain ⟨first, same⟩ := each.1 each'.1 same
      obtain ⟨rest, ends⟩ := ih each.2 each'.2 same
      exact ⟨.cons first rest, ends⟩

/-- So do dumped forms with commas between them. -/
theorem joined_shows (known : ∀ t ∈ items, Writes store t (text t)) (each : ∀ t ∈ items, Shows store store' t (text t))
    (each' : ∀ t ∈ items', Writes store' t (text' t)) (other : stop ∉ [',', 'V', '['])
    (same : joined (items.map text) ++ stop :: rest = joined (items'.map text') ++ stop :: rest') :
    List.Forall₂ (store.Equal store') items items' ∧ rest = rest' := by
  simp only [List.mem_cons, List.not_mem_nil, or_false, not_or] at other
  cases items with
  | nil =>
    cases items' with
    | nil => exact ⟨.nil, (List.cons.inj same).2⟩
    | cons t' others' =>
      obtain ⟨c, more, begins, opens⟩ := (each' t' List.mem_cons_self).exists_cons
      rw [List.map_cons, joined, begins] at same
      obtain ⟨rfl, -⟩ := List.cons.inj same
      exact (opens.elim other.2.1 other.2.2).elim
  | cons t others =>
    cases items' with
    | nil =>
      obtain ⟨c, more, begins, opens⟩ := (known t List.mem_cons_self).exists_cons
      rw [List.map_cons, joined, begins] at same
      obtain ⟨rfl, -⟩ := List.cons.inj same
      exact (opens.elim other.2.1 other.2.2).elim
    | cons t' others' =>
      rw [List.forall_mem_cons] at each each'
      simp only [List.map_cons, joined, List.append_assoc] at same
      obtain ⟨first, same⟩ := each.1 each'.1 same
      obtain ⟨rest, ends⟩ := flatMap_shows each.2 each'.2 other.1 same
      exact ⟨.cons first rest, ends⟩

/-- Terms whose parts are equal in structure, and that are alike otherwise. -/
theorem equal_of_alike (alike : Term.Alike (.widest store store') t t') : store.Equal store' t t' :=
  ⟨_, Likeness.widest_relates store store', alike⟩

theorem equal_list {cell cell' : Nat} (here : cell < store.size) (there : cell' < store'.size)
    (each : List.Forall₂ (store.Equal store') (store.items cell) (store'.items cell')) :
    store.Equal store' (.list cell) (.list cell') :=
  ⟨_, (Likeness.widest_relates store store').join here there (each.imp fun _ _ equal => equal.alike),
    .list (.inr ⟨rfl, rfl⟩)⟩

/-! ### Part by part

The other term is of the same kind, and so of the same form. -/

theorem shows_int {n : Int} (short : n.natAbs < Text.Decimal.bound) :
    Shows store store' (.int (.int n)) (node "int" (Text.Decimal.digits n).toList) := by
  intro t' cs' rest rest' writes' same
  have kinds := (@Writes.int store _ short).kind_eq writes' same
  cases writes' with
  | int short' =>
    have free {n : Int} : ')' ∉ (Text.Decimal.digits n).toList := fun member =>
      absurd (Text.Decimal.mem_digits member) (by decide)
    obtain ⟨digits, ends⟩ := append_mark_inj free free (node_append_inj same)
    rw [Text.Decimal.digits_inj (String.toList_inj.1 digits)]
    exact ⟨equal_of_alike (.int (Likeness.widest_data_of_plain rfl)), ends⟩
  | _ => simp [Term.kind] at kinds

theorem shows_bool {b : Bool} :
    Shows store store' (.bool (.bool b)) (node "bool" (if b then "True" else "False").toList) := by
  intro t' cs' rest rest' writes' same
  have kinds := (@Writes.bool store _).kind_eq writes' same
  cases writes' with
  | @bool b' =>
    have free {b : Bool} : ')' ∉ (if b then "True" else "False").toList := by cases b <;> decide
    obtain ⟨word, ends⟩ := append_mark_inj free free (node_append_inj same)
    have truth : b = b' := by cases b <;> cases b' <;> first | rfl | exact absurd word (by decide)
    rw [truth]
    exact ⟨equal_of_alike (.bool (Likeness.widest_data_of_plain rfl)), ends⟩
  | _ => simp [Term.kind] at kinds

/-- What stands between the quotes may look like another part, but it ends at the first quote. -/
theorem shows_string {s : String} (inside : '\x22' ∉ s.toList) :
    Shows store store' (.string (.text s)) (node "string" ('\x22' :: (s.toList ++ ['\x22']))) := by
  intro t' cs' rest rest' writes' same
  have kinds := (@Writes.string store _ inside).kind_eq writes' same
  cases writes' with
  | string inside' =>
    have quoted := node_append_inj same
    simp only [List.cons_append, List.append_assoc, List.cons.injEq, true_and] at quoted
    obtain ⟨chars, ends⟩ := append_mark_inj inside inside' quoted
    rw [String.toList_inj.1 chars]
    exact ⟨equal_of_alike (.string (Likeness.widest_data_of_plain rfl)), (List.cons.inj ends).2⟩
  | _ => simp [Term.kind] at kinds

theorem shows_name {id : String} (named : Text.isName id = true) :
    Shows store store' (.name id) (node "id" id.toList) := by
  intro t' cs' rest rest' writes' same
  have kinds := (@Writes.name store _ named).kind_eq writes' same
  cases writes' with
  | name named' =>
    have free {id : String} (named : Text.isName id = true) := Text.notMem_of_isName (c := ')') named (by decide)
    obtain ⟨chars, ends⟩ := append_mark_inj (free named) (free named') (node_append_inj same)
    rw [String.toList_inj.1 chars]
    exact ⟨equal_of_alike (.name trivial), ends⟩
  | _ => simp [Term.kind] at kinds

theorem shows_function {x : String} {body : Term} {inner : List Char} (named : Text.isName x = true)
    (writes : Writes store body inner) (showsBody : Shows store store' body inner) :
    Shows store store' (.function (.text x) body) (node "function" (x.toList ++ ',' :: ' ' :: inner)) := by
  intro t' cs' rest rest' writes' same
  have kinds := (Writes.function named writes).kind_eq writes' same
  cases writes' with
  | function named' writes' =>
    have parts := node_append_inj same
    simp only [List.append_assoc, List.cons_append] at parts
    have free {id : String} (named : Text.isName id = true) := Text.notMem_of_isName (c := ',') named (by decide)
    obtain ⟨chars, later⟩ := append_mark_inj (free named) (free named') parts
    rw [String.toList_inj.1 chars]
    obtain ⟨equal, ends⟩ := showsBody writes' (List.cons.inj later).2
    exact ⟨equal_of_alike (.function (Likeness.widest_data_of_plain rfl) equal.alike), (List.cons.inj ends).2⟩
  | _ => simp [Term.kind] at kinds

theorem symbol_inj {op op' : Operator} (known : op.isKnown = true) (known' : op'.isKnown = true)
    (same : op.symbol = op'.symbol) : op = op' := by
  cases op with
  | other => cases known
  | _ =>
    cases op' with
    | other => cases known'
    | _ => first | rfl | exact absurd same (by decide)

theorem shows_operation {op : Operator} {lhs rhs : Term} {left right : List Char} (known : op.isKnown = true)
    (first : Writes store lhs left) (second : Writes store rhs right) (showsLeft : Shows store store' lhs left)
    (showsRight : Shows store store' rhs right) :
    Shows store store' (.operation lhs op rhs)
      (node "operation" (left ++ ',' :: ' ' :: (op.symbol.toList ++ ',' :: ' ' :: right))) := by
  intro t' cs' rest rest' writes' same
  have kinds := (Writes.operation known first second).kind_eq writes' same
  cases writes' with
  | @operation op' _ _ _ _ known' first' second' =>
    have parts := node_append_inj same
    simp only [List.append_assoc, List.cons_append] at parts
    obtain ⟨equalLeft, parts⟩ := showsLeft first' parts
    have free {op : Operator} (known : op.isKnown = true) : ',' ∉ op.symbol.toList := by
      cases op with
      | other => cases known
      | _ => decide
    obtain ⟨chars, parts⟩ := append_mark_inj (free known) (free known') (List.cons.inj (List.cons.inj parts).2).2
    obtain ⟨equalRight, parts⟩ := showsRight second' (List.cons.inj parts).2
    rw [← symbol_inj known known' (String.toList_inj.1 chars)]
    have plain : op.sign.references = [] := by rw [Operator.sign_of_isKnown known]; rfl
    exact ⟨equal_of_alike (.operation equalLeft.alike (Likeness.widest_data_of_plain plain) equalRight.alike),
      (List.cons.inj parts).2⟩
  | _ => simp [Term.kind] at kinds

theorem shows_conditional {condition yes no : Term} {decided first second : List Char}
    (decides : Writes store condition decided) (writes : Writes store yes first) (otherwise : Writes store no second)
    (showsCondition : Shows store store' condition decided) (showsYes : Shows store store' yes first)
    (showsNo : Shows store store' no second) :
    Shows store store' (.conditional condition yes no)
      (node "conditional" (decided ++ ',' :: ' ' :: (first ++ ',' :: ' ' :: second))) := by
  intro t' cs' rest rest' writes' same
  have kinds := (Writes.conditional decides writes otherwise).kind_eq writes' same
  cases writes' with
  | conditional decides' writes' otherwise' =>
    have parts := node_append_inj same
    simp only [List.append_assoc, List.cons_append] at parts
    obtain ⟨equalCondition, parts⟩ := showsCondition decides' parts
    obtain ⟨equalYes, parts⟩ := showsYes writes' (List.cons.inj (List.cons.inj parts).2).2
    obtain ⟨equalNo, parts⟩ := showsNo otherwise' (List.cons.inj (List.cons.inj parts).2).2
    exact ⟨equal_of_alike (.conditional equalCondition.alike equalYes.alike equalNo.alike), (List.cons.inj parts).2⟩
  | _ => simp [Term.kind] at kinds

theorem shows_chain (known : ∀ t ∈ items, Writes store t (text t))
    (each : ∀ t ∈ items, Shows store store' t (text t)) :
    Shows store store' (.chain items) (node "expr_list" ('[' :: (joined (items.map text) ++ [']']))) := by
  intro t' cs' rest rest' writes' same
  have kinds := (Writes.chain known).kind_eq writes' same
  cases writes' with
  | chain each' =>
    have parts := node_append_inj same
    simp only [List.append_assoc, List.cons_append, List.cons.injEq, true_and] at parts
    obtain ⟨equal, parts⟩ := joined_shows known each each' (by decide) parts
    exact ⟨equal_of_alike (.chain (equal.imp fun _ _ equal => equal.alike)), (List.cons.inj parts).2⟩
  | _ => simp [Term.kind] at kinds

theorem shows_list {cell : Nat} (inside : cell < store.size) (known : ∀ t ∈ store.items cell, Writes store t (text t))
    (each : ∀ t ∈ store.items cell, Shows store store' t (text t)) :
    Shows store store' (.list cell) ('[' :: ' ' :: (joined ((store.items cell).map text) ++ [' ', ']'])) := by
  intro t' cs' rest rest' writes' same
  have kinds := (Writes.list inside known).kind_eq writes' same
  cases writes' with
  | list inside' each' =>
    simp only [List.append_assoc, List.cons_append, List.cons.injEq, true_and] at same
    obtain ⟨equal, parts⟩ := joined_shows known each each' (by decide) same
    exact ⟨equal_list inside inside' equal, (List.cons.inj parts).2⟩
  | _ => simp [Term.kind] at kinds

/-- The dumped form of every regular term shows its structure, whatever follows. -/
theorem Writes.shows (writes : Writes store t cs) : Shows store store' t cs := by
  induction writes with
  | int short => exact shows_int short
  | bool => exact shows_bool
  | string inside => exact shows_string inside
  | name named => exact shows_name named
  | function named writes ih => exact shows_function named writes ih
  | operation known first second left right => exact shows_operation known first second left right
  | conditional decides writes otherwise condition yes no =>
    exact shows_conditional decides writes otherwise condition yes no
  | chain known each => exact shows_chain known each
  | list inside known each => exact shows_list inside known each

end Dump

/-- A finite term of which every part is regular has a dumped form, which is the same wherever it is found. -/
theorem exists_dump {store : Store} {t : Term} (finite : store.Finite t)
    (regular : ∀ u, store.Leads t u → u.isRegular = true) :
    ∃ cs enough, Dump.Writes store t cs ∧
      (∀ depth, enough ≤ depth → t.dumped store depth = .ok (String.ofList cs)) ∧
      ∀ depth shown, t.dumped store depth = .ok shown → shown = String.ofList cs := by
  obtain ⟨height, nests⟩ : ∃ height, Nests [] store height t :=
    Nests.exists_of_finite finite fun _ _ _ found => by cases found
  obtain ⟨cs, writes, found⟩ := Dump.exists_writes nests regular
  refine ⟨cs, height, writes, found, fun depth shown is => ?_⟩
  have more := (t.texts_near store (Nat.le_add_right depth height)).2.eq_of_ok is
  rw [found _ (Nat.le_add_left _ _)] at more
  exact (Except.ok.inj more).symm

/-- Finite terms of which every part is regular have dumped forms, if these are looked for deeply enough, and the
forms are the same exactly if the terms are equal in structure. -/
theorem dumped_eq_iff_equal {store store' : Store} {t t' : Term} (finite : store.Finite t) (finite' : store'.Finite t')
    (regular : ∀ u, store.Leads t u → u.isRegular = true) (regular' : ∀ u, store'.Leads t' u → u.isRegular = true) :
    (∃ enough, ∀ depth, enough ≤ depth →
      (∃ shown, t.dumped store depth = .ok shown) ∧ ∃ shown', t'.dumped store' depth = .ok shown') ∧
    ∀ depth depth' shown shown', t.dumped store depth = .ok shown → t'.dumped store' depth' = .ok shown' →
      (shown = shown' ↔ store.Equal store' t t') := by
  obtain ⟨cs, enough, writes, found, only⟩ := exists_dump finite regular
  obtain ⟨cs', enough', writes', found', only'⟩ := exists_dump finite' regular'
  refine ⟨⟨enough + enough', fun depth deep => ?_⟩, fun depth depth' shown shown' is is' => ?_⟩
  · exact ⟨⟨_, found depth (by omega)⟩, ⟨_, found' depth (by omega)⟩⟩
  · rw [only depth shown is, only' depth' shown' is']
    constructor
    · intro same
      have chars : cs ++ [] = cs' ++ [] := by rw [String.ofList_injective same]
      exact (writes.shows writes' chars).1
    · rintro ⟨l, relates, alike⟩
      have texts := (alike.texts_eq relates (enough + enough')).2
      rw [found _ (by omega), found' _ (by omega)] at texts
      exact (Except.ok.inj texts).symm

/-- A list in two cells, with a string that looks like two more parts. -/
theorem dumped_eq_iff_equal_of_string :
    let item : Term := .string (.text "a), Value(int, 1")
    let store : Store := ⟨#[[item]], #[]⟩
    let store' : Store := ⟨#[[], [item]], #[]⟩
    store.Finite (.list 0) ∧ store'.Finite (.list 1) ∧ (∀ u, store.Leads (.list 0) u → u.isRegular = true) ∧
      (∀ u, store'.Leads (.list 1) u → u.isRegular = true) ∧
      (Term.list 0).dumped store 2 = .ok "[ Value(string, \x22a), Value(int, 1\x22) ]" ∧
      (Term.list 1).dumped store' 2 = .ok "[ Value(string, \x22a), Value(int, 1\x22) ]" ∧
      store.Equal store' (.list 0) (.list 1) := by
  intro item store store'
  -- the list and the string are all that there is
  have finite {store : Store} {cell : Nat} (inside : cell < store.size) (items : store.items cell = [item]) :
      store.Finite (.list cell) := by
    refine .mk rfl (List.forall_mem_singleton.2 inside) (List.forall_mem_singleton.2 fun u member => ?_)
    rw [items, List.mem_singleton] at member
    rw [member]
    exact .mk rfl (List.forall_mem_nil _) (List.forall_mem_nil _)
  have regular {store : Store} {cell : Nat} (items : store.items cell = [item]) (u : Term)
      (leads : store.Leads (.list cell) u) : u.isRegular = true := by
    cases leads with
    | self => rfl
    | part member onward =>
      rw [Store.parts, items, List.mem_singleton] at member
      rw [member] at onward
      cases onward with
      | self => rfl
      | part member => cases member
      | referred refers => cases refers
    | referred refers => cases refers
  have shown : (Term.list 0).dumped store 2 = .ok "[ Value(string, \x22a), Value(int, 1\x22) ]" := rfl
  have shown' : (Term.list 1).dumped store' 2 = .ok "[ Value(string, \x22a), Value(int, 1\x22) ]" := rfl
  have one : store.Finite (.list 0) := finite (by decide) rfl
  have other : store'.Finite (.list 1) := finite (by decide) rfl
  have told := dumped_eq_iff_equal one other (regular rfl) (regular rfl)
  exact ⟨one, other, regular rfl, regular rfl, shown, shown', (told.2 2 2 _ _ shown shown').1 rfl⟩

end DotLambda
