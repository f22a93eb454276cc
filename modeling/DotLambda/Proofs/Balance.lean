import DotLambda.Proofs.Equations
import DotLambda.Proofs.Honesty
import Mathlib.Data.List.Basic

/-!
Balanced parentheses. The printed form of a term drops its outer two characters as long as they are parentheses,
whether or not the two belong together. What the outline of a text says is enough to tell how this ends: with how
many parentheses the text begins, with how many it ends, and how low the level gets between them. Main statements:
the outline of the printed form of a term is found from those of its parts, and a text is balanced exactly if its
level nowhere gets below zero.
-/

namespace DotLambda

namespace Text

/-! ## Levels -/

/-- By how much the parentheses that open are more than those that close. -/
def level (cs : List Char) : Int := cs.count '(' - cs.count ')'

/-- The level of the front of a text whose level is lowest. -/
def lowest : List Char → Int
  | [] => 0
  | c :: rest => min 0 (level [c] + lowest rest)

/-- No front of a text closes more parentheses than it opens, and the whole closes all that it opens. -/
structure Balanced (text : String) : Prop where
  fronts : ∀ front, front <+: text.toList → front.count ')' ≤ front.count '('
  whole : text.toList.count '(' = text.toList.count ')'

/-- Whether a text has no parenthesis. -/
def isPlain (s : String) : Bool := s.toList.all fun c => c ≠ '(' && c ≠ ')'

/-- Whether a text without parentheses keeps apart what stands before it and after it. -/
def separates (s : String) : Bool := isPlain s && s.toList ≠ []

variable {cs front back : List Char}

theorem level_append (front back : List Char) : level (front ++ back) = level front + level back := by
  simp only [level, List.count_append]
  omega

theorem level_cons (c : Char) (rest : List Char) : level (c :: rest) = level [c] + level rest :=
  level_append [c] rest

theorem level_opening (n : Nat) : level (List.replicate n '(') = n := by
  simp [level, List.count_replicate]

theorem level_closing (n : Nat) : level (List.replicate n ')') = -n := by
  simp [level, List.count_replicate]

theorem lowest_le_zero (cs : List Char) : lowest cs ≤ 0 := by
  cases cs with
  | nil => exact Int.le_refl 0
  | cons c rest => exact Int.min_le_left _ _

theorem lowest_append (front back : List Char) :
    lowest (front ++ back) = min (lowest front) (level front + lowest back) := by
  induction front with
  | nil =>
    have low := lowest_le_zero back
    simp only [List.nil_append, lowest, level, List.count_nil]
    omega
  | cons c rest ih =>
    simp only [List.cons_append, lowest, ih, level_cons c rest]
    omega

theorem lowest_opening (n : Nat) : lowest (List.replicate n '(') = 0 := by
  induction n with
  | zero => rfl
  | succ n ih =>
    rw [List.replicate_succ, lowest, ih]
    decide

theorem lowest_closing (n : Nat) : lowest (List.replicate n ')') = -n := by
  induction n with
  | zero => rfl
  | succ n ih =>
    have one : level [')'] = -1 := rfl
    rw [List.replicate_succ, lowest, ih, one]
    omega

/-- A bound below the lowest level is one below the levels of all fronts. -/
theorem le_lowest_iff {n : Int} : n ≤ lowest cs ↔ ∀ front, front <+: cs → n ≤ level front := by
  induction cs generalizing n with
  | nil => simp [lowest, level]
  | cons c rest ih =>
    rw [lowest, Int.le_min]
    constructor
    · rintro ⟨zero, low⟩ front member
      rcases List.prefix_cons_iff.1 member with rfl | ⟨inner, rfl, onward⟩
      · exact zero
      · have later := ih.1 (Int.sub_left_le_of_le_add low) inner onward
        rw [level_cons]
        omega
    · intro low
      refine ⟨low [] List.nil_prefix, ?_⟩
      have later : n - level [c] ≤ lowest rest := ih.2 fun front member => by
        have whole := low (c :: front) (List.cons_prefix_cons.2 ⟨rfl, member⟩)
        rw [level_cons] at whole
        omega
      omega

theorem balanced_iff {text : String} : Balanced text ↔ 0 ≤ lowest text.toList ∧ level text.toList = 0 := by
  rw [le_lowest_iff]
  constructor
  · intro balanced
    refine ⟨fun front member => ?_, ?_⟩
    · have := balanced.fronts front member
      rw [level]
      omega
    · rw [level, balanced.whole]
      omega
  · rintro ⟨fronts, whole⟩
    refine ⟨fun front member => ?_, ?_⟩
    · have := fronts front member
      rw [level] at this
      omega
    · rw [level] at whole
      omega

instance (text : String) : Decidable (Balanced text) := decidable_of_iff _ balanced_iff.symm

theorem isPlain_iff {s : String} : isPlain s = true ↔ '(' ∉ s.toList ∧ ')' ∉ s.toList := by
  rw [isPlain, List.all_eq_true]
  constructor
  · intro plain
    exact ⟨fun member => by simpa using plain _ member, fun member => by simpa using plain _ member⟩
  · rintro ⟨opening, closing⟩ c member
    rw [Bool.and_eq_true, decide_eq_true_eq, decide_eq_true_eq]
    exact ⟨fun is => opening (is ▸ member), fun is => closing (is ▸ member)⟩

theorem level_of_isPlain {s : String} (plain : isPlain s = true) : level s.toList = 0 := by
  obtain ⟨opening, closing⟩ := isPlain_iff.1 plain
  rw [level, List.count_eq_zero.2 opening, List.count_eq_zero.2 closing]
  rfl

theorem isPlain_append {s u : String} : isPlain (s ++ u) = (isPlain s && isPlain u) := by
  simp [isPlain]

theorem lowest_of_isPlain {s : String} (plain : isPlain s = true) : lowest s.toList = 0 := by
  obtain ⟨opening, closing⟩ := isPlain_iff.1 plain
  have low : 0 ≤ lowest s.toList := le_lowest_iff.2 fun front member => by
    rw [level, List.count_eq_zero.2 fun inside => opening (member.subset inside),
      List.count_eq_zero.2 fun inside => closing (member.subset inside)]
    rfl
  exact Int.le_antisymm (lowest_le_zero _) low

theorem head?_append_ne {c : Char} (first : front.head? ≠ some c) (second : back.head? ≠ some c) :
    (front ++ back).head? ≠ some c := by
  cases front with
  | nil => exact second
  | cons a rest => exact first

theorem getLast?_append_ne {c : Char} (first : front.getLast? ≠ some c) (second : back.getLast? ≠ some c) :
    (front ++ back).getLast? ≠ some c := by
  rw [List.getLast?_append]
  cases last : back.getLast? with
  | none => simpa using first
  | some a => simpa [last] using second

theorem replicate_prefix_iff {c : Char} {rest : List Char} (other : rest.head? ≠ some c) {n k : Nat} :
    List.replicate k c <+: List.replicate n c ++ rest ↔ k ≤ n := by
  induction k generalizing n with
  | zero => simp
  | succ k ih =>
    cases n with
    | zero =>
      cases rest with
      | nil => simp [List.replicate_succ]
      | cons a rest =>
        have differs : c ≠ a := by
          rintro rfl
          exact other rfl
        simp [List.replicate_succ, List.cons_prefix_cons, differs]
    | succ n => simp [List.replicate_succ, List.cons_prefix_cons, ih]

/-! ## Outlines -/

/-- What is known of the parentheses of a text that closes as many as it opens. -/
structure Outline where
  /-- How many parentheses open right at its beginning. -/
  opening : Nat
  /-- How many parentheses close right at its end. -/
  closing : Nat
  /-- The lowest level between these. -/
  floor : Int

namespace Outline

/-- The outline of a text without parentheses. -/
def plain : Outline := ⟨0, 0, 0⟩

/-- The outline of two texts with a text without parentheses between them. -/
def beside (l r : Outline) : Outline := ⟨l.opening, r.closing, min l.floor (min 0 r.floor)⟩

/-- The outline of several texts with a text without parentheses between them. -/
def joined : List Outline → Outline
  | [] => plain
  | [o] => o
  | o :: rest => o.beside (joined rest)

/-- The outline of a text in parentheses. -/
def wrapped (o : Outline) : Outline := ⟨o.opening + 1, o.closing + 1, o.floor + 1⟩

/-- The outline of what is left of a text without some of its outer parentheses. -/
def without (o : Outline) (layers : Nat) : Outline := ⟨o.opening - layers, o.closing - layers, o.floor - layers⟩

/-- The outline of what is left of a text that is peeled as long as a number of parentheses are on both sides. -/
def peeled (o : Outline) (outer : Nat) : Outline := o.without (min o.opening o.closing + 1 - outer)

/-- The outer parentheses that are on both sides belong together: the level between them does not get below their
number. -/
def Paired (o : Outline) : Prop := (min o.opening o.closing : Nat) ≤ o.floor

instance (o : Outline) : Decidable o.Paired := inferInstanceAs (Decidable (_ ≤ _))

variable {o : Outline} {outer : Nat}

theorem Paired.floor_nonneg (paired : o.Paired) : 0 ≤ o.floor := by
  unfold Paired at paired
  omega

/-- Where there are no parentheses on both sides, they belong together. -/
theorem paired_of_opening_or_closing (none : o.opening = 0 ∨ o.closing = 0) (high : 0 ≤ o.floor) : o.Paired := by
  unfold Paired
  omega

theorem paired_plain : plain.Paired := Int.le_refl 0

theorem paired_wrapped : o.wrapped.Paired ↔ o.Paired := by
  simp only [Paired, wrapped]
  omega

theorem paired_peeled (positive : 0 < outer) : (o.peeled outer).Paired ↔ o.Paired := by
  simp only [Paired, peeled, without]
  omega

theorem peeled_eq_self (none : min o.opening o.closing + 1 - outer = 0) :
    o.peeled outer = o := by
  simp [peeled, without, none]

/-- What is between the outer parentheses of a text. -/
structure Encloses (o : Outline) (core : List Char) : Prop where
  head : core.head? ≠ some '('
  last : core.getLast? ≠ some ')'
  level : level core = o.closing - o.opening
  floor : o.opening + lowest core = o.floor

/-- A text has an outline. -/
def Fits (o : Outline) (text : String) : Prop :=
  ∃ core, o.Encloses core ∧
    text.toList = List.replicate o.opening '(' ++ (core ++ List.replicate o.closing ')')

namespace Fits

variable {o l r : Outline} {text left right : String}

theorem level_eq (fits : o.Fits text) : level text.toList = 0 := by
  obtain ⟨core, encloses, same⟩ := fits
  rw [same, level_append, level_append, level_opening, level_closing, encloses.level]
  omega

theorem lowest_eq (fits : o.Fits text) : lowest text.toList = min 0 o.floor := by
  obtain ⟨core, encloses, same⟩ := fits
  have floor := encloses.floor
  rw [same, lowest_append, lowest_append, lowest_opening, lowest_closing, level_opening, encloses.level]
  omega

/-- A text is balanced if its level does not get below zero between its outer parentheses. -/
theorem balanced_iff (fits : o.Fits text) : Balanced text ↔ 0 ≤ o.floor := by
  rw [Text.balanced_iff, fits.level_eq, fits.lowest_eq]
  omega

theorem plain (bare : isPlain text = true) : Outline.plain.Fits text := by
  obtain ⟨opening, closing⟩ := isPlain_iff.1 bare
  refine ⟨text.toList, ⟨?_, ?_, level_of_isPlain bare, ?_⟩, by simp [Outline.plain]⟩
  · exact fun first => opening (List.mem_of_head? first)
  · exact fun last => closing (List.mem_of_getLast? last)
  · rw [lowest_of_isPlain bare]
    rfl

theorem wrapped (fits : o.Fits text) : o.wrapped.Fits ("(" ++ text ++ ")") := by
  obtain ⟨core, encloses, same⟩ := fits
  have floor := encloses.floor
  have level := encloses.level
  refine ⟨core, ⟨encloses.head, encloses.last, ?_, ?_⟩, ?_⟩
  · simp only [Outline.wrapped]
    omega
  · simp only [Outline.wrapped]
    omega
  · have opens : List.replicate (o.opening + 1) '(' = '(' :: List.replicate o.opening '(' := rfl
    have closes : List.replicate (o.closing + 1) ')' = List.replicate o.closing ')' ++ [')'] := List.replicate_succ'
    simp only [Outline.wrapped, opens, closes, String.toList_append, same]
    simp

theorem beside (first : l.Fits left) (between : String) (second : r.Fits right)
    (separated : separates between = true) : (l.beside r).Fits (left ++ between ++ right) := by
  obtain ⟨front, before, isLeft⟩ := first
  obtain ⟨back, after, isRight⟩ := second
  rw [separates, Bool.and_eq_true, decide_eq_true_eq] at separated
  obtain ⟨bare, apart⟩ := separated
  obtain ⟨opening, closing⟩ := isPlain_iff.1 bare
  refine ⟨front ++ (List.replicate l.closing ')' ++ (between.toList ++ (List.replicate r.opening '(' ++ back))),
    ⟨?_, ?_, ?_, ?_⟩, ?_⟩
  · refine head?_append_ne before.head (head?_append_ne ?_ ?_)
    · exact fun first => absurd (List.eq_of_mem_replicate (List.mem_of_head? first)) (by decide)
    · rw [List.head?_append_of_ne_nil _ apart]
      exact fun first => opening (List.mem_of_head? first)
  · rw [← List.append_assoc, ← List.append_assoc]
    refine getLast?_append_ne ?_ (getLast?_append_ne ?_ after.last)
    · rw [List.getLast?_append_of_ne_nil _ apart]
      exact fun last => closing (List.mem_of_getLast? last)
    · exact fun last => absurd (List.eq_of_mem_replicate (List.mem_of_getLast? last)) (by decide)
  · have levels := before.level
    have levels' := after.level
    simp only [Outline.beside, level_append, level_opening, level_closing, level_of_isPlain bare]
    omega
  · have floor := before.floor
    have floor' := after.floor
    have level := before.level
    simp only [Outline.beside, lowest_append, lowest_opening, lowest_closing, lowest_of_isPlain bare,
      level_opening, level_closing, level_of_isPlain bare]
    omega
  · simp [Outline.beside, isLeft, isRight]

/-! ## Peeling -/

/-- A text is enclosed by some parentheses exactly if it has at least so many on both sides. -/
theorem encloses_iff (fits : o.Fits text) (outer : Nat) :
    Peeled.encloses (List.replicate outer '(') (List.replicate outer ')') text.toList = true ↔
      outer ≤ o.opening ∧ outer ≤ o.closing := by
  obtain ⟨core, encloses, same⟩ := fits
  have begins : (core ++ List.replicate o.closing ')').head? ≠ some '(' :=
    head?_append_ne encloses.head fun first =>
      absurd (List.eq_of_mem_replicate (List.mem_of_head? first)) (by decide)
  have ends : (List.replicate o.opening '(' ++ core).reverse.head? ≠ some ')' := by
    rw [List.head?_reverse]
    refine getLast?_append_ne (fun last => ?_) encloses.last
    exact absurd (List.eq_of_mem_replicate (List.mem_of_getLast? last)) (by decide)
  rw [Peeled.encloses, Bool.and_eq_true, List.isPrefixOf_iff_prefix, List.isSuffixOf_iff_suffix, same]
  refine and_congr (replicate_prefix_iff begins) ?_
  rw [← List.reverse_prefix, ← List.append_assoc, List.reverse_append, List.reverse_replicate,
    List.reverse_replicate]
  exact replicate_prefix_iff ends

/-- A layer of parentheses is peeled off. -/
theorem inner {cs : List Char} (fits : o.Fits (String.ofList cs)) (opens : 1 ≤ o.opening) (closes : 1 ≤ o.closing) :
    (o.without 1).Fits (String.ofList (cs.drop 1).dropLast) := by
  obtain ⟨core, encloses, same⟩ := fits
  obtain ⟨opening, closing, floor⟩ := o
  obtain ⟨opening, rfl⟩ := Nat.exists_eq_add_of_le' opens
  obtain ⟨closing, rfl⟩ := Nat.exists_eq_add_of_le' closes
  have level := encloses.level
  have low := encloses.floor
  refine ⟨core, ⟨encloses.head, encloses.last, ?_, ?_⟩, ?_⟩
  · simp only [Outline.without] at level ⊢
    omega
  · simp only [Outline.without] at low ⊢
    omega
  · rw [String.toList_ofList] at same ⊢
    rw [same, List.replicate_succ, List.replicate_succ' (n := closing), List.cons_append, List.drop_one,
      List.tail_cons, ← List.append_assoc, ← List.append_assoc, List.dropLast_concat]
    simp [Outline.without]

theorem peelUpTo {cs : List Char} {outer layers : Nat} (positive : 0 < outer) (fits : o.Fits (String.ofList cs))
    (enough : min o.opening o.closing + 1 - outer ≤ layers) :
    (o.peeled outer).Fits (String.ofList
      (Peeled.peelUpTo (List.replicate outer '(') (List.replicate outer ')') layers cs)) := by
  induction layers generalizing o cs with
  | zero =>
    rw [peeled_eq_self (Nat.le_zero.1 enough)]
    exact fits
  | succ layers ih =>
    have enclosing := fits.encloses_iff outer
    rw [String.toList_ofList] at enclosing
    rw [Peeled.peelUpTo]
    split
    · rename_i enclosed
      obtain ⟨opens, closes⟩ := enclosing.1 enclosed
      have same : (o.without 1).peeled outer = o.peeled outer := by
        simp only [peeled, without, Outline.mk.injEq]
        omega
      rw [← same]
      refine ih (fits.inner (Nat.le_trans positive opens) (Nat.le_trans positive closes)) ?_
      simp only [without]
      omega
    · rename_i bare
      have few := mt enclosing.2 bare
      rw [peeled_eq_self (by omega)]
      exact fits

theorem peel {outer : Nat} (positive : 0 < outer) (fits : o.Fits text) :
    (o.peeled outer).Fits
      (Peeled.peel (String.ofList (List.replicate outer '(')) (String.ofList (List.replicate outer ')')) text) := by
  simp only [Peeled.peel, String.toList_ofList]
  refine peelUpTo positive (by rwa [String.ofList_toList]) ?_
  obtain ⟨core, -, same⟩ := fits
  simp only [same, List.length_append, List.length_replicate]
  omega

/-- What `print` shows of a text is balanced if the outer parentheses of the text belong together. -/
theorem balanced_peel_iff (fits : o.Fits text) : Balanced (Peeled.peel "(" ")" text) ↔ o.Paired := by
  have peeled : (o.peeled 1).Fits (Peeled.peel "(" ")" text) := fits.peel Nat.one_pos
  rw [peeled.balanced_iff]
  simp only [Outline.peeled, Outline.without, Paired]
  omega

end Fits

/-- A text has an outline, and its level does not get below zero if something is the case. -/
structure Covers (o : Outline) (text : String) (even : Prop) : Prop where
  fits : o.Fits text
  high : even → 0 ≤ o.floor

namespace Covers

variable {l r : Outline} {text left right : String} {even : Prop}

theorem plain (bare : isPlain text = true) : Outline.plain.Covers text even := ⟨.plain bare, fun _ => Int.le_refl 0⟩

theorem beside (first : l.Covers left even) (between : String) (second : r.Covers right even)
    (separated : separates between = true) : (l.beside r).Covers (left ++ between ++ right) even where
  fits := first.fits.beside between second.fits separated
  high given := by
    have before := first.high given
    have after := second.high given
    simp only [Outline.beside]
    omega

theorem after (between : String) (covers : o.Covers text even) (separated : separates between = true) :
    (Outline.plain.beside o).Covers (between ++ text) even := by
  have empty : Outline.plain.Covers "" even := plain rfl
  simpa using empty.beside between covers separated

theorem before (covers : o.Covers text even) (between : String) (separated : separates between = true) :
    (o.beside Outline.plain).Covers (text ++ between) even := by
  have empty : Outline.plain.Covers "" even := plain rfl
  simpa using covers.beside between empty separated

theorem joined {between : String} (separated : separates between = true) {outlines : List Outline}
    {texts : List String} (covers : List.Forall₂ (fun o text => o.Covers text even) outlines texts) :
    (Outline.joined outlines).Covers (between.intercalate texts) even := by
  induction covers with
  | nil => exact plain rfl
  | @cons o text outlines texts first rest ih =>
    cases rest with
    | nil => simpa [Outline.joined] using first
    | cons second others =>
      rw [String.intercalate_cons_cons]
      exact first.beside between ih separated

end Covers

end Outline

end Text

/-! ## Terms -/

theorem both_ok_of_bind {α β : Type} {x : Except Error α} {f : α → Except Error β} {b : β}
    (ended : x >>= f = .ok b) : ∃ a, x = .ok a ∧ f a = .ok b := by
  cases x with
  | ok a => exact ⟨a, rfl, ended⟩
  | error e => cases ended

theorem Text.isPlain_digits (n : Int) : isPlain (Decimal.digits n) = true :=
  isPlain_iff.2 ⟨fun member => absurd (Decimal.mem_digits member) (by decide),
    fun member => absurd (Decimal.mem_digits member) (by decide)⟩

theorem Operator.isPlain_symbol (op : Operator) (known : op.isKnown = true) : Text.isPlain op.symbol = true := by
  cases op with
  | other sign => cases known
  | add | sub | mul | div | eq | ne | lt | le | gt | ge => rfl

/-- What an honest literal holds is shown without parentheses, if texts have none. -/
theorem Past.Holds.isPlain {past : Past} (texts : ∀ s, past.texts s = true → Text.isPlain s = true) {d : Datum}
    (holds : past.Holds d) {w : Wording} {text : String} (shown : d.plain w = .ok text) :
    Text.isPlain text = true := by
  cases d with
  | none | list | term => cases holds.truth
  | bool b =>
    cases shown
    cases b <;> rfl
  | int n =>
    simp only [Datum.plain, Datum.quoted] at shown
    rw [Datum.eq_digits_of_decimal shown]
    exact Text.isPlain_digits n
  | text s =>
    obtain rfl : s = text := Except.ok.inj shown
    exact texts s (holds.admitted s rfl).2

namespace Term

open Text Text.Outline

/-- The outline of the printed form of a term before it is peeled, from those of its parts. -/
def fullOutline (store : Store) (part : Term → Outline) : Term → Outline
  | function _ body => plain.beside (part body)
  | operation lhs _ rhs => (((plain.beside (part lhs)).beside (part rhs)).beside plain).wrapped
  | conditional condition yes no => ((plain.beside (part condition)).beside (part yes)).beside (part no)
  | chain items => (joined (items.map part)).wrapped
  | list cell => (plain.beside (joined ((store.items cell).map part))).beside plain
  | _ => plain

/-- The outline of the printed form of a term, with terms nested at most to a depth. -/
def outline (store : Store) : (depth : Nat) → Term → Outline
  | 0, _ => plain
  | depth + 1, t => (t.fullOutline store (outline store depth)).peeled 2

/-- No chain to which a term leads has items whose texts begin with a parenthesis and end with one. -/
def EndsApart (store : Store) (t : Term) : Prop :=
  ∀ items, store.Leads t (.chain items) → ∀ depth shown, items.mapM (printed store depth) = .ok shown →
    Peeled.encloses ['('] [')'] (" . ".intercalate shown).toList = false

theorem EndsApart.part {store : Store} {t u : Term} (apart : t.EndsApart store) (member : u ∈ store.parts t) :
    u.EndsApart store :=
  fun items leads => apart items (.part member leads)

/-- What is said of the printed form of a term. -/
structure Outlined (store : Store) (depth : Nat) (t : Term) (text : String) : Prop where
  fits : (t.outline store depth).Fits text
  paired : t.EndsApart store → (t.outline store depth).Paired

variable {past : Past} {store : Store} {depth : Nat}

/-- The texts of terms in a row have the outlines of the terms. -/
theorem covers_mapM {items : List Term} {shown : List String} {even : Prop}
    (each : ∀ t ∈ items, ∀ text, t.printed store depth = .ok text → (t.outline store depth).Covers text even)
    (printed : items.mapM (printed store depth) = .ok shown) :
    List.Forall₂ (fun o text => o.Covers text even) (items.map (outline store depth)) shown := by
  induction items generalizing shown with
  | nil =>
    cases printed
    exact .nil
  | cons t rest ih =>
    rw [List.mapM_cons] at printed
    obtain ⟨text, here, printed⟩ := both_ok_of_bind printed
    obtain ⟨others, later, printed⟩ := both_ok_of_bind printed
    cases printed
    rw [List.forall_mem_cons] at each
    exact .cons (each.1 text here) (ih each.2 later)

/-- The printed form of an honest term without parentheses in its texts has the outline of the term. -/
theorem Honest.outlined (texts : ∀ s, past.texts s = true → isPlain s = true)
    (stored : ∀ cell, ∀ t ∈ store.items cell, t.Honest past) {t : Term} {text : String} (honest : t.Honest past)
    (shown : t.printed store depth = .ok text) : t.Outlined store depth text := by
  induction depth generalizing t text with
  | zero => cases shown
  | succ depth ih =>
    suffices whole : ∃ full, text = Peeled.peel "((" "))" full ∧
        (t.fullOutline store (outline store depth)).Fits full ∧
        (t.EndsApart store → (t.fullOutline store (outline store depth)).Paired) by
      obtain ⟨full, rfl, fits, paired⟩ := whole
      exact ⟨fits.peel Nat.two_pos, fun apart => (paired_peeled Nat.two_pos).2 (paired apart)⟩
    have literal {d : Datum} (value : t.value = .ok d) : past.Holds d := honest.value value
    have part {u : Term} (member : u ∈ store.parts t) (fine : u.Honest past) (text : String)
        (shown : u.printed store depth = .ok text) : (u.outline store depth).Covers text (t.EndsApart store) :=
      have outlined := ih fine shown
      ⟨outlined.fits, fun apart => (outlined.paired (apart.part member)).floor_nonneg⟩
    cases honest with
    | int holds admitted | bool holds admitted =>
      rw [Term.printed] at shown
      obtain ⟨full, plainly, shown⟩ := both_ok_of_bind shown
      exact ⟨full, (Except.ok.inj shown).symm, .plain ((literal rfl).isPlain texts plainly), fun _ => paired_plain⟩
    | string holds admitted =>
      rw [Term.printed] at shown
      obtain ⟨s, plainly, shown⟩ := both_ok_of_bind shown
      have bare : isPlain (inQuotes s) = true := by
        rw [inQuotes, isPlain_append, isPlain_append, (literal rfl).isPlain texts plainly]
        rfl
      exact ⟨_, (Except.ok.inj shown).symm, .plain bare, fun _ => paired_plain⟩
    | @name id named =>
      rw [Term.printed] at shown
      exact ⟨id, (Except.ok.inj shown).symm, .plain (texts id named), fun _ => paired_plain⟩
    | @function x body named inner seen =>
      rw [Term.printed] at shown
      obtain ⟨_, ⟨⟩, shown⟩ := both_ok_of_bind shown
      obtain ⟨b, printed, shown⟩ := both_ok_of_bind shown
      have separated : separates ("\\ " ++ x ++ " => ") = true := by
        rw [separates, isPlain_append, isPlain_append, texts x named, Bool.and_eq_true, decide_eq_true_eq]
        exact ⟨rfl, by simp⟩
      have covers := (part (by simp [Store.parts]) inner b printed).after _ separated
      refine ⟨_, (Except.ok.inj shown).symm, covers.fits, fun apart => ?_⟩
      exact paired_of_opening_or_closing (.inl rfl) (covers.high apart)
    | @operation lhs rhs op left known right =>
      rw [Term.printed] at shown
      obtain ⟨l, printedLeft, shown⟩ := both_ok_of_bind shown
      obtain ⟨r, printedRight, shown⟩ := both_ok_of_bind shown
      rw [Operator.sign_of_isKnown known] at shown
      have separated : separates (" " ++ op.symbol ++ " ") = true := by
        rw [separates, isPlain_append, isPlain_append, op.isPlain_symbol known, Bool.and_eq_true, decide_eq_true_eq]
        exact ⟨rfl, by simp⟩
      have covers := (((part (by simp [Store.parts]) left l printedLeft).after " " rfl).beside _
        (part (by simp [Store.parts]) right r printedRight) separated).before " " rfl
      have same : "( " ++ l ++ " " ++ op.symbol ++ " " ++ r ++ " )" =
          "(" ++ (" " ++ l ++ (" " ++ op.symbol ++ " ") ++ r ++ " ") ++ ")" := String.toList_inj.1 (by simp)
      refine ⟨_, (Except.ok.inj shown).symm, same ▸ covers.fits.wrapped, fun apart => paired_wrapped.2 ?_⟩
      exact paired_of_opening_or_closing (.inl rfl) (covers.high apart)
    | @conditional condition yes no first second third =>
      rw [Term.printed] at shown
      obtain ⟨c, printedFirst, shown⟩ := both_ok_of_bind shown
      obtain ⟨y, printedSecond, shown⟩ := both_ok_of_bind shown
      obtain ⟨n, printedThird, shown⟩ := both_ok_of_bind shown
      have covers := (((part (by simp [Store.parts]) first c printedFirst).after "if " rfl).beside " then "
        (part (by simp [Store.parts]) second y printedSecond) rfl).beside " else "
        (part (by simp [Store.parts]) third n printedThird) rfl
      refine ⟨_, (Except.ok.inj shown).symm, covers.fits, fun apart => ?_⟩
      exact paired_of_opening_or_closing (.inl rfl) (covers.high apart)
    | @chain items each =>
      rw [Term.printed] at shown
      obtain ⟨shownItems, printed, shown⟩ := both_ok_of_bind shown
      have covers := Covers.joined (show separates " . " = true from rfl)
        (covers_mapM (fun t member => part member (each t member)) printed)
      refine ⟨_, (Except.ok.inj shown).symm, covers.fits.wrapped, fun apart => paired_wrapped.2 ?_⟩
      refine paired_of_opening_or_closing ?_ (covers.high apart)
      have bare := apart items (.self _) depth shownItems printed
      have both := mt (covers.fits.encloses_iff 1).2 (Bool.eq_false_iff.1 bare)
      rw [not_and_or, Nat.not_le, Nat.not_le, Nat.lt_one_iff, Nat.lt_one_iff] at both
      exact both
    | list cell =>
      rw [Term.printed] at shown
      obtain ⟨shownItems, printed, shown⟩ := both_ok_of_bind shown
      have inner := Covers.joined (show separates ", " = true from rfl)
        (covers_mapM (fun t member => part member (stored cell t member)) printed)
      have covers := (inner.after "[ " rfl).before " ]" rfl
      refine ⟨_, (Except.ok.inj shown).symm, covers.fits, fun apart => ?_⟩
      exact paired_of_opening_or_closing (.inl rfl) (covers.high apart)

end Term

end DotLambda
