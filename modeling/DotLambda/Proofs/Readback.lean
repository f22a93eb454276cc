import DotLambda.Proofs.Equations
import DotLambda.Proofs.Heap

/-!
Values that can be read back. A ground value is a number, a string or a list of ground values. Main statement: when
the printed form of a ground value is assigned to a name, the line succeeds, what is stored simplifies to the
value, and the name prints in the same form.
-/

namespace DotLambda

/-- A value that is made of numbers that are not too long, strings that can stand between quotes, and lists. -/
inductive Ground where
  | number (n : Int) (short : n.natAbs < Text.Decimal.bound)
  | string (s : String) (inside : s.toList.all Segment.isInString = true)
  | list (items : List Ground)

/-! ## Spelling -/

theorem Text.Digit.value?_of_isDigit {c : Char} (digit : c.isDigit = true) :
    Text.Digit.value? c = some (c.toNat - '0'.toNat) := by
  have bounds : 48 ≤ c.toNat ∧ c.toNat ≤ 57 := by simpa [Char.isDigit, UInt32.le_iff_toNat_le] using digit
  obtain ⟨others, zeros⟩ : ∃ others, Text.Digit.zeros = 48 :: others := ⟨_, rfl⟩
  have here : (decide (48 ≤ c.toNat) && decide (c.toNat < 48 + 10)) = true := by
    simp only [Bool.and_eq_true, decide_eq_true_eq]
    omega
  simp only [Text.Digit.value?, zeros, List.find?_cons, here, Option.map_some]
  rfl

/-- The decimal text of a number is a lexeme of the number. -/
theorem Lexeme.repr {n : Nat} (short : n < Text.Decimal.bound) : Lexeme n.repr.toList (.number n) := by
  have digits : ∀ c ∈ n.repr.toList, c.isDigit = true := by
    rw [Nat.toList_repr]
    exact fun c member => Nat.isDigit_of_mem_toDigits (by decide) (by decide) member
  have value : Text.Digit.number n.repr.toList = n := by
    have same := Nat.ofDigitChars_ten_toDigits (n := n)
    rw [← Nat.toList_repr] at same
    refine Eq.trans (List.foldl_ext _ _ _ fun m c member => ?_) same
    simp [Text.Digit.value?_of_isDigit (digits c member)]
  have all : n.repr.toList.all Text.Digit.isDigit = true := by
    refine List.all_eq_true.2 fun c member => ?_
    simp [Text.Digit.isDigit, Text.Digit.value?_of_isDigit (digits c member)]
  have fits : n.repr.toList.length ≤ Text.Decimal.digitLimit := by
    rw [Nat.toList_repr]
    unfold Text.Decimal.bound at short
    have some : 0 < Text.Decimal.digitLimit := by decide
    generalize Text.Decimal.digitLimit = limit at some short
    exact (Nat.length_toDigits_le_iff (by decide) some).2 short
  have some : n.repr.toList ≠ [] := by
    rw [Nat.toList_repr]
    exact Nat.toDigits_ne_nil
  have written := Lexeme.number some all fits
  rwa [value] at written

/-- What ends with a mark is not read together with what follows. -/
theorem Separate.of_mark {front rest : List Char} {a : Char} (last : front.getLast? = some a)
    (mark : inWord a = false ∧ a ≠ '<' ∧ a ≠ '>') : Separate front rest := by
  obtain ⟨outside, notLess, notMore⟩ := mark
  cases first : rest.head? with
  | none => simp [Separate, last, first]
  | some b => simp [Separate, last, first, glued, outside, notLess, notMore]

/-- A name or a number is not read together with a mark that follows. -/
theorem Separate.of_word {front rest : List Char} (inside : ∀ a ∈ front, inWord a = true)
    (next : ∀ b ∈ rest.head?, inWord b = false) : Separate front rest := by
  cases last : front.getLast? with
  | none => simp [Separate, last]
  | some a =>
    have letter := inside a (List.mem_of_getLast? last)
    have notLess : a ≠ '<' := by rintro rfl; exact absurd letter (by decide)
    have notMore : a ≠ '>' := by rintro rfl; exact absurd letter (by decide)
    cases first : rest.head? with
    | none => simp [Separate, last, first]
    | some b => simp [Separate, last, first, glued, next b first, notLess, notMore]

theorem Separate.before_blank (front rest : List Char) : Separate front (' ' :: rest) := by
  cases last : front.getLast? with
  | none => simp [Separate, last]
  | some a =>
    have outside : inWord ' ' = false := by decide
    simp [Separate, last, glued, outside]

theorem Separate.before_end (front : List Char) : Separate front [] := by
  cases last : front.getLast? <;> simp [Separate, last]

/-- A sign of one character that no other character goes on with. -/
theorem Spells.mark {mark : Char} {kind : Kind} (listed : ([mark], kind) ∈ Segment.signs)
    (apart : inWord mark = false ∧ mark ≠ '<' ∧ mark ≠ '>') {rest : List Char} {words : List Word}
    (spelled : Spells rest words) : Spells (mark :: rest) (.sign kind (String.ofList [mark]) :: words) :=
  @Spells.lexeme [mark] rest _ _ (.sign listed) (.of_mark rfl apart) spelled

namespace Ground

mutual

/-- The printed form of a ground value. -/
def text : Ground → String
  | number n _ => Text.Decimal.digits n
  | string s _ => Term.inQuotes s
  | list items => "[ " ++ ", ".intercalate (textAll items) ++ " ]"

/-- The printed form of each of several ground values. -/
def textAll : List Ground → List String
  | [] => []
  | v :: rest => v.text :: textAll rest

end

/-- The words that write a number. -/
def numberWords : Int → List Word
  | .ofNat n => [.number n]
  | .negSucc n => [.sign .addOp "-", .number (n + 1)]

mutual

/-- The words in the printed form of a ground value. -/
def words : Ground → List Word
  | number n _ => numberWords n
  | string s _ => [.string s]
  | list items => .sign .leftBracket "[" :: (wordsAll items ++ [.sign .rightBracket "]"])

/-- The words of ground values with commas between them. -/
def wordsAll : List Ground → List Word
  | [] => []
  | [v] => v.words
  | v :: u :: rest => v.words ++ .sign .comma "," :: wordsAll (u :: rest)

end

/-- The decimal text of an integer spells its words. -/
theorem spells_digits {n : Int} (short : n.natAbs < Text.Decimal.bound) {rest : List Char} {others : List Word}
    (spelled : Spells rest others) (next : ∀ c ∈ rest.head?, inWord c = false) :
    Spells ((Text.Decimal.digits n).toList ++ rest) (numberWords n ++ others) := by
  have unsigned {m : Nat} (few : m < Text.Decimal.bound) :
      Spells (m.repr.toList ++ rest) (.number m :: others) := by
    refine .lexeme (.repr few) (.of_word (fun c member => ?_) next) spelled
    rw [Nat.toList_repr] at member
    have digit := Text.Digit.value?_of_isDigit (Nat.isDigit_of_mem_toDigits (by decide) (by decide) member)
    simp [inWord, Text.Digit.isDigit, digit]
  cases n with
  | ofNat m => exact unsigned short
  | negSucc m =>
    rw [Text.Decimal.digits, String.toList_append, List.append_assoc]
    exact .mark (by decide) (by decide) (unsigned short)

mutual

/-- The printed form of a ground value spells its words. -/
theorem spells {rest : List Char} {others : List Word} (spelled : Spells rest others)
    (next : ∀ c ∈ rest.head?, inWord c = false) :
    (v : Ground) → Spells (v.text.toList ++ rest) (v.words ++ others)
  | number n short => spells_digits short spelled next
  | string s inside => by
    have quoted := Spells.lexeme (Lexeme.string inside) (.of_mark List.getLast?_concat (by decide)) spelled
    rw [String.ofList_toList] at quoted
    simpa [text, words, Term.inQuotes] using quoted
  | list items => by
    have closing : Spells (']' :: rest) (.sign .rightBracket "]" :: others) := .mark (by decide) (by decide) spelled
    have inner : Spells ((", ".intercalate (textAll items)).toList ++ ' ' :: ']' :: rest)
        (wordsAll items ++ .sign .rightBracket "]" :: others) :=
      spellsAll (.blank (.inl rfl) closing) (by simp; decide) items
    have whole : Spells ('[' :: ' ' :: ((", ".intercalate (textAll items)).toList ++ ' ' :: ']' :: rest))
        (.sign .leftBracket "[" :: (wordsAll items ++ .sign .rightBracket "]" :: others)) :=
      .mark (by decide) (by decide) (.blank (.inl rfl) inner)
    simpa [text, words] using whole

/-- The printed forms of ground values with commas between them spell their words with commas. -/
theorem spellsAll {rest : List Char} {others : List Word} (spelled : Spells rest others)
    (next : ∀ c ∈ rest.head?, inWord c = false) : (items : List Ground) →
      Spells ((", ".intercalate (textAll items)).toList ++ rest) (wordsAll items ++ others)
  | [] => by simpa [textAll, wordsAll] using spelled
  | [v] => by simpa [textAll, wordsAll] using spells spelled next v
  | v :: u :: items => by
    have onward := spellsAll spelled next (u :: items)
    have comma : Spells (',' :: ' ' :: ((", ".intercalate (textAll (u :: items))).toList ++ rest))
        (.sign .comma "," :: (wordsAll (u :: items) ++ others)) :=
      .mark (by decide) (by decide) (.blank (.inl rfl) onward)
    have whole := spells comma (by simp; decide) v
    simpa [textAll, wordsAll, String.intercalate_cons_cons] using whole

end

/-! ## Ground values in a store -/

mutual

/-- A ground value lies in a term of a store, where numbers lie in terms of their own. -/
def LiesIn (holds : Int → Term → Prop) (store : Store) : Ground → Term → Prop
  | number n _, t => holds n t
  | string s _, t => t = .string (.text s)
  | list items, t => ∃ cell < store.size, t = .list cell ∧ LieIn holds store items (store.items cell)

/-- Ground values lie in terms, one by one. -/
def LieIn (holds : Int → Term → Prop) (store : Store) : List Ground → List Term → Prop
  | [], [] => True
  | v :: rest, t :: others => v.LiesIn holds store t ∧ LieIn holds store rest others
  | _, _ => False

end

/-- A term is a ground value: each number is a literal. -/
abbrev Is (store : Store) (v : Ground) (t : Term) : Prop := v.LiesIn (fun n t => t = .int (.int n)) store t

/-- A number as it is read: a literal, or the difference between zero and a literal. -/
def Read (n : Int) (t : Term) : Prop :=
  t = .int (.int n) ∨ t = .operation (.int (.int 0)) .sub (.int (.int (-n)))

variable {holds : Int → Term → Prop} {store after : Store}

mutual

theorem LiesIn.mono (grown : store.Extends after) :
    (v : Ground) → {t : Term} → v.LiesIn holds store t → v.LiesIn holds after t
  | number _ _, _, lies | string _ _, _, lies => lies
  | list items, _, ⟨cell, old, same, lie⟩ =>
    ⟨cell, Nat.lt_of_lt_of_le old grown.size_le, same, grown.items_eq cell old ▸ LieIn.mono grown items lie⟩

theorem LieIn.mono (grown : store.Extends after) :
    (items : List Ground) → {terms : List Term} → LieIn holds store items terms → LieIn holds after items terms
  | [], [], lie => lie
  | v :: rest, _ :: _, ⟨first, others⟩ => ⟨LiesIn.mono grown v first, LieIn.mono grown rest others⟩

end

/-- A new list of terms in which ground values lie. -/
theorem LieIn.allocate {items : List Ground} {terms : List Term} (lie : LieIn holds store items terms) :
    (list items).LiesIn holds (store.allocate terms) (.list store.size) := by
  refine ⟨store.size, by simp [Store.size_allocate], rfl, ?_⟩
  rw [Store.items_allocate_self]
  exact LieIn.mono (.allocate store terms) items lie

/-! ## Texts -/

mutual

/-- How deeply a ground value nests, where a number may still have to be computed. -/
def height : Ground → Nat
  | number _ _ => 2
  | string _ _ => 1
  | list items => heightAll items + 1

/-- How deeply ground values nest. -/
def heightAll : List Ground → Nat
  | [] => 0
  | v :: rest => max v.height (heightAll rest)

end

/-- The printed form opens neither with a parenthesis nor with two. -/
theorem peel_text (v : Ground) {opening closing : String} (opens : opening.toList.head? = some '(') :
    Text.Peeled.peel opening closing v.text = v.text := by
  cases v with
  | number n short =>
    exact Text.Peeled.peel_eq_self (List.mem_of_head? opens) (Text.Decimal.paren_not_mem_digits n)
  | string s inside | list items =>
    refine Text.Peeled.peel_of_unopened ?_
    obtain ⟨rest, parts⟩ := List.head?_eq_some_iff.1 opens
    rw [parts]
    simp [text, Term.inQuotes, List.isPrefixOf]

mutual

/-- A term that is a ground value prints in its printed form. -/
theorem printed_eq {depth : Nat} : (v : Ground) → {t : Term} → v.Is store t → v.height ≤ depth →
    t.printed store depth = .ok v.text
  | number n short, _, is, deep => by
    obtain ⟨more, rfl⟩ := Nat.exists_eq_add_of_lt deep
    subst is
    simp only [Term.printed, Datum.plain, Datum.quoted, Datum.decimal_eq short]
    exact congrArg Except.ok (peel_text (number n short) rfl)
  | string s inside, _, is, deep => by
    obtain ⟨more, rfl⟩ := Nat.exists_eq_add_of_lt deep
    subst is
    simp only [Term.printed, Datum.plain]
    exact congrArg Except.ok (peel_text (string s inside) rfl)
  | list items, _, ⟨cell, old, same, lie⟩, deep => by
    obtain ⟨more, rfl⟩ := Nat.exists_eq_add_of_lt deep
    subst same
    have shown : (store.items cell).mapM (Term.printed store (heightAll items + more)) = .ok (textAll items) :=
      printedAll_eq items lie (Nat.le_add_right _ _)
    simp only [Term.printed, shown]
    exact congrArg Except.ok (peel_text (list items) rfl)

theorem printedAll_eq {depth : Nat} : (items : List Ground) → {terms : List Term} →
    LieIn (fun n t => t = .int (.int n)) store items terms → heightAll items ≤ depth →
      terms.mapM (Term.printed store depth) = .ok (textAll items)
  | [], [], _, _ => rfl
  | v :: rest, t :: others, ⟨first, lie⟩, deep => by
    simp only [heightAll, Nat.max_le] at deep
    rw [List.mapM_cons, printed_eq v first deep.1, printedAll_eq rest lie deep.2]
    rfl

end

/-- A number as it is read has a dumped form. -/
theorem Read.exists_dumped {n : Int} (short : n.natAbs < Text.Decimal.bound) {t : Term} (read : Read n t)
    (store : Store) (depth : Nat) : ∃ shown, t.dumped store (depth + 2) = .ok shown := by
  -- it denotes the number, whatever is bound
  let nothing : Reckoning := ⟨[], fun _ => 0, fun _ => 0⟩
  have denotes : Denotes nothing (depth + 2) t n := by
    rcases read with rfl | rfl
    · exact .int short
    · exact .operation rfl (.int Text.Decimal.bound_pos) (.int (by simpa using short))
        (by simp [Operator.arithmetic]; rfl)
  exact denotes.exists_dumped store

mutual

/-- What is read from a printed form has a dumped form. -/
theorem exists_dumped {depth : Nat} : (v : Ground) → {t : Term} → v.LiesIn Read store t → v.height ≤ depth →
    ∃ shown, t.dumped store depth = .ok shown
  | number n short, _, read, deep => by
    obtain ⟨more, rfl⟩ := Nat.exists_eq_add_of_le' deep
    exact read.exists_dumped short store more
  | string s inside, _, is, deep => by
    obtain ⟨more, rfl⟩ := Nat.exists_eq_add_of_le' deep
    subst is
    exact ⟨_, rfl⟩
  | list items, _, ⟨cell, old, same, lie⟩, deep => by
    obtain ⟨more, rfl⟩ := Nat.exists_eq_add_of_le' deep
    subst same
    obtain ⟨shown, each⟩ := @exists_dumpedAll (more + heightAll items) items _ lie (Nat.le_add_left _ _)
    refine ⟨"[ " ++ ", ".intercalate shown ++ " ]", ?_⟩
    rw [height, ← Nat.add_assoc]
    simp only [Term.dumped, each]
    rfl

theorem exists_dumpedAll {depth : Nat} : (items : List Ground) → {terms : List Term} →
    LieIn Read store items terms → heightAll items ≤ depth →
      ∃ shown, terms.mapM (Term.dumped store depth) = .ok shown
  | [], [], _, _ => ⟨[], rfl⟩
  | v :: rest, t :: others, ⟨first, lie⟩, deep => by
    simp only [heightAll, Nat.max_le] at deep
    obtain ⟨text, shown⟩ := exists_dumped v first deep.1
    obtain ⟨texts, each⟩ := exists_dumpedAll rest lie deep.2
    refine ⟨text :: texts, ?_⟩
    rw [List.mapM_cons, shown, each]
    rfl

end

/-! ## Simplifying -/

variable {s : Settings}

theorem makeList_eq (untraced : s.tracing = false) (items : List Term) (w : World) : Eval.makeList s items w =
    .ok (.list w.store.size) ⟨w.bindings, w.store.allocate items, w.output⟩ := by
  simp only [Eval.makeList, Eval.announce, Eval.announceResult, Eval.trace_untraced untraced, pure_bind, bind_pure]
  rfl

/-- A list with one more item at its front is a new one. -/
theorem item_eq (untraced : s.tracing = false) (first : Term) (cell : Nat) (w : World) :
    Meaning.item s first (.list cell) w = .ok (.list w.store.size)
      ⟨w.bindings, w.store.allocate (first :: w.store.items cell), w.output⟩ := by
  have found : Eval.examine (fun store => pure (store.items cell)) w = .ok (w.store.items cell) w := rfl
  refine (Eval.bind_of_ok found).trans ((Eval.bind_of_ok (makeList_eq untraced _ w)).trans ?_)
  rw [Meaning.traceDumped, Meaning.traceRule_untraced untraced]
  rfl

/-- A number as it is read simplifies to its literal. -/
theorem Read.simplify_eq (untraced : s.tracing = false) (lookup : Bindings Term) {n : Int} {t : Term}
    (read : Read n t) (depth : Nat) :
    simplify s lookup (depth + 2) t = pure (.int (.int n)) := by
  have literal (depth : Nat) (m : Int) : simplify s lookup (depth + 1) (.int (.int m)) = pure (.int (.int m)) := by
    rw [simplify_untraced untraced]
    exact Eval.make_untraced untraced _
  rcases read with rfl | rfl
  · exact literal (depth + 1) n
  · have computed : Eval.apply s .sub (.int 0) (.int (-n)) = pure (.int n) :=
      Eval.apply_int rfl (by simp [Operator.arithmetic]; rfl)
    rw [simplify_untraced untraced]
    simp only [Simplify.simplified, literal depth, pure_bind, Simplify.resolve, Simplify.compute, computed]
    exact Eval.make_untraced untraced _

mutual

/-- What is read from a printed form simplifies to a term that is the ground value. -/
theorem simplify_is (untraced : s.tracing = false) (lookup : Bindings Term) {depth : Nat} :
    (v : Ground) → {t : Term} → {w : World} → v.LiesIn Read w.store t → v.height ≤ depth → ∃ u store,
      simplify s lookup depth t w = .ok u ⟨w.bindings, store, w.output⟩ ∧ w.store.Extends store ∧ v.Is store u
  | number n short, _, w, read, deep => by
    obtain ⟨more, rfl⟩ := Nat.exists_eq_add_of_le' deep
    refine ⟨.int (.int n), w.store, ?_, .refl _, rfl⟩
    rw [height, read.simplify_eq untraced lookup more]
    rfl
  | string text inside, _, w, is, deep => by
    obtain ⟨more, rfl⟩ := Nat.exists_eq_add_of_le' deep
    subst is
    refine ⟨.string (.text text), w.store, ?_, .refl _, rfl⟩
    rw [height, simplify_untraced untraced, Simplify.simplified, Eval.make_untraced untraced]
    rfl
  | list items, _, w, ⟨cell, old, same, lie⟩, deep => by
    obtain ⟨more, rfl⟩ := Nat.exists_eq_add_of_le' deep
    subst same
    obtain ⟨terms, store, each, grown, are⟩ :=
      @simplifyAll_is untraced lookup (more + heightAll items) items _ _ lie (Nat.le_add_left _ _)
    refine ⟨.list store.size, store.allocate terms, ?_, grown.trans (.allocate store terms), are.allocate⟩
    have read : (get : Eval World) w = .ok w w := rfl
    rw [height, ← Nat.add_assoc, simplify_untraced untraced, Simplify.simplified, Eval.bind_of_ok read,
      Eval.bind_of_ok each, makeList_eq untraced]

theorem simplifyAll_is (untraced : s.tracing = false) (lookup : Bindings Term) {depth : Nat} :
    (items : List Ground) → {terms : List Term} → {w : World} → LieIn Read w.store items terms →
      heightAll items ≤ depth → ∃ simplified store,
      terms.mapM (simplify s lookup depth) w = .ok simplified ⟨w.bindings, store, w.output⟩ ∧
        w.store.Extends store ∧ LieIn (fun n t => t = .int (.int n)) store items simplified
  | [], [], w, _, _ => ⟨[], w.store, rfl, .refl _, trivial⟩
  | v :: rest, t :: others, w, ⟨first, lie⟩, deep => by
    simp only [heightAll, Nat.max_le] at deep
    obtain ⟨u, middle, done, grown, is⟩ := simplify_is untraced lookup v first deep.1
    let between : World := ⟨w.bindings, middle, w.output⟩
    have after : LieIn Read between.store rest others := LieIn.mono grown rest lie
    obtain ⟨simplified, store, each, grownOn, are⟩ := simplifyAll_is untraced lookup rest after deep.2
    refine ⟨u :: simplified, store, ?_, grown.trans grownOn, LiesIn.mono grownOn v is, are⟩
    rw [List.mapM_cons, Eval.bind_of_ok done, Eval.bind_of_ok each]
    rfl

end

/-! ## Reading -/

/-- An evaluation that builds a ground value, and changes nothing that is there. -/
def BuiltBy (x : Eval Term) (v : Ground) : Prop :=
  ∀ w : World, ∃ t store, x w = .ok t ⟨w.bindings, store, w.output⟩ ∧ w.store.Extends store ∧ v.LiesIn Read store t

theorem BuiltBy.pure {v : Ground} {t : Term} (lies : ∀ store, v.LiesIn Read store t) : BuiltBy (pure t) v :=
  fun w => ⟨t, w.store, rfl, .refl _, lies w.store⟩

/-- The words of a number are read as the number. -/
theorem readable_number (untraced : s.tracing = false) {follower : Option Kind}
    (closes : follower ∈ Automaton.closers) {n : Int} (short : n.natAbs < Text.Decimal.bound) :
    ∃ x, ReadsTerm s .expr follower (numberWords n) x ∧ BuiltBy x (number n short) := by
  cases n with
  | ofNat m =>
    have read := Arith.readable untraced (.ofProduct (.ofFactor (.literal m))) follower
      (Automaton.closers_subset closes)
    refine ⟨_, read, ?_⟩
    simp only [Arith.evaluate, Eval.make_untraced untraced]
    exact .pure fun _ => .inl rfl
  | negSucc m =>
    have read := Arith.readable untraced (.ofProduct (.ofFactor (.signed true (.literal (m + 1))))) follower
      (Automaton.closers_subset closes)
    refine ⟨_, read, ?_⟩
    simp only [Arith.evaluate, Meaning.sign, Eval.make_untraced untraced, pure_bind, if_true]
    exact .pure fun _ => .inr rfl

mutual

/-- The words of a ground value are read as the value. -/
theorem readable (untraced : s.tracing = false) {follower : Option Kind} (closes : follower ∈ Automaton.closers) :
    (v : Ground) → ∃ x, ReadsTerm s .expr follower v.words x ∧ BuiltBy x v
  | number n short => readable_number untraced closes short
  | string text inside => by
    have follows := Automaton.closers_subset closes
    have after := Automaton.afterLoneTerm_subset follows
    have read := ReadsTerm.ofTerm untraced (Automaton.reduces_of_mem_afterLoneTerm (by decide) follows)
      (.ofFactor untraced (Automaton.reduces_of_mem_afterFactor (by decide) after)
        (.string (Automaton.reduces_of_mem_afterFactor (by decide) after) text))
    refine ⟨_, read, ?_⟩
    rw [Eval.make_untraced untraced]
    exact .pure fun _ => rfl
  | list [] => by
    have read : ReadsTerm s .expr follower (list []).words (Eval.makeList s []) :=
      .ofList untraced (Automaton.reduces_of_mem_closers closes)
        (.emptyList untraced (Automaton.reduces_of_mem_closers closes))
    refine ⟨_, read, fun w => ⟨_, _, makeList_eq untraced [] w, .allocate _ _, LieIn.allocate trivial⟩⟩
  | list (v :: items) => by
    obtain ⟨x, read, built⟩ := readableAll untraced (v :: items) (List.cons_ne_nil _ _)
    exact ⟨x, .ofList untraced (Automaton.reduces_of_mem_closers closes)
      (.listOf untraced (Automaton.reduces_of_mem_closers closes) read), built⟩

/-- The words of ground values with commas between them are read as a list of the values. -/
theorem readableAll (untraced : s.tracing = false) : (items : List Ground) → items ≠ [] →
    ∃ x, ReadsTerm s .items (some .rightBracket) (wordsAll items) x ∧ BuiltBy x (list items)
  | [], nonempty => absurd rfl nonempty
  | [v], _ => by
    have closes : some Kind.rightBracket ∈ Automaton.closers := by decide
    obtain ⟨x, read, built⟩ := readable untraced closes v
    refine ⟨_, .lastItem untraced (Automaton.reduces_of_mem_closers (by decide)) read, fun w => ?_⟩
    obtain ⟨t, store, done, grown, lies⟩ := built w
    have whole : LieIn Read store [v] [t] := ⟨lies, trivial⟩
    refine ⟨.list store.size, store.allocate [t], ?_, grown.trans (.allocate store [t]), whole.allocate⟩
    rw [Eval.bind_of_ok done, makeList_eq untraced]
  | v :: u :: items, _ => by
    have closes : some Kind.comma ∈ Automaton.closers := by decide
    obtain ⟨x, read, built⟩ := readable untraced closes v
    obtain ⟨y, readOn, builtOn⟩ := readableAll untraced (u :: items) (List.cons_ne_nil _ _)
    refine ⟨_, .item (Automaton.reduces_of_mem_closers (by decide)) read readOn, fun w => ?_⟩
    obtain ⟨t, middle, done, grown, lies⟩ := built w
    obtain ⟨list, store, doneOn, grownOn, cell, old, rfl, lie⟩ := builtOn ⟨w.bindings, middle, w.output⟩
    have whole : LieIn Read store (v :: u :: items) (t :: store.items cell) := ⟨LiesIn.mono grownOn v lies, lie⟩
    refine ⟨.list store.size, store.allocate (t :: store.items cell), ?_,
      (grown.trans grownOn).trans (.allocate store _), whole.allocate⟩
    rw [Eval.bind_of_ok done, Eval.bind_of_ok doneOn, item_eq untraced]

end

end Ground

/-! ## Lines -/

section Lines

variable {s : Settings} (untraced : s.tracing = false) {v : Ground} (deep : v.height ≤ s.depth) {id : String}
  (named : Lexeme id.toList (.name id))
include untraced deep named

/-- A line that assigns the printed form of a ground value stores what is read from it. -/
theorem Session.step_assign_text (session : Session) :
    ∃ reply stored store,
      session.step s (id ++ " := " ++ v.text) = (reply, ⟨session.bindings.insert id stored, store⟩) ∧
      reply.Succeeds ∧ session.store.Extends store ∧ v.LiesIn Ground.Read store stored := by
  have spelled : Spells (id ++ " := " ++ v.text).toList (.name id :: .sign .assign ":=" :: v.words) := by
    have value := v.spells .done (by simp)
    rw [List.append_nil, List.append_nil] at value
    have assigned : Spells (' ' :: ([':', '='] ++ ' ' :: v.text.toList)) (.sign .assign ":=" :: v.words) :=
      .blank (.inl rfl) (.lexeme (.sign (by decide)) (.before_blank _ _) (.blank (.inl rfl) value))
    simpa using Spells.lexeme named (.before_blank _ _) assigned
  obtain ⟨x, read, built⟩ := @Ground.readable s untraced none (by decide) v
  obtain ⟨t, store, done, grown, lies⟩ := built ⟨session.bindings, session.store, #[]⟩
  obtain ⟨shown, dumped⟩ := v.exists_dumped lies deep
  have parsed (tokens : List Token) (same : tokens.map Token.word = .name id :: .sign .assign ":=" :: v.words) :=
    parse_assign (.ofExpr untraced (Automaton.reduces_of_mem_closers (by decide)) read) same
  have assigned : (do
      let t ← x
      Meaning.assign s id t
      pure (.accepted (.done none)) : Eval (Parse.Outcome Meaning)) ⟨session.bindings, session.store, #[]⟩ =
        .ok (.accepted (.done none)) ⟨session.bindings.insert id t, store, #[.assigned id shown]⟩ := by
    rw [Eval.bind_of_ok done, Eval.bind_of_ok (Meaning.assign_eq id dumped)]
    rfl
  exact ⟨_, t, store, Session.step_of_parse spelled.scan_ofText parsed assigned, ⟨rfl, rfl⟩, grown, lies⟩

/-- A name that stands for what is read from a printed form prints in that form. -/
theorem Session.step_print_text {session : Session} {stored : Term}
    (found : session.bindings.find? id = some stored) (lies : v.LiesIn Ground.Read session.store stored) :
    (session.step s ("print " ++ id)).1 = ⟨[.line v.text], .ok none⟩ := by
  let w : World := ⟨session.bindings, session.store, #[]⟩
  have spelled : Spells ("print " ++ id).toList [.sign .printWord "print", .name id] := by
    have name : Spells id.toList [.name id] := by
      simpa using Spells.lexeme named (.before_end _) .done
    have word : Lexeme "print".toList (.sign .printWord "print") :=
      @Lexeme.word 'p' "rint".toList (by decide) (by decide)
    simpa using Spells.lexeme word (.before_blank _ _) (.blank (.inl rfl) name)
  have kept : v.LiesIn Ground.Read w.store stored := lies
  obtain ⟨u, store, simplified, grown, is⟩ := v.simplify_is untraced w.bindings kept deep
  have shown := v.printed_eq is deep
  have parsed (tokens : List Token) (same : tokens.map Token.word = [.sign .printWord "print", .name id]) :=
    parse_print (.ofExpr untraced (Automaton.reduces_of_mem_closers (by decide))
      (.ofTerm untraced (Automaton.reduces_of_mem_afterLoneTerm (by decide) (by decide))
        (.ofFactor untraced (Automaton.reduces_of_mem_afterFactor (by decide) (by decide))
          (.name (Automaton.reduces_of_mem_afterFactor (by decide) (by decide)) id)))) same
  have known : Meaning.name s id w = .ok stored w := Meaning.name_of_bound untraced found
  have printed : Meaning.print s stored w = .ok () ⟨session.bindings, store, #[.line v.text]⟩ := by
    have read : (get : Eval World) w = .ok w w := rfl
    have now : Meaning.simplifyNow s stored w = .ok u ⟨w.bindings, store, w.output⟩ := by
      rw [Meaning.simplifyNow, Eval.bind_of_ok read, simplified]
    rw [Meaning.print, Eval.bind_of_ok now, Eval.bind_of_ok (Eval.examine_of_ok shown), v.peel_text rfl]
    rfl
  have done : (do
      let t ← Meaning.name s id
      Meaning.print s t
      pure (.accepted (.done none)) : Eval (Parse.Outcome Meaning)) w =
        .ok (.accepted (.done none)) ⟨session.bindings, store, #[.line v.text]⟩ := by
    rw [Eval.bind_of_ok known, Eval.bind_of_ok printed]
    rfl
  have stepped : session.step s ("print " ++ id) = (⟨[.line v.text], .ok none⟩, ⟨session.bindings, store⟩) :=
    Session.step_of_parse spelled.scan_ofText parsed done
  rw [stepped]

end Lines

/-- The printed form of a ground value, wherever it lies, can be read back in every session, as long as evaluations
may nest as deeply as the value: the line that assigns it to a name succeeds, what is stored simplifies to a term
that is the same value, and the name prints in the same form. -/
theorem printed_reads_back {v : Ground} {given : Store} {t : Term} (is : v.Is given t) {s : Settings}
    (untraced : s.tracing = false) (deep : v.height ≤ s.depth) {id : String}
    (named : Lexeme id.toList (.name id)) (session : Session) :
    ∃ text reply stored store, t.printed given s.depth = .ok text ∧
      session.step s (id ++ " := " ++ text) = (reply, ⟨session.bindings.insert id stored, store⟩) ∧
      reply.Succeeds ∧ session.store.Extends store ∧
      (∃ u w, simplify s (session.bindings.insert id stored) s.depth stored
          ⟨session.bindings.insert id stored, store, #[]⟩ = .ok u w ∧ v.Is w.store u) ∧
      (Session.step s ⟨session.bindings.insert id stored, store⟩ ("print " ++ id)).1 =
        ⟨[.line text], .ok none⟩ := by
  obtain ⟨reply, stored, store, stepped, succeeds, grown, lies⟩ :=
    Session.step_assign_text untraced deep named session
  let after : World := ⟨session.bindings.insert id stored, store, #[]⟩
  have kept : v.LiesIn Ground.Read after.store stored := lies
  obtain ⟨u, last, simplified, -, same⟩ := v.simplify_is untraced after.bindings kept deep
  refine ⟨v.text, reply, stored, store, v.printed_eq is deep, stepped, succeeds, grown,
    ⟨u, _, simplified, same⟩, ?_⟩
  exact Session.step_print_text untraced deep named (Bindings.find?_insert_self id stored session.bindings) lies

/-- A list of a negative number, of a string that holds other signs, and of an empty list. -/
theorem printed_reads_back_of_nested : ∃ reply stored store,
    Session.fresh.step ⟨false, 3⟩ "x := [ -5, \x22a, [#\x22, [  ] ]" = (reply, ⟨[("x", stored)], store⟩) ∧
      reply.Succeeds ∧ (Session.step ⟨false, 3⟩ ⟨[("x", stored)], store⟩ "print x").1 =
        ⟨[.line "[ -5, \x22a, [#\x22, [  ] ]"], .ok none⟩ := by
  let v : Ground := .list [.number (-5) (by decide +kernel), .string "a, [#" (by decide +kernel), .list []]
  let given : Store := ⟨#[[], [.int (.int (-5)), .string (.text "a, [#"), .list 0]], #[]⟩
  have is : v.Is given (.list 1) := ⟨1, by decide, rfl, rfl, rfl, ⟨0, by decide, rfl, trivial⟩, trivial⟩
  have named : Lexeme "x".toList (.name "x") := @Lexeme.word 'x' [] (by decide) (by decide)
  have text : v.text = "[ -5, \x22a, [#\x22, [  ] ]" := by decide +kernel
  have deep : v.height ≤ (⟨false, 3⟩ : Settings).depth := by decide +kernel
  obtain ⟨shown, reply, stored, store, printed, stepped, succeeds, -, -, prints⟩ :=
    printed_reads_back is rfl deep named Session.fresh
  rw [v.printed_eq is deep, text] at printed
  obtain rfl := Except.ok.inj printed
  exact ⟨reply, stored, store, stepped, succeeds, prints⟩

end DotLambda
