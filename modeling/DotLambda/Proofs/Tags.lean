import DotLambda.Proofs.Coverage
import DotLambda.Proofs.Preservation

/-!
What the kinds of literals tell. Main statement: in every session whose lines come only to booleans in `and`
and `or`, all literals hold what their kind tells. In the others a string literal still holds a text, an
integer literal an integer or a text, and a boolean literal a boolean, an integer or a text.
-/

namespace DotLambda

open Eval

variable {past : Past} {w : World} {s : Settings}

/-! ## Tokens -/

/-- Whether a token of a kind may be the symbol of an operator. -/
def Kind.admits (op : Operator) : Kind → Bool
  | .addOp | .multOp => op.isArithmetic
  | .equalOp | .compareOp => op.isComparison
  | _ => true

/-- A token that stands for what its kind tells: a number, a text, or the symbol of an operator. -/
structure Token.Sound (t : Token) : Prop where
  number : t.kind = .number → ∃ n, t.content = .number n
  string : t.kind = .string → ∃ s, t.content = .text s
  operator : t.kind.admits (.ofSymbol t.text) = true

private theorem Segment.admits_of_sign :
    ∀ sign ∈ signs, sign.2.admits (.ofSymbol (String.ofList sign.1)) = true := by
  decide

private theorem Kind.admits_ofWord (word : String) (op : Operator) : (Kind.ofWord word).admits op = true :=
  Kind.forall_ofWord (p := fun kind => kind.admits op = true) word rfl (by simp [Kind.keywords, Kind.admits])

/-- A token that characters write stands for what its kind tells. -/
private theorem Lexeme.sound {chars : List Char} {w : Word} (writes : Lexeme chars w) {t : Token} (is : t.word = w) :
    t.Sound := by
  have kind := Token.kind_of_word is
  have content : t.content = w.content := by rw [← is, Token.word]
  cases writes with
  | number => exact ⟨fun _ => ⟨_, content⟩, by simp [kind, Word.number], by rw [kind]; rfl⟩
  | string => exact ⟨by simp [kind, Word.string], fun _ => ⟨_, content⟩, by rw [kind]; rfl⟩
  | word =>
    refine ⟨fun number => ?_, fun string => ?_, ?_⟩
    · exact absurd (kind.symm.trans number) (Kind.ofWord_ne _).1
    · exact absurd (kind.symm.trans string) (Kind.ofWord_ne _).2
    · rw [kind]
      exact Kind.admits_ofWord _ _
  | sign listed =>
    refine ⟨fun number => ?_, fun string => ?_, ?_⟩
    · exact absurd (kind.symm.trans number) (Segment.sign_kind_ne _ listed).1
    · exact absurd (kind.symm.trans string) (Segment.sign_kind_ne _ listed).2
    · rw [kind, Token.text_of_word is]
      exact Segment.admits_of_sign _ listed

/-- Whether a token may be in the line that is being read, with its text if it is a name or a string. -/
def Past.allows (past : Past) (t : Token) : Bool :=
  past.reads t.kind && (past.texts t.text || (t.kind ≠ .identifier && t.kind ≠ .string))

/-- A token that stands for what its kind tells and may be in the line that is being read. -/
structure Token.Fair (past : Past) (t : Token) : Prop where
  sound : t.Sound
  allowed : past.allows t = true

namespace Token.Fair

variable {t : Token} {kind : Kind} (fair : t.Fair past) (is : t.kind = kind)
include fair is

theorem reads : past.reads kind = true := by
  rw [← is]
  exact (Bool.and_eq_true_iff.1 fair.allowed).1

theorem seen : past.seen kind = true := past.seen_of_reads kind (fair.reads is)

theorem admits : kind.admits (.ofSymbol t.text) = true := by
  rw [← is]
  exact fair.sound.operator

theorem named (texts : kind = .identifier ∨ kind = .string) : past.texts t.text = true := by
  have allowed := (Bool.and_eq_true_iff.1 fair.allowed).2
  rcases texts with rfl | rfl <;> simpa [is] using allowed

end Token.Fair

/-- The tokens of a text stand for what their kinds tell. -/
theorem Scan.sound_ofText {line : String} {t : Token} (member : .token t ∈ (ofText line).items) : t.Sound := by
  obtain ⟨chars, writes⟩ := lexeme_ofText member
  exact writes.sound rfl

/-! ## Expressions -/

namespace Meaning

theorem upholds_traceRule {rule : String} {shown : Store → Except Error String} (honest : w.Honest past)
    (foreseen : Foreseen (shown w.store)) : Upholds past w (traceRule s rule shown) fun _ => True :=
  .trace honest foreseen.map

theorem upholds_traceDumped {rule : String} {t : Term} (honest : w.Honest past) (fine : t.Honest past) :
    Upholds past w (traceDumped s rule t) fun _ => True :=
  upholds_traceRule honest (fine.dumped honest)

theorem upholds_simplifyNow {t : Term} (honest : w.Honest past) (fine : t.Honest past) :
    UpholdsTerm past w (simplifyNow s t) :=
  .get (Simplify.upholds_simplify honest honest.bindings fine)

variable {lhs rhs : Term} {op : Operator}

theorem upholds_arithmetic (counts : op.isArithmetic = true) (honest : w.Honest past)
    (left : lhs.Honest past) (right : rhs.Honest past) :
    UpholdsTerm past w (arithmetic s lhs op rhs) := by
  have known : op.isKnown = true := by rw [Operator.isKnown, counts]; rfl
  unfold arithmetic
  split
  · refine Simplify.upholds_literal honest (left.value rfl) (right.value rfl) fun {_ d} computed => ?_
    cases left with
    | int holds admitted =>
      have fine := Simplify.honest_literal known (Simplify.mixed_of_isNumber holds) admitted
        (right.value rfl).admitted computed
      rwa [Simplify.literal, counts] at fine
  · exact .make honest (.operation left known right)

/-- A comparison of data is honest, whatever they are. -/
private theorem upholds_compared {l r : Datum} (compares : op.isComparison = true) (honest : w.Honest past)
    (left : past.Holds l) (right : past.Holds r) :
    UpholdsTerm past w (do let result ← Eval.apply s op l r; Eval.make s (.bool result)) := by
  have known : op.isKnown = true := by rw [Operator.isKnown, compares, Bool.or_true]
  refine Simplify.upholds_literal honest left right fun computed => ?_
  rcases Operator.apply_cases known computed with ⟨-, b, rfl⟩ | ⟨counts, -⟩ | ⟨rfl, -⟩
  · exact .bool rfl (past.admits_of_not_text rfl)
  · rw [Operator.isArithmetic_of_isComparison compares] at counts
    cases counts
  · cases compares

theorem upholds_comparison (compares : op.isComparison = true) (honest : w.Honest past)
    (left : lhs.Honest past) (right : rhs.Honest past) :
    UpholdsTerm past w (comparison s lhs op rhs) := by
  have known : op.isKnown = true := by rw [Operator.isKnown, compares, Bool.or_true]
  unfold comparison
  split
  · exact upholds_compared compares honest (left.value rfl) (right.value rfl)
  · exact .make honest (.operation left known right)

theorem upholds_equality (compares : op.isComparison = true) (honest : w.Honest past)
    (left : lhs.Honest past) (right : rhs.Honest past) :
    UpholdsTerm past w (equality s lhs op rhs) := by
  have known : op.isKnown = true := by rw [Operator.isKnown, compares, Bool.or_true]
  unfold equality
  split
  · exact upholds_compared compares honest (left.value rfl) (right.value rfl)
  · exact upholds_compared compares honest (left.value rfl) (right.value rfl)
  · exact .make honest (.operation left known right)

theorem upholds_conditional {condition yes no : Term} (honest : w.Honest past)
    (first : condition.Honest past) (second : yes.Honest past) (third : no.Honest past) :
    UpholdsTerm past w (conditional s condition yes no) := by
  unfold conditional
  split
  · refine .pure honest ?_
    split
    · exact second
    · exact third
  · exact .make honest (.conditional first second third)

theorem upholds_chain {first rest : Term} (honest : w.Honest past) (here : first.Honest past)
    (later : rest.Honest past) : UpholdsTerm past w (chain s first rest) := by
  refine Upholds.bind (.make honest (.chain ?_)) fun t _ honest made => upholds_simplifyNow honest made
  split
  · cases later with
    | chain each => exact List.forall_mem_cons.2 ⟨here, each⟩
  · exact List.forall_mem_cons.2 ⟨here, List.forall_mem_singleton.2 later⟩

theorem upholds_name {id : String} (honest : w.Honest past) (named : past.texts id = true) :
    UpholdsTerm past w (name s id) := by
  refine .get ?_
  split
  · rename_i t bound
    have fine := honest.bindings.find? bound
    exact (upholds_traceRule honest (fine.printed honest).map).bind fun _ _ honest _ => .pure honest fine
  · exact (upholds_traceRule honest (.pure id)).bind fun _ _ honest _ => .make honest (.name named)

/-- The value of an honest literal is a boolean, an integer or a text, and no other term has one. -/
theorem upholds_valueOf {t : Term} (logic : past.Logic) (honest : w.Honest past) (fine : t.Honest past) :
    Upholds past w (valueOf s t) past.Holds := by
  refine (upholds_simplifyNow honest fine).bind fun u _ honest fine => ?_
  cases value : u.value with
  | ok d => exact .pure honest (fine.value value)
  | error e =>
    have fails : e = .noPart "Value" "value" := by
      cases fine with
      | int | bool | string => cases value
      | name | function | operation | conditional | chain | list =>
        cases value
        rfl
    subst fails
    exact .fail honest (.valueless logic)

/-- A boolean literal can be dumped whatever value it holds. -/
private theorem foreseen_dumped_bool {d : Datum} (truth : d.isTruth true = true) (store : Store) (depth : Nat) :
    Foreseen ((Term.bool d).dumped store depth) := by
  cases depth with
  | zero => exact .throw rfl
  | succ depth => exact (Datum.foreseen_texts (Term.wording store depth) truth).1.map

private theorem upholds_truth {x : Eval Datum} (upholds : Upholds past w x past.Holds) :
    Upholds past w (do let value ← x; Eval.make s (.bool value)) fun t => ∃ d, t = .bool d ∧ past.Holds d := by
  refine upholds.bind fun d after honest fine => ?_
  have quoted : Foreseen (Component.dumped after.store s.depth (.datum d)) :=
    (Datum.foreseen_texts (Term.wording after.store s.depth) fine.truth).2
  refine (Upholds.announce honest (List.forall_mem_singleton.2 quoted)).bind fun _ _ honest _ => ?_
  refine (Upholds.trace honest (foreseen_dumped_bool fine.truth _ _).map).bind fun _ _ honest _ => ?_
  exact .pure honest ⟨d, rfl, fine⟩

theorem upholds_conjunction (logic : past.Logic) (honest : w.Honest past) (left : lhs.Honest past)
    (right : rhs.Honest past) :
    Upholds past w (conjunction s lhs rhs) fun t => ∃ d, t = .bool d ∧ past.Holds d := by
  refine (upholds_valueOf logic honest left).bind fun l _ honest fine => ?_
  dsimp only
  split
  · exact upholds_truth (upholds_valueOf logic honest right)
  · exact upholds_truth (.pure honest fine)

theorem upholds_disjunction (logic : past.Logic) (honest : w.Honest past) (left : lhs.Honest past)
    (right : rhs.Honest past) :
    Upholds past w (disjunction s lhs rhs) fun t => ∃ d, t = .bool d ∧ past.Holds d := by
  refine (upholds_valueOf logic honest left).bind fun l _ honest fine => ?_
  dsimp only
  split
  · exact upholds_truth (.pure honest fine)
  · exact upholds_truth (upholds_valueOf logic honest right)

theorem upholds_negation {t : Term} (logic : past.Logic) (honest : w.Honest past) (fine : t.Honest past) :
    UpholdsTerm past w (negation s t) :=
  (upholds_valueOf logic honest fine).bind fun _ _ honest _ =>
    .make honest (.bool rfl (past.admits_of_not_text rfl))

theorem upholds_sign {symbol : String} {t : Term} (honest : w.Honest past) (fine : t.Honest past) :
    UpholdsTerm past w (sign s symbol t) := by
  unfold sign
  split
  · exact Upholds.bind (.make honest (.int rfl (past.admits_of_not_text rfl))) fun nought _ honest here =>
      .make honest (.operation here rfl fine)
  · exact .pure honest fine

/-! ## Lists -/

theorem upholds_notAList {α : Type} {function : String} {t : Term} {good : α → Prop} (honest : w.Honest past)
    (fine : t.Honest past) : Upholds past w (notAList s function t) good :=
  (Upholds.look honest (fine.printed honest)).bind fun _ _ honest _ => .throw honest rfl

theorem upholds_items {cell : Nat} (honest : w.Honest past) :
    UpholdsTerms past w (Eval.examine fun store => pure (store.items cell)) := by
  refine .examine honest (.pure _) ?_
  rintro _ ⟨⟩
  exact honest.items cell

theorem upholds_itemsOf {function : String} {t : Term} (honest : w.Honest past) (fine : t.Honest past) :
    UpholdsTerms past w (itemsOf s function t) := by
  refine (upholds_simplifyNow honest fine).bind fun t _ honest fine => ?_
  split
  · exact upholds_items honest
  · exact upholds_notAList honest fine

theorem upholds_head {t : Term} (honest : w.Honest past) (fine : t.Honest past) :
    UpholdsTerm past w (head s t) := by
  refine (upholds_itemsOf honest fine).bind fun items _ honest fine => ?_
  split
  · exact .throw honest rfl
  · exact .pure honest (fine _ List.mem_cons_self)

theorem upholds_tail {t : Term} (honest : w.Honest past) (fine : t.Honest past) :
    UpholdsTerm past w (tail s t) :=
  (upholds_itemsOf honest fine).bind fun _ _ honest fine =>
    .makeList honest fun t member => fine t (List.mem_of_mem_drop member)

theorem upholds_sort {t : Term} (sorts : past.reads .sortWord = true) (honest : w.Honest past)
    (fine : t.Honest past) :
    UpholdsTerm past w (sort s t) := by
  refine (upholds_itemsOf honest fine).bind fun items _ honest fine => .get ?_
  exact (Sorting.upholds_sortUpTo sorts honest honest.bindings fine).bind
    fun sorted _ honest fine => .makeList honest fine

/-- A text has a length. -/
theorem foreseen_length {d : Datum} (text : d.isText = true) : Foreseen d.length := by
  cases d with
  | text s => exact .pure s.length
  | none | bool | int | list | term => cases text

theorem upholds_length {t : Term} (honest : w.Honest past) (fine : t.Honest past) :
    UpholdsTerm past w (length s t) := by
  have counted {n : Nat} {after : World} (honest : after.Honest past) :
      UpholdsTerm past after (Eval.make s (.int (.int n))) :=
    .make honest (.int rfl (past.admits_of_not_text rfl))
  refine (upholds_simplifyNow honest fine).bind fun t _ honest fine => ?_
  split
  · exact (upholds_items honest).bind fun _ _ honest _ => counted honest
  · cases fine with
    | string holds =>
      refine Upholds.bind (.ofExcept honest (foreseen_length holds) fun _ _ => trivial) fun _ _ honest _ => ?_
      exact counted honest
  · exact upholds_notAList honest fine

theorem upholds_item {first rest : Term} (honest : w.Honest past) (here : first.Honest past) :
    UpholdsTerm past w (item s first rest) := by
  have listed {x : Eval (List Term)} (others : UpholdsTerms past w x) : UpholdsTerm past w (do
      let items ← x
      let t ← Eval.makeList s (first :: items)
      traceDumped s "Rule: expr COMMA comma_sep_list -> comma_sep_list" t
      pure t) := by
    refine others.bind fun items _ honest fine => ?_
    refine Upholds.bind (.makeList honest (List.forall_mem_cons.2 ⟨here, fine⟩)) fun t _ honest made => ?_
    exact (upholds_traceDumped honest made).bind fun _ _ honest _ => .pure honest made
  unfold item
  dsimp only
  split
  · exact listed (upholds_items honest)
  · exact listed (.pure honest fun _ member => nomatch member)

/-! ## Statements -/

theorem upholds_assign {id : String} {t : Term} (honest : w.Honest past) (fine : t.Honest past) :
    Upholds past w (assign s id t) fun _ => True := by
  refine (Upholds.look honest (fine.dumped honest)).bind fun _ _ honest _ => ?_
  refine (Upholds.emit honest).bind fun _ after honest _ => ?_
  exact ⟨⟨⟨honest.bindings.insert id fine, honest.items⟩, List.prefix_rfl⟩, trivial⟩

theorem upholds_print {t : Term} (honest : w.Honest past) (fine : t.Honest past) :
    Upholds past w (print s t) fun _ => True :=
  (upholds_simplifyNow honest fine).bind fun _ _ honest fine =>
    (Upholds.look honest (fine.printed honest)).bind fun _ _ honest _ => .emit honest

theorem upholds_dump (honest : w.Honest past) : Upholds past w (dump s) fun _ => True := by
  have bindings := honest.bindings
  refine .get (.forM honest fun _ honest entry member => ?_)
  have fine := bindings entry member
  exact (Upholds.look honest (fine.dumped honest)).bind fun _ _ honest _ => .emit honest

theorem upholds_append {id : String} {t : Term} (honest : w.Honest past) (fine : t.Honest past) :
    Upholds past w (append id t) fun _ => True := by
  refine .get ?_
  split
  · rename_i cell bound
    refine ⟨⟨⟨honest.bindings, fun other u member => ?_⟩, List.prefix_rfl⟩, trivial⟩
    by_cases same : other = cell
    · subst same
      by_cases old : other < w.store.size
      · rw [Store.items_append_self w.store t old, List.mem_append, List.mem_singleton] at member
        rcases member with before | rfl
        · exact honest.items other u before
        · exact fine
      · rw [Store.items_of_le (by rw [Store.size_append]; exact Nat.not_lt.1 old)] at member
        cases member
    · rw [Store.items_append_of_ne w.store t same] at member
      exact honest.items other u member
  · exact .throw honest rfl
  · exact .throw honest rfl

/-! ## Rules -/

/-- An honest meaning of a symbol. -/
inductive Honest (past : Past) : Symbol → Meaning → Prop where
  | token {t : Token} (fair : t.Fair past) : Honest past (.terminal t.kind) (.token t)
  | term {phrase : Nonterminal} {t : Term} (other : phrase ≠ .statement) (fine : t.Honest past) :
      Honest past (.nonterminal phrase) (.term t)
  | done (result : Option Term) : Honest past (.nonterminal .statement) (.done result)

/-- Honest meanings of symbols in a row. -/
def HonestRow (past : Past) : List Symbol → List Meaning → Prop
  | [], row => row = []
  | .terminal kind :: symbols, row =>
    ∃ t rest, row = .token t :: rest ∧ (t.kind = kind ∧ t.Fair past) ∧ HonestRow past symbols rest
  | .nonterminal .statement :: symbols, row =>
    ∃ result rest, row = .done result :: rest ∧ HonestRow past symbols rest
  | .nonterminal _ :: symbols, row =>
    ∃ t rest, row = .term t :: rest ∧ t.Honest past ∧ HonestRow past symbols rest

theorem HonestRow.cons {symbol : Symbol} {symbols : List Symbol} {m : Meaning} {row : List Meaning}
    (honest : Honest past symbol m) (others : HonestRow past symbols row) :
    HonestRow past (symbol :: symbols) (m :: row) := by
  cases honest with
  | @token t fair => exact ⟨t, row, rfl, ⟨rfl, fair⟩, others⟩
  | done result => exact ⟨result, row, rfl, others⟩
  | @term phrase t other fine =>
    cases phrase with
    | statement => exact absurd rfl other
    | exprList | expr | term | factor | list | items => exact ⟨t, row, rfl, fine, others⟩

/-- Whether a meaning is a boolean literal that holds a boolean. -/
def isBoolean : Meaning → Bool
  | .term (.bool (.bool _)) => true
  | _ => false

/-- Whether a rule gives what it should: a boolean, where it is that of `and` or `or`. -/
def isLogical : Rule → Meaning → Bool
  | .conjunction, m | .disjunction, m => m.isBoolean
  | _, _ => true

variable {phrase : Nonterminal}

private theorem upholds_found (other : phrase ≠ .statement) {x : Eval Term} (upholds : UpholdsTerm past w x) :
    Upholds past w (do let t ← x; pure (.term t)) fun m => Honest past (.nonterminal phrase) m :=
  upholds.bind fun _ _ honest fine => .pure honest (.term other fine)

private theorem upholds_shown (other : phrase ≠ .statement) {x : Eval Term} {rule : String}
    (upholds : UpholdsTerm past w x) :
    Upholds past w (do let t ← x; traceDumped s rule t; pure (.term t))
      fun m => Honest past (.nonterminal phrase) m :=
  upholds.bind fun _ _ honest fine => (upholds_traceDumped honest fine).bind fun _ _ honest _ =>
    .pure honest (.term other fine)

private theorem upholds_told (other : phrase ≠ .statement) {rule : String}
    {shown : Store → Except Error String} {x : Eval Term}
    (upholds : ∀ after, after.Honest past → UpholdsTerm past after x) (honest : w.Honest past)
    (foreseen : Foreseen (shown w.store)) :
    Upholds past w (do traceRule s rule shown; let t ← x; pure (.term t))
      fun m => Honest past (.nonterminal phrase) m :=
  (upholds_traceRule honest foreseen).bind fun _ after honest _ => upholds_found other (upholds after honest)

private theorem upholds_passed (other : phrase ≠ .statement) {rule : String}
    {shown : Store → Except Error String} {t : Term} (honest : w.Honest past) (fine : t.Honest past)
    (foreseen : Foreseen (shown w.store)) :
    Upholds past w (do traceRule s rule shown; pure (.term t))
      fun m => Honest past (.nonterminal phrase) m :=
  (upholds_traceRule honest foreseen).bind fun _ _ honest _ => .pure honest (.term other fine)

private theorem upholds_done {x : Eval Unit} (upholds : Upholds past w x fun _ => True) :
    Upholds past w (do x; pure (.done none)) fun m => Honest past (.nonterminal .statement) m :=
  upholds.bind fun _ _ honest _ => .pure honest (.done none)

/-- A rule other than those of `and` and `or` gives an honest meaning out of honest ones. -/
theorem upholds_ofRule {rule : Rule} (other : rule ≠ .conjunction ∧ rule ≠ .disjunction) {row : List Meaning}
    (honest : w.Honest past) (fine : HonestRow past rule.rhs row) :
    Upholds past w (ofRule s rule row) fun m => Honest past (.nonterminal rule.lhs) m := by
  cases rule with
  | conjunction => exact absurd rfl other.1
  | disjunction => exact absurd rfl other.2
  | print =>
    obtain ⟨_, _, rfl, -, _, _, rfl, t, rfl⟩ := fine
    exact upholds_done (upholds_print honest t)
  | dump =>
    obtain ⟨_, _, rfl, -, rfl⟩ := fine
    exact upholds_done (upholds_dump honest)
  | assign =>
    obtain ⟨_, _, rfl, -, _, _, rfl, -, _, _, rfl, t, rfl⟩ := fine
    exact upholds_done (upholds_assign honest t)
  | append =>
    obtain ⟨_, _, rfl, -, _, _, rfl, -, _, _, rfl, -, _, _, rfl, -, _, _, rfl, t, rfl⟩ := fine
    exact (upholds_append honest t).bind fun _ _ honest _ => .pure honest (.done _)
  | lastInChain | termExpr =>
    obtain ⟨_, _, rfl, t, rfl⟩ := fine
    exact upholds_passed (by decide) honest t (t.printed honest)
  | factorTerm | listExpr =>
    obtain ⟨_, _, rfl, t, rfl⟩ := fine
    exact upholds_passed (by decide) honest t (t.dumped honest)
  | parenthesized =>
    obtain ⟨_, _, rfl, -, _, _, rfl, t, _, _, rfl, -, rfl⟩ := fine
    exact upholds_passed (by decide) honest t (t.printed honest)
  | listOf =>
    obtain ⟨_, _, rfl, -, _, _, rfl, t, _, _, rfl, -, rfl⟩ := fine
    exact upholds_passed (by decide) honest t (t.dumped honest)
  | chain =>
    obtain ⟨_, _, rfl, first, _, _, rfl, -, _, _, rfl, rest, rfl⟩ := fine
    exact upholds_shown (by decide) (upholds_chain honest first rest)
  | function =>
    obtain ⟨_, _, rfl, ⟨kind, fair⟩, _, _, rfl, ⟨is, named⟩, _, _, rfl, -, _, _, rfl, body, rfl⟩ := fine
    exact upholds_shown (by decide) (.make honest (.function (named.named is (.inl rfl)) body (fair.seen kind)))
  | sum | product =>
    obtain ⟨_, _, rfl, left, _, _, rfl, ⟨kind, fair⟩, _, _, rfl, right, rfl⟩ := fine
    exact upholds_shown (by decide) (upholds_arithmetic (fair.admits kind) honest left right)
  | equality =>
    obtain ⟨_, _, rfl, left, _, _, rfl, ⟨kind, fair⟩, _, _, rfl, right, rfl⟩ := fine
    exact upholds_shown (by decide) (upholds_equality (fair.admits kind) honest left right)
  | comparison =>
    obtain ⟨_, _, rfl, left, _, _, rfl, ⟨kind, fair⟩, _, _, rfl, right, rfl⟩ := fine
    exact upholds_shown (by decide) (upholds_comparison (fair.admits kind) honest left right)
  | conditional =>
    obtain ⟨_, _, rfl, -, _, _, rfl, condition, _, _, rfl, -, others⟩ := fine
    obtain ⟨_, _, rfl, yes, _, _, rfl, -, _, _, rfl, no, _, _, rfl, -, rfl⟩ := others
    exact upholds_shown (by decide) (upholds_conditional honest condition yes no)
  | number =>
    obtain ⟨t, _, rfl, ⟨kind, fair⟩, rfl⟩ := fine
    obtain ⟨n, content⟩ := fair.sound.number kind
    have literal : (Term.int t.datum).Honest past := by
      rw [Token.datum, content]
      exact .int rfl (past.admits_of_not_text rfl)
    refine upholds_told (by decide) (fun _ honest => .make honest literal) honest ?_
    rw [content]
    exact Datum.foreseen_decimal n
  | string =>
    obtain ⟨t, _, rfl, ⟨kind, fair⟩, rfl⟩ := fine
    obtain ⟨text, content⟩ := fair.sound.string kind
    have literal : (Term.string t.datum).Honest past := by
      have named := fair.named kind (.inr rfl)
      rw [Token.text, content] at named
      rw [Token.datum, content]
      refine .string rfl ?_
      rintro _ ⟨⟩
      exact ⟨fair.seen kind, named⟩
    exact upholds_found (by decide) (.make honest literal)
  | name =>
    obtain ⟨_, _, rfl, ⟨kind, fair⟩, rfl⟩ := fine
    exact upholds_found (by decide) (upholds_name honest (fair.named kind (.inl rfl)))
  | emptyList =>
    obtain ⟨_, _, rfl, -, _, _, rfl, -, rfl⟩ := fine
    exact upholds_told (by decide) (fun _ honest => .makeList honest (by simp)) honest (.pure _)
  | lastItem =>
    obtain ⟨_, _, rfl, t, rfl⟩ := fine
    exact upholds_told (by decide)
      (fun _ honest => .makeList honest (List.forall_mem_singleton.2 t)) honest
      (t.dumped honest).map
  | item =>
    obtain ⟨_, _, rfl, first, _, _, rfl, -, _, _, rfl, -, rfl⟩ := fine
    exact upholds_found (by decide) (upholds_item honest first)
  | head =>
    obtain ⟨_, _, rfl, -, _, _, rfl, -, _, _, rfl, t, rfl⟩ := fine
    exact upholds_found (by decide) (upholds_head honest t)
  | tail =>
    obtain ⟨_, _, rfl, -, _, _, rfl, -, _, _, rfl, t, rfl⟩ := fine
    exact upholds_found (by decide) (upholds_tail honest t)
  | sort =>
    obtain ⟨_, _, rfl, ⟨kind, fair⟩, _, _, rfl, -, _, _, rfl, t, rfl⟩ := fine
    exact upholds_found (by decide) (upholds_sort (fair.reads kind) honest t)
  | length =>
    obtain ⟨_, _, rfl, -, _, _, rfl, -, _, _, rfl, t, rfl⟩ := fine
    exact upholds_found (by decide) (upholds_length honest t)
  | sign =>
    obtain ⟨_, _, rfl, -, _, _, rfl, t, rfl⟩ := fine
    exact upholds_found (by decide) (upholds_sign honest t)
  | negation =>
    obtain ⟨_, _, rfl, ⟨kind, fair⟩, _, _, rfl, t, rfl⟩ := fine
    exact upholds_found (by decide) (upholds_negation (.inr (.inr (fair.reads kind))) honest t)

/-- The rules of `and` and `or` make a boolean literal, of whatever their operands come to. -/
theorem upholds_logic {rule : Rule} (logic : rule = .conjunction ∨ rule = .disjunction) {row : List Meaning}
    (honest : w.Honest past) (fine : HonestRow past rule.rhs row) :
    Upholds past w (ofRule s rule row) fun m => ∃ d, m = .term (.bool d) ∧ past.Holds d := by
  have found {x : Eval Term} (upholds : Upholds past w x fun t => ∃ d, t = .bool d ∧ past.Holds d) :
      Upholds past w (do let t ← x; pure (Meaning.term t)) fun m => ∃ d, m = .term (.bool d) ∧ past.Holds d := by
    refine upholds.bind ?_
    rintro _ after honest ⟨d, rfl, holds⟩
    exact .pure honest ⟨d, rfl, holds⟩
  rcases logic with rfl | rfl
  · obtain ⟨_, _, rfl, left, _, _, rfl, ⟨kind, fair⟩, _, _, rfl, right, rfl⟩ := fine
    exact found (upholds_conjunction (.inl (fair.reads kind)) honest left right)
  · obtain ⟨_, _, rfl, left, _, _, rfl, ⟨kind, fair⟩, _, _, rfl, right, rfl⟩ := fine
    exact found (upholds_disjunction (.inr (.inl (fair.reads kind))) honest left right)

/-- A rule gives an honest meaning out of honest ones, if it gives a boolean where it is that of `and` or
`or` and kinds may not be mixed. -/
theorem upholds_rule {rule : Rule} {row : List Meaning} (honest : w.Honest past)
    (fine : HonestRow past rule.rhs row) :
    Upholds past w (ofRule s rule row) fun m =>
      (past.mixed = false → isLogical rule m = true) → Honest past (.nonterminal rule.lhs) m := by
  by_cases other : rule ≠ .conjunction ∧ rule ≠ .disjunction
  · exact (upholds_ofRule other honest fine).mono fun _ honest _ => honest
  · have logic : rule = .conjunction ∨ rule = .disjunction := by
      by_cases first : rule = .conjunction
      · exact .inl first
      · exact .inr (by_contra fun second => other ⟨first, second⟩)
    refine (upholds_logic logic honest fine).mono ?_
    rintro _ ⟨d, rfl, holds⟩ logical
    have expression : rule.lhs ≠ .statement := by rcases logic with rfl | rfl <;> decide
    refine .term expression (.bool ?_ holds.admitted)
    cases mixed : past.mixed with
    | true => exact holds.truth
    | false =>
      have boolean : Meaning.isBoolean (.term (.bool d)) = true := by
        rcases logic with rfl | rfl <;> exact logical mixed
      cases d with
      | bool => rfl
      | none | int | text | list | term => cases boolean

end Meaning

/-! ## Lines -/

/-- Whether what comes after an evaluation passes, if it succeeds. -/
def Eval.lets {α : Type} (x : Eval α) (next : α → World → Bool) (w : World) : Bool :=
  match x w with
  | .ok a after => next a after
  | .error _ _ => true

theorem Eval.lets_of_ok {α : Type} {x : Eval α} {next : α → World → Bool} {a : α} {after : World}
    (ended : x w = .ok a after) : x.lets next w = next a after := by
  simp only [lets, ended]

namespace Parse

/-- Whether every meaning that a rule gives in a parse passes a test. -/
def passes {α : Type} (r : Reading Eval α) (test : Rule → α → Bool) :
    Nat → Configuration α → World → Bool
  | 0, _, _ => true
  | moves + 1, c, w =>
    match c.move r.leaf with
    | .advance c => passes r test moves c w
    | .stray character line c => (r.stray character line).lets (fun _ => passes r test moves c) w
    | .overlong digits c => (r.overlong digits).lets (fun _ => passes r test moves c) w
    | .reduce rule meanings state c =>
      (r.reduce rule meanings).lets (fun m w =>
        test rule m && passes r test moves (c.push (.nonterminal rule.lhs) state m) w) w
    | .recover t reported c =>
      (if reported then r.report (some t) else pure ()).lets (fun _ => passes r test moves c) w
    | .accept _ | .reject _ | .stuck => true

/-- A stage of a parse with honest meanings on its stack and fair tokens to come. -/
structure Configuration.Honest (past : Past) (c : Configuration Meaning) : Prop where
  stack : ∀ frame ∈ c.stack, Meaning.Honest past frame.symbol frame.meaning
  next : ∀ t, c.next = .token t → t.Fair past
  rest : ∀ t, .token t ∈ c.rest → t.Fair past

/-- A move to an honest stage, with honest meanings of the symbols of its rule. -/
def Move.Honest (past : Past) : Move Meaning → Prop
  | advance c | stray _ _ c | overlong _ c | recover _ _ c => c.Honest past
  | reduce rule row _ c => Meaning.HonestRow past rule.rhs row ∧ c.Honest past
  | accept _ | reject _ | stuck => True

namespace Configuration

variable {c : Configuration Meaning}

private theorem honestRow {frames : List (Frame Meaning)}
    (honest : ∀ frame ∈ frames, Meaning.Honest past frame.symbol frame.meaning) :
    Meaning.HonestRow past (frames.map Frame.symbol) (frames.map Frame.meaning) := by
  induction frames with
  | nil => rfl
  | cons frame rest ih =>
    rw [List.forall_mem_cons] at honest
    exact .cons honest.1 (ih honest.2)

theorem Honest.reduction (honest : c.Honest past) (rule : Rule) : (c.reduction rule).Honest past := by
  unfold Configuration.reduction
  split
  · trivial
  · rename_i meanings stack popped
    split
    · trivial
    · simp only [pop?] at popped
      split at popped
      · rename_i same
        simp only [Option.some.injEq, Prod.mk.injEq] at popped
        obtain ⟨rfl, rfl⟩ := popped
        have row := honestRow fun frame (member : frame ∈ (c.stack.take rule.rhs.length).reverse) =>
          honest.stack frame (List.mem_of_mem_take (List.mem_reverse.1 member))
        rw [same] at row
        exact ⟨row, fun frame member => honest.stack frame (List.mem_of_mem_drop member), honest.next, honest.rest⟩
      · cases popped

theorem Honest.look (honest : c.Honest past) : c.look.Honest past := by
  obtain ⟨stack, next, rest, grace⟩ := c
  cases rest with
  | nil => exact ⟨honest.stack, by rintro _ ⟨⟩, by rintro _ ⟨⟩⟩
  | cons item rest =>
    have others : ∀ t, .token t ∈ rest → t.Fair past := fun t member =>
      honest.rest t (List.mem_cons_of_mem item member)
    cases item with
    | token t =>
      refine ⟨honest.stack, ?_, others⟩
      rintro _ ⟨⟩
      exact honest.rest t List.mem_cons_self
    | stray character line => exact ⟨honest.stack, honest.next, others⟩
    | overlong digits => exact ⟨honest.stack, honest.next, others⟩

theorem Honest.before (honest : c.Honest past) {t : Token} (fair : t.Fair past) :
    (c.before .token t).Honest past := by
  unfold Configuration.before
  split
  · exact ⟨List.forall_mem_cons.2 ⟨.token fair, honest.stack⟩, by rintro _ ⟨⟩, honest.rest⟩
  · exact honest.reduction _
  · trivial
  · exact ⟨List.forall_mem_nil _, by rintro _ ⟨⟩, honest.rest⟩

/-- A move leads from an honest stage to an honest one. -/
theorem Honest.move (honest : c.Honest past) : (c.move .token).Honest past := by
  unfold Configuration.move
  split
  · exact honest.reduction _
  split
  · exact honest.look
  · rename_i t seen
    exact honest.before (honest.next t seen)
  · unfold atEnd
    split
    · trivial
    · exact honest.reduction _
    · split <;> trivial
    · trivial

end Configuration

end Parse

open Parse in
/-- A parse leaves the world honest, wherever it ends, if its uses of `and` and `or` give booleans or kinds
may be mixed. -/
theorem upholds_run (moves : Nat) {c : Configuration Meaning} (honest : w.Honest past) (fine : c.Honest past)
    (logical : past.mixed = false → passes (Meaning.reading s) Meaning.isLogical moves c w = true) :
    Upholds past w (run (Meaning.reading s) moves c) fun _ => True := by
  induction moves generalizing w c with
  | zero => exact .pure honest trivial
  | succ moves ih =>
    have stages : (c.move (Meaning.reading s).leaf).Honest past := fine.move
    rw [run]
    unfold passes at logical
    generalize c.move (Meaning.reading s).leaf = move at stages logical ⊢
    cases move with
    | advance next => exact ih honest stages logical
    | stray character line next =>
      refine (Upholds.emit honest).sequence fun _ after ended honest _ => ?_
      cases ended
      exact ih honest stages logical
    | overlong digits next => exact .throw honest rfl
    | reduce rule row state next =>
      refine (Meaning.upholds_rule honest stages.1).sequence fun m after ended honest given => ?_
      have passed (strict : past.mixed = false) : Meaning.isLogical rule m = true ∧
          passes (Meaning.reading s) Meaning.isLogical moves
            (next.push (.nonterminal rule.lhs) state m) after = true := by
        have whole : (Meaning.ofRule s rule row).lets _ w = true := logical strict
        rwa [lets_of_ok ended, Bool.and_eq_true] at whole
      have meaning := given fun strict => (passed strict).1
      refine ih honest ⟨?_, stages.2.next, stages.2.rest⟩ fun strict => (passed strict).2
      exact List.forall_mem_cons.2 ⟨meaning, stages.2.stack⟩
    | recover t reported next =>
      cases reported with
      | true =>
        refine (Upholds.emit honest).sequence fun _ after ended honest _ => ?_
        cases ended
        exact ih honest stages logical
      | false => exact ih honest stages logical
    | accept meaning => exact .pure honest trivial
    | reject reported =>
      cases reported with
      | true => exact (Upholds.emit honest).bind fun _ _ honest _ => .pure honest trivial
      | false => exact .pure honest trivial
    | stuck => exact .pure honest trivial

namespace Session

/-- Whether all that `and` and `or` come to in a line are booleans. -/
def isLogical (s : Settings) (session : Session) (line : String) : Bool :=
  let c := Parse.Configuration.start (Scan.ofText line).items
  Parse.passes (Meaning.reading s) Meaning.isLogical (c.weight + 1) c ⟨session.bindings, session.store, #[]⟩

/-- The sessions to which lines lead in which all that `and` and `or` come to are booleans. -/
inductive Logical : Session → Prop where
  | fresh : Logical fresh
  | step {session : Session} (reached : Logical session) (s : Settings) {line : String}
      (logical : session.isLogical s line = true) : Logical (session.step s line).2

theorem honest_fresh : fresh.Honest past where
  bindings _ member := nomatch member
  items _ _ member := nomatch member

/-- The tokens of a line may be read. -/
def Allows (past : Past) (line : String) : Prop :=
  ∀ t, .token t ∈ (Scan.ofText line).items → past.allows t = true

theorem Allows.start {line : String} (allows : Allows past line) :
    (Parse.Configuration.start (Scan.ofText line).items).Honest past :=
  ⟨List.forall_mem_nil _, by rintro _ ⟨⟩, fun t member => ⟨Scan.sound_ofText member, allows t member⟩⟩

theorem Honest.evaluation {session : Session} (honest : session.Honest past) (s : Settings) {line : String}
    (allows : Allows past line) (logical : past.mixed = false → session.isLogical s line = true) :
    Upholds past ⟨session.bindings, session.store, #[]⟩ (evaluation s line) fun _ => True := by
  have parsed := upholds_run (w := ⟨session.bindings, session.store, #[]⟩) _ honest allows.start logical
  exact parsed.bind fun _ _ honest _ => .pure honest trivial

theorem Honest.step {session : Session} (honest : session.Honest past) (s : Settings) {line : String}
    (allows : Allows past line) (logical : past.mixed = false → session.isLogical s line = true) :
    (session.step s line).2.Honest past := by
  unfold Session.step
  rcases (upholds_iff.1 (honest.evaluation s allows logical)).run with
    ⟨_, after, ended, upheld, -⟩ | ⟨_, after, ended, upheld, -⟩
  · exact ended ▸ upheld.honest
  · exact ended ▸ upheld.honest

theorem Reachable.honest {session : Session} (reachable : session.Reachable) : session.Honest (.any true) := by
  induction reachable with
  | fresh => exact honest_fresh
  | step reached s line ih => exact ih.step s (fun _ _ => rfl) nofun

theorem Logical.honest {session : Session} (reached : session.Logical) : session.Honest (.any false) := by
  induction reached with
  | fresh => exact honest_fresh
  | step reached s logical ih => exact ih.step s (fun _ _ => rfl) fun _ => logical

theorem Honest.tagHolds {session : Session} (honest : session.Honest past) {id : String} {t u : Term}
    (bound : session.bindings.find? id = some t) (leads : session.store.Leads t u) :
    u.tagHolds past.mixed = true :=
  ((honest.bindings.find? bound).leads honest.items leads).tagHolds

end Session

/-- Whatever the variables of a session lead to holds what its kind tells, or nearly so: a string literal holds
a text, an integer literal an integer or a text, and a boolean literal a boolean, an integer or a text. Where
all that `and` and `or` have come to are booleans, an integer literal holds an integer and a boolean literal a
boolean. -/
theorem tags_hold {session : Session} (reachable : session.Reachable) {id : String} {t u : Term}
    (bound : session.bindings.find? id = some t) (leads : session.store.Leads t u) :
    u.tagHolds true = true ∧ (session.Logical → u.tagHolds false = true) :=
  ⟨reachable.honest.tagHolds bound leads, fun logical => logical.honest.tagHolds bound leads⟩

/-- A list of a conjunction and a number. -/
theorem tags_hold_of_list : ∃ (session : Session) (t u : Term),
    session = (Session.fresh.step ⟨false, Session.usualDepth⟩ "x := [(1 < 2) and (2 < 3), 4]").2 ∧
    session.Logical ∧ session.bindings.find? "x" = some t ∧ u ∈ session.store.parts t ∧ u.kind = "bool" ∧
    u.tagHolds false = true := by
  have reachable := Session.Reachable.step .fresh ⟨false, Session.usualDepth⟩ "x := [(1 < 2) and (2 < 3), 4]"
  have logical : (Session.fresh.step ⟨false, Session.usualDepth⟩ "x := [(1 < 2) and (2 < 3), 4]").2.Logical :=
    .step .fresh ⟨false, Session.usualDepth⟩ (by decide +kernel)
  have found : ((Session.fresh.step ⟨false, Session.usualDepth⟩ "x := [(1 < 2) and (2 < 3), 4]").2.bindings.find?
      "x").map (fun t => ((Session.fresh.step ⟨false, Session.usualDepth⟩
        "x := [(1 < 2) and (2 < 3), 4]").2.store.parts t).map Term.kind) = some ["bool", "int"] := by
    decide +kernel
  generalize same : (Session.fresh.step ⟨false, Session.usualDepth⟩ "x := [(1 < 2) and (2 < 3), 4]").2 = session
    at reachable logical found
  obtain ⟨t, bound, kinds⟩ := Option.map_eq_some_iff.1 found
  cases parts : session.store.parts t with
  | nil =>
    rw [parts] at kinds
    cases kinds
  | cons u rest =>
    rw [parts] at kinds
    have member : u ∈ session.store.parts t := by simp [parts]
    have holds := tags_hold reachable bound (.part member (.self u))
    exact ⟨session, t, u, rfl, logical, bound, member, (List.cons.inj kinds).1, holds.2 logical⟩

/-- A boolean literal may hold a number, and an integer literal a text. -/
theorem tags_differ :
    ((Session.fresh.step ⟨false, Session.usualDepth⟩ "x := 1 and 2").2.Reachable ∧
      ((Session.fresh.step ⟨false, Session.usualDepth⟩ "x := 1 and 2").2.bindings.find? "x").map
        (Term.tagHolds false) = some false) ∧
    (Session.fresh.step ⟨false, Session.usualDepth⟩
        "x := head . [(\x22a\x22 and \x22b\x22) + (\x22c\x22 and \x22d\x22)]").2.Reachable ∧
      ((Session.fresh.step ⟨false, Session.usualDepth⟩
        "x := head . [(\x22a\x22 and \x22b\x22) + (\x22c\x22 and \x22d\x22)]").2.bindings.find? "x").map
        (Term.tagHolds false) = some false :=
  ⟨⟨.step .fresh _ _, by decide +kernel⟩, .step .fresh _ _, by decide +kernel⟩

end DotLambda
