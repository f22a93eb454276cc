import DotLambda.Proofs.Application
import DotLambda.Proofs.Coverage
import DotLambda.Proofs.Rearrangement

/-!
Trees for what the grammar derives. The automaton finds one derivation of the words of a sequence, and each rule
that it uses there builds a tree from those of its parts. Main statement: words write a tree if and only if the grammar
derives them as a sequence.
-/

namespace DotLambda

/-! ## Words that can be written -/

/-- Some characters write a word. -/
def Word.Lexical (w : Word) : Prop := ∃ chars, Lexeme chars w

/-- The kinds of the signs of operators. -/
def Kind.operators : List Kind := [.addOp, .multOp, .equalOp, .compareOp]

theorem Kind.ofWord_not_mem_operators (word : String) : Kind.ofWord word ∉ operators :=
  Kind.forall_ofWord (p := (· ∉ operators)) word (by decide) (by decide)

theorem Segment.exists_dyad : ∀ sign ∈ signs, sign.2 ∈ Kind.operators →
    ∃ op : Dyad, op.word = .sign sign.2 (String.ofList sign.1) := by
  simp only [signs, List.forall_mem_cons]
  refine ⟨?_, ?_, ?_, ?_, ?_, ?_, fun _ => ⟨.add, rfl⟩, fun _ => ⟨.sub, rfl⟩, fun _ => ⟨.mul, rfl⟩,
    fun _ => ⟨.div, rfl⟩, fun _ => ⟨.eq, rfl⟩, fun _ => ⟨.ne, rfl⟩, fun _ => ⟨.ge, rfl⟩, fun _ => ⟨.le, rfl⟩,
    fun _ => ⟨.gt, rfl⟩, fun _ => ⟨.lt, rfl⟩, ?_, ?_, ?_, ?_⟩ <;> simp [Kind.operators]

namespace Word.Lexical

variable {w : Word} (lexical : w.Lexical)
include lexical

theorem exists_number (is : w.kind = .number) : ∃ n, w = .number n := by
  obtain ⟨chars, writes⟩ := lexical
  cases writes with
  | number => exact ⟨_, rfl⟩
  | string => cases is
  | word => exact absurd is (Kind.ofWord_ne _).1
  | sign listed => exact absurd is (Segment.sign_kind_ne _ listed).1

theorem exists_sign (other : w.kind ≠ .number) : ∃ text, w = .sign w.kind text := by
  obtain ⟨chars, writes⟩ := lexical
  cases writes with
  | number => exact absurd rfl other
  | string | word | sign => exact ⟨_, rfl⟩

theorem exists_dyad (operates : w.kind ∈ Kind.operators) : ∃ op : Dyad, w = op.word := by
  obtain ⟨chars, writes⟩ := lexical
  cases writes with
  | number | string => simp [Word.number, Word.string, Kind.operators] at operates
  | word => exact absurd operates (Kind.ofWord_not_mem_operators _)
  | sign listed =>
    obtain ⟨op, is⟩ := Segment.exists_dyad _ listed operates
    exact ⟨op, is.symm⟩

end Word.Lexical

/-! ## Trees of phrases -/

/-- The form of the trees of a phrase. -/
def Nonterminal.form : Nonterminal → Form
  | exprList => .sequence
  | items => .items
  | _ => .expression

/-- Words before a follower are read as a phrase with the value of a tree. -/
def HasTree (phrase : Nonterminal) (follower : Option Kind) (words : List Word) : Prop :=
  ∃ e : Phrase phrase.form, ∀ s : Settings, s.tracing = false →
    ReadsTerm s phrase follower words (e.evaluate s)

/-- Words in a row before a follower that are the tokens and write the trees of symbols. -/
inductive TreeRow (follower : Option Kind) : List Symbol → List Word → Prop
  | nil : TreeRow follower [] []
  | word {w : Word} {kind : Kind} {symbols : List Symbol} {words : List Word} (lexical : w.Lexical)
      (is : w.kind = kind) (rest : TreeRow follower symbols words) :
      TreeRow follower (.terminal kind :: symbols) (w :: words)
  | phrase {phrase : Nonterminal} {symbols : List Symbol} {front words : List Word}
      (tree : HasTree phrase ((words.head?.map Word.kind).or follower) front)
      (rest : TreeRow follower symbols words) : TreeRow follower (.nonterminal phrase :: symbols) (front ++ words)

/-- A sequence as what an expression is applied to. -/
def Phrase.asArguments : Phrase .sequence → Phrase .arguments
  | alone only => argument only
  | application first rest => arguments first rest

theorem Phrase.evaluate_asArguments (s : Settings) (e : Phrase .sequence) :
    e.asArguments.evaluate s = e.evaluate s := by
  cases e <;> rfl

namespace TreeRow

variable {follower : Option Kind} {symbols : List Symbol} {words : List Word} {a b : Nonterminal} {kind : Kind}

theorem alone (row : TreeRow follower [.nonterminal a] words) : HasTree a follower words := by
  cases row with
  | phrase tree rest =>
    cases rest
    simpa using tree

theorem opened (row : TreeRow follower (.terminal kind :: symbols) words) (other : kind ≠ .number) :
    ∃ text rest, words = .sign kind text :: rest ∧ TreeRow follower symbols rest := by
  cases row with
  | word lexical is rest =>
    subst is
    obtain ⟨text, is⟩ := lexical.exists_sign other
    exact ⟨text, _, by rw [← is], rest⟩

theorem token (row : TreeRow follower [.terminal kind] words) (other : kind ≠ .number) :
    ∃ text, words = [.sign kind text] := by
  obtain ⟨text, rest, rfl, none⟩ := row.opened other
  cases none
  exact ⟨text, rfl⟩

theorem parted (row : TreeRow follower (.nonterminal a :: .terminal kind :: symbols) words)
    (other : kind ≠ .number) : ∃ front text rest, words = front ++ .sign kind text :: rest ∧
      HasTree a (some kind) front ∧ TreeRow follower symbols rest := by
  cases row with
  | @phrase _ _ front _ tree row =>
    obtain ⟨text, rest, rfl, after⟩ := row.opened other
    exact ⟨front, text, rest, rfl, tree, after⟩

theorem operated (row : TreeRow follower [.nonterminal a, .terminal kind, .nonterminal b] words)
    (operates : kind ∈ Kind.operators) : ∃ front op back, words = front ++ Dyad.word op :: back ∧
      op.word.kind = kind ∧ HasTree a (some kind) front ∧ HasTree b follower back := by
  cases row with
  | @phrase _ _ front _ tree row =>
    cases row with
    | word lexical is rest =>
      subst is
      obtain ⟨op, rfl⟩ := lexical.exists_dyad operates
      exact ⟨front, op, _, rfl, rfl, tree, rest.alone⟩

/-! ## The rules, one by one -/

open Automaton

/-- The tree of a function that is called by a word of its own. -/
theorem builtin {rule : Rule} (f : Builtin)
    (shape : rule.rhs = [.terminal f.word.kind, .terminal .dot, .nonterminal .expr])
    (means : ∀ (s : Settings) (t u : Token) (a : Term), Meaning.ofRule s rule [.token t, .token u, .term a] =
      (do let t ← f.evaluate s a; pure (.term t)))
    (row : TreeRow follower rule.rhs words) (reduces : Reduces rule follower) :
    ∃ e : Phrase .expression, ∀ s : Settings, s.tracing = false →
      ReadsTerm s rule.lhs follower words (e.evaluate s) := by
  rw [shape] at row
  obtain ⟨text, _, rfl, linked⟩ := row.opened (by cases f <;> decide)
  obtain ⟨dot, _, rfl, last⟩ := linked.opened (by decide)
  obtain ⟨e, reads⟩ := last.alone
  exact ⟨.builtin f e, fun s untraced => .called rule (f.evaluate s ·) shape reduces (means s) (reads s untraced)⟩

theorem expr {rule : Rule} (forms : rule.lhs = .expr) (row : TreeRow follower rule.rhs words)
    (reduces : Reduces rule follower) : HasTree .expr follower words := by
  cases rule with
  | negation =>
    obtain ⟨text, _, rfl, last⟩ := row.opened (by decide)
    obtain ⟨e, reads⟩ := last.alone
    exact ⟨.negation e, fun s untraced => .negation reduces (reads s untraced)⟩
  | disjunction =>
    obtain ⟨front, text, _, rfl, ⟨lhs, left⟩, last⟩ := row.parted (by decide)
    obtain ⟨rhs, right⟩ := last.alone
    exact ⟨.dyad .either lhs rhs, fun s untraced => .disjunction reduces (left s untraced) (right s untraced)⟩
  | conjunction =>
    obtain ⟨front, text, _, rfl, ⟨lhs, left⟩, last⟩ := row.parted (by decide)
    obtain ⟨rhs, right⟩ := last.alone
    exact ⟨.dyad .both lhs rhs, fun s untraced => .conjunction reduces (left s untraced) (right s untraced)⟩
  | listExpr =>
    obtain ⟨e, reads⟩ := row.alone
    exact ⟨e, fun s untraced => .ofList untraced reduces (reads s untraced)⟩
  | termExpr =>
    obtain ⟨e, reads⟩ := row.alone
    exact ⟨e, fun s untraced => .ofTerm untraced reduces (reads s untraced)⟩
  | comparison =>
    obtain ⟨front, op, back, rfl, is, ⟨lhs, left⟩, ⟨rhs, right⟩⟩ := row.operated (by decide)
    refine ⟨.dyad op lhs rhs, fun s untraced => ?_⟩
    cases op with
    | lt => exact .comparison untraced reduces "<" (left s untraced) (right s untraced)
    | le => exact .comparison untraced reduces "<=" (left s untraced) (right s untraced)
    | gt => exact .comparison untraced reduces ">" (left s untraced) (right s untraced)
    | ge => exact .comparison untraced reduces ">=" (left s untraced) (right s untraced)
    | _ => cases is
  | equality =>
    obtain ⟨front, op, back, rfl, is, ⟨lhs, left⟩, ⟨rhs, right⟩⟩ := row.operated (by decide)
    refine ⟨.dyad op lhs rhs, fun s untraced => ?_⟩
    cases op with
    | eq => exact .equality untraced reduces "==" (left s untraced) (right s untraced)
    | ne => exact .equality untraced reduces "!=" (left s untraced) (right s untraced)
    | _ => cases is
  | sum =>
    obtain ⟨front, op, back, rfl, is, ⟨lhs, left⟩, ⟨rhs, right⟩⟩ := row.operated (by decide)
    refine ⟨.dyad op lhs rhs, fun s untraced => ?_⟩
    cases op with
    | add => exact .sum untraced reduces "+" (left s untraced) (right s untraced)
    | sub => exact .sum untraced reduces "-" (left s untraced) (right s untraced)
    | _ => cases is
  | conditional =>
    obtain ⟨text, _, rfl, inner⟩ := row.opened (by decide)
    obtain ⟨_, middle, _, rfl, ⟨condition, decides⟩, branches⟩ := inner.parted (by decide)
    obtain ⟨_, second, _, rfl, ⟨yes, chosen⟩, last⟩ := branches.parted (by decide)
    obtain ⟨_, closing, _, rfl, ⟨no, other⟩, none⟩ := last.parted (by decide)
    cases none
    exact ⟨.conditional condition yes no, fun s untraced =>
      .conditional untraced reduces (decides s untraced) (chosen s untraced) (other s untraced)⟩
  | function =>
    obtain ⟨text, _, rfl, named⟩ := row.opened (by decide)
    obtain ⟨parameter, _, rfl, linked⟩ := named.opened (by decide)
    obtain ⟨middle, _, rfl, last⟩ := linked.opened (by decide)
    obtain ⟨body, reads⟩ := last.alone
    exact ⟨.function parameter (.group body), fun s untraced => .function untraced reduces parameter (reads s untraced)⟩
  | _ => cases forms

theorem term {rule : Rule} (forms : rule.lhs = .term) (row : TreeRow follower rule.rhs words)
    (reduces : Reduces rule follower) : HasTree .term follower words := by
  cases rule with
  | factorTerm =>
    obtain ⟨e, reads⟩ := row.alone
    exact ⟨e, fun s untraced => .ofFactor untraced reduces (reads s untraced)⟩
  | product =>
    obtain ⟨front, op, back, rfl, is, ⟨lhs, left⟩, ⟨rhs, right⟩⟩ := row.operated (by decide)
    refine ⟨.dyad op lhs rhs, fun s untraced => ?_⟩
    cases op with
    | mul => exact .product untraced reduces "*" (left s untraced) (right s untraced)
    | div => exact .product untraced reduces "/" (left s untraced) (right s untraced)
    | _ => cases is
  | _ => cases forms

theorem factor {rule : Rule} (forms : rule.lhs = .factor) (row : TreeRow follower rule.rhs words)
    (reduces : Reduces rule follower) : HasTree .factor follower words := by
  cases rule with
  | length => exact row.builtin .length rfl (fun _ _ _ _ => rfl) reduces
  | sort => exact row.builtin .sort rfl (fun _ _ _ _ => rfl) reduces
  | tail => exact row.builtin .tail rfl (fun _ _ _ _ => rfl) reduces
  | head => exact row.builtin .head rfl (fun _ _ _ _ => rfl) reduces
  | sign =>
    cases row with
    | word lexical is row =>
      obtain ⟨op, rfl⟩ := lexical.exists_dyad (by rw [is]; decide)
      obtain ⟨e, reads⟩ := row.alone
      cases op with
      | add => exact ⟨.sign false e, fun s untraced => .sign reduces "+" (reads s untraced)⟩
      | sub => exact ⟨.sign true e, fun s untraced => .sign reduces "-" (reads s untraced)⟩
      | _ => cases is
  | parenthesized =>
    obtain ⟨opening, _, rfl, inner⟩ := row.opened (by decide)
    obtain ⟨_, closing, _, rfl, ⟨e, reads⟩, none⟩ := inner.parted (by decide)
    cases none
    exact ⟨.group e, fun s untraced => .parenthesized untraced reduces (reads s untraced)⟩
  | name =>
    obtain ⟨id, rfl⟩ := row.token (by decide)
    exact ⟨.name id, fun s _ => .name reduces id⟩
  | string =>
    obtain ⟨text, rfl⟩ := row.token (by decide)
    exact ⟨.string text, fun s _ => .string reduces text⟩
  | number =>
    cases row with
    | word lexical is row =>
      obtain ⟨n, rfl⟩ := lexical.exists_number is
      cases row
      exact ⟨.number n, fun s untraced => .number untraced reduces n⟩
  | _ => cases forms

theorem list {rule : Rule} (forms : rule.lhs = .list) (row : TreeRow follower rule.rhs words)
    (reduces : Reduces rule follower) : HasTree .list follower words := by
  cases rule with
  | listOf =>
    obtain ⟨opening, _, rfl, inner⟩ := row.opened (by decide)
    obtain ⟨_, closing, _, rfl, ⟨e, reads⟩, none⟩ := inner.parted (by decide)
    cases none
    exact ⟨.list e, fun s untraced => .listOf untraced reduces (reads s untraced)⟩
  | emptyList =>
    obtain ⟨opening, _, rfl, last⟩ := row.opened (by decide)
    obtain ⟨closing, rfl⟩ := last.token (by decide)
    exact ⟨.emptyList, fun s untraced => .emptyList untraced reduces⟩
  | _ => cases forms

theorem items {rule : Rule} (forms : rule.lhs = .items) (row : TreeRow follower rule.rhs words)
    (reduces : Reduces rule follower) : HasTree .items follower words := by
  cases rule with
  | item =>
    obtain ⟨front, text, _, rfl, ⟨first, reads⟩, last⟩ := row.parted (by decide)
    obtain ⟨rest, others⟩ := last.alone
    exact ⟨.items first rest, fun s untraced => .item reduces (reads s untraced) (others s untraced)⟩
  | lastItem =>
    obtain ⟨e, reads⟩ := row.alone
    exact ⟨.item e, fun s untraced => .lastItem untraced reduces (reads s untraced)⟩
  | _ => cases forms

theorem exprList {rule : Rule} (forms : rule.lhs = .exprList) (row : TreeRow follower rule.rhs words)
    (reduces : Reduces rule follower) : HasTree .exprList follower words := by
  cases rule with
  | lastInChain =>
    obtain ⟨e, reads⟩ := row.alone
    exact ⟨.alone e, fun s untraced => .ofExpr untraced reduces (reads s untraced)⟩
  | chain =>
    obtain ⟨front, text, _, rfl, ⟨first, reads⟩, last⟩ := row.parted (by decide)
    obtain ⟨(rest : Phrase .sequence), others⟩ := last.alone
    refine ⟨.application first rest.asArguments, fun s untraced => ?_⟩
    refine .chain untraced reduces (reads s untraced) ?_
    rw [Phrase.evaluate_asArguments]
    exact others s untraced
  | _ => cases forms

/-- A rule builds the tree of its phrase from those of its parts. -/
theorem hasTree {rule : Rule} (value : rule.lhs ≠ .statement) (row : TreeRow follower rule.rhs words)
    (reduces : Reduces rule follower) : HasTree rule.lhs follower words := by
  cases forms : rule.lhs with
  | statement => exact absurd forms value
  | exprList => exact row.exprList forms reduces
  | expr => exact row.expr forms reduces
  | term => exact row.term forms reduces
  | factor => exact row.factor forms reduces
  | list => exact row.list forms reduces
  | items => exact row.items forms reduces

end TreeRow

/-! ## Derivations -/

/-- The words of the tokens of pieces. -/
def Piece.words (pieces : List Piece) : List Word := pieces.map fun p => p.token.word

/-- What the automaton finds has a tree for each phrase in it. -/
theorem Derivation.treeRow {symbols : List Symbol} (d : Derivation symbols) {follower : Option Kind}
    (values : Symbol.nonterminal .statement ∉ symbols) (lexical : ∀ w ∈ Piece.words d.pieces, w.Lexical)
    (fits : d.Fits follower) : TreeRow follower symbols (Piece.words d.pieces) := by
  induction d generalizing follower with
  | nil => exact .nil
  | read p is rest ih =>
    simp only [List.mem_cons, not_or] at values
    simp only [pieces, Piece.words, List.map_cons, List.forall_mem_cons] at lexical
    exact .word lexical.1 is (ih values.2 lexical.2 fits)
  | use rule forms parts rest partsIh ih =>
    subst forms
    simp only [List.mem_cons, not_or] at values
    simp only [pieces, Piece.words, List.map_append, List.forall_mem_append] at lexical
    obtain ⟨partsFit, reduces, restFits⟩ := fits
    have value : rule.lhs ≠ .statement := fun same => values.1 (by rw [same])
    have other : rule ≠ .dump := by
      rintro rfl
      exact value rfl
    have opening : (Piece.words rest.pieces).head?.map Word.kind = Piece.opening rest.pieces := by
      rw [Piece.words, List.head?_map, Option.map_map]
      rfl
    have row := partsIh (Automaton.dumpless other).1 lexical.1 partsFit
    rw [pieces, Piece.words, List.map_append]
    refine .phrase ?_ (ih values.2 lexical.2 restFits)
    rw [← Piece.words, opening]
    exact row.hasTree value reduces

/-- Words that the grammar derives as a sequence. -/
def IsSequence (words : List Word) : Prop :=
  Derives [.nonterminal .exprList] (words.map fun w => .terminal w.kind)

theorem IsSequence.exists_writtenAs {words : List Word} (derived : IsSequence words)
    (lexical : ∀ w ∈ words, w.Lexical) : ∃ e : Phrase .sequence, e.WrittenAs words := by
  let ps : List Piece := words.map fun w => .bare ⟨w.kind, w.content, 0, 0⟩
  have same : Piece.words ps = words := by simp [ps, Piece.words, Function.comp_def, Piece.bare, Token.word]
  have kinds : (ps.map fun p => Symbol.terminal p.kind) = words.map fun w => .terminal w.kind := by
    simp [ps, Function.comp_def, Piece.kind, Piece.bare]
  have derived : Derives [.nonterminal .exprList] (ps.map fun p => .terminal p.kind) := by rwa [kinds]
  obtain ⟨d, pieces⟩ := Derivation.exists_of_derives derived
  obtain ⟨settled, settles, settledPieces⟩ := d.exists_settled
  have found := (settled.settled_singleton).1 settles (some .rightParen) (by decide)
  have row := settled.treeRow (by decide) (by rwa [settledPieces, pieces, same]) found
  rw [settledPieces, pieces, same] at row
  exact row.alone

theorem Phrase.WrittenAs.isSequence {e : Phrase .sequence} {words : List Word} (written : e.WrittenAs words) :
    IsSequence words := by
  let tokens : List Token := words.map fun w => ⟨w.kind, w.content, 0, 0⟩
  have same : tokens.map Token.word = words := by simp [tokens, Function.comp_def, Token.word]
  obtain ⟨d, pieces, -⟩ := written ⟨false, 0⟩ rfl tokens same
  have derived := d.derives
  rw [pieces] at derived
  simpa [IsSequence, tokens, Function.comp_def, Piece.kind, Piece.bare] using derived

/-- Words write a tree if and only if the grammar derives them as a sequence. -/
theorem isSequence_iff_writtenAs {words : List Word} (lexical : ∀ w ∈ words, w.Lexical) :
    IsSequence words ↔ ∃ e : Phrase .sequence, e.WrittenAs words := by
  constructor
  · intro derived
    exact derived.exists_writtenAs lexical
  · rintro ⟨e, written⟩
    exact written.isSequence

end DotLambda
