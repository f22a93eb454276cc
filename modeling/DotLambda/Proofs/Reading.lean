import DotLambda.Meaning
import DotLambda.Proofs.Run

/-!
What words are read as. Words are read as a phrase with an evaluation if the automaton finds a derivation
of the phrase from every tokens with these words, and it comes to that evaluation. Main statements: how
readings are put together, rule by rule, and what is parsed when words are read as a statement.
-/

namespace DotLambda

/-- A token without its place. -/
structure Word where
  kind : Kind
  content : Content
deriving DecidableEq

namespace Word

def number (n : Nat) : Word := ⟨.number, .number n⟩

def string (s : String) : Word := ⟨.string, .text s⟩

def name (x : String) : Word := ⟨.identifier, .text x⟩

/-- A sign or a keyword. -/
def sign (kind : Kind) (text : String) : Word := ⟨kind, .text text⟩

end Word

/-- The word that a token is. -/
def Token.word (t : Token) : Word := ⟨t.kind, t.content⟩

theorem Token.kind_of_word {t : Token} {w : Word} (same : t.word = w) : t.kind = w.kind := by
  rw [← same, Token.word]

theorem Token.text_of_word {t : Token} {kind : Kind} {text : String} (same : t.word = .sign kind text) :
    t.text = text := by
  have content : t.content = .text text := congrArg Word.content same
  simp [Token.text, content]

/-- Tokens are read as symbols before a follower, which comes to an evaluation of their meanings. -/
def Reads (s : Settings) (symbols : List Symbol) (follower : Option Kind) (tokens : List Token)
    (x : Eval (List Meaning)) : Prop :=
  ∃ d : Derivation symbols, d.pieces = tokens.map Piece.bare ∧ d.Fits follower ∧
    d.meanings (Meaning.reading s) = x

namespace Reads

theorem nil (s : Settings) (follower : Option Kind) : Reads s [] follower [] (pure []) :=
  ⟨.nil, rfl, trivial, rfl⟩

variable {s : Settings} {symbols : List Symbol} {follower : Option Kind} {tokens : List Token}

theorem token {x : Eval (List Meaning)} {t : Token} {kind : Kind} (is : t.kind = kind)
    (rest : Reads s symbols follower tokens x) :
    Reads s (.terminal kind :: symbols) follower (t :: tokens)
      (do let others ← x; pure (.token t :: others)) := by
  obtain ⟨d, pieces, fits, rfl⟩ := rest
  exact ⟨.read (.bare t) is d, by simp [Derivation.pieces, pieces], fits,
    by simp [Derivation.meanings, Piece.bare, Meaning.reading]⟩

theorem append {x : Eval (List Meaning)} {y : Eval (List Meaning)} {phrase : Nonterminal}
    {front : List Token}
    (first : Reads s [.nonterminal phrase] ((tokens.head?.map Token.kind).or follower) front x)
    (rest : Reads s symbols follower tokens y) :
    Reads s (.nonterminal phrase :: symbols) follower (front ++ tokens)
      (do let meanings ← x; let others ← y; pure (meanings ++ others)) := by
  obtain ⟨d, pieces, fits, rfl⟩ := first
  obtain ⟨after, afterPieces, afterFits, rfl⟩ := rest
  refine ⟨d.append after, ?_, ?_, ?_⟩
  · rw [Derivation.pieces_append, pieces, afterPieces, List.map_append]
  · have opening : Piece.opening after.pieces = tokens.head?.map Token.kind := by
      rw [afterPieces]
      cases tokens <;> rfl
    exact (Derivation.fits_append ..).2 ⟨opening ▸ fits, afterFits⟩
  · rw [Derivation.meanings_append]

/-- The symbols of a rule are read as its phrase, which comes to what the rule makes of them. -/
theorem use (rule : Rule) {x : Eval (List Meaning)} (parts : Reads s rule.rhs follower tokens x)
    (reduces : Automaton.Reduces rule follower) :
    Reads s [.nonterminal rule.lhs] follower tokens
      (do let meaning ← x >>= Meaning.ofRule s rule; pure [meaning]) := by
  obtain ⟨d, pieces, fits, rfl⟩ := parts
  refine ⟨.use rule rfl d .nil, by simp [Derivation.pieces, pieces], ⟨fits, reduces, trivial⟩, ?_⟩
  simp [Derivation.meanings, Meaning.reading]

end Reads

/-- Words are read as a phrase before a follower, which comes to an evaluation of a term. -/
def ReadsTerm (s : Settings) (phrase : Nonterminal) (follower : Option Kind) (words : List Word)
    (x : Eval Term) : Prop :=
  ∀ tokens : List Token, tokens.map Token.word = words →
    Reads s [.nonterminal phrase] follower tokens (do let t ← x; pure [.term t])

namespace ReadsTerm

variable {s : Settings} {follower : Option Kind} {words front : List Word} {x y : Eval Term}

/-- A phrase alone is read as another one. -/
theorem alone (rule : Rule) (f : Term → Eval Term) {inner : Nonterminal}
    (shape : rule.rhs = [.nonterminal inner]) (reduces : Automaton.Reduces rule follower)
    (means : ∀ a, Meaning.ofRule s rule [.term a] = (do let t ← f a; pure (.term t)))
    (only : ReadsTerm s inner follower words x) :
    ReadsTerm s rule.lhs follower words (x >>= f) := by
  intro tokens spelled
  have read := Reads.use rule (shape ▸ only tokens spelled) reduces
  simpa [means] using read

/-- A single token. -/
theorem single (rule : Rule) {w : Word} (shape : rule.rhs = [.terminal w.kind])
    (reduces : Automaton.Reduces rule follower)
    (means : ∀ t : Token, t.word = w →
      Meaning.ofRule s rule [.token t] = (do let t ← x; pure (.term t))) :
    ReadsTerm s rule.lhs follower [w] x := by
  intro tokens spelled
  obtain ⟨t, rfl, is⟩ := List.map_eq_singleton_iff.1 spelled
  have read := Reads.use rule (shape ▸ Reads.token (Token.kind_of_word is) (.nil s follower)) reduces
  simpa [means t is] using read

/-- A phrase after a token. -/
theorem opened (rule : Rule) (f : Term → Eval Term) {inner : Nonterminal} {w : Word}
    (shape : rule.rhs = [.terminal w.kind, .nonterminal inner])
    (reduces : Automaton.Reduces rule follower)
    (means : ∀ t : Token, t.word = w → ∀ a,
      Meaning.ofRule s rule [.token t, .term a] = (do let t ← f a; pure (.term t)))
    (last : ReadsTerm s inner follower words x) :
    ReadsTerm s rule.lhs follower (w :: words) (x >>= f) := by
  intro tokens spelled
  obtain ⟨t, others, rfl, is, same⟩ := List.map_eq_cons_iff.1 spelled
  have read := Reads.use rule
    (shape ▸ Reads.token (Token.kind_of_word is) (last others same)) reduces
  simpa [means t is] using read

/-- Two phrases with a token between them. -/
theorem linked (rule : Rule) (f : Term → Term → Eval Term) {left right : Nonterminal} {w : Word}
    (shape : rule.rhs = [.nonterminal left, .terminal w.kind, .nonterminal right])
    (reduces : Automaton.Reduces rule follower)
    (means : ∀ t : Token, t.word = w → ∀ a b,
      Meaning.ofRule s rule [.term a, .token t, .term b] = (do let t ← f a b; pure (.term t)))
    (first : ReadsTerm s left (some w.kind) front x) (last : ReadsTerm s right follower words y) :
    ReadsTerm s rule.lhs follower (front ++ w :: words) (do let a ← x; let b ← y; f a b) := by
  intro tokens spelled
  obtain ⟨opening, rest, rfl, same, spelled⟩ := List.map_eq_append_iff.1 spelled
  obtain ⟨t, others, rfl, is, spelled⟩ := List.map_eq_cons_iff.1 spelled
  have kind := Token.kind_of_word is
  have parts := Reads.append (by simpa [kind] using first opening same)
    (Reads.token kind (last others spelled))
  have read := Reads.use rule (shape ▸ parts) reduces
  simpa [means t is] using read

/-- A phrase between two tokens. -/
theorem enclosed (rule : Rule) (f : Term → Eval Term) {inner : Nonterminal} {opening closing : Word}
    (shape : rule.rhs = [.terminal opening.kind, .nonterminal inner, .terminal closing.kind])
    (reduces : Automaton.Reduces rule follower)
    (means : ∀ t u : Token, ∀ a,
      Meaning.ofRule s rule [.token t, .term a, .token u] = (do let t ← f a; pure (.term t)))
    (within : ReadsTerm s inner (some closing.kind) words x) :
    ReadsTerm s rule.lhs follower (opening :: (words ++ [closing])) (x >>= f) := by
  intro tokens spelled
  obtain ⟨t, rest, rfl, opens, spelled⟩ := List.map_eq_cons_iff.1 spelled
  obtain ⟨inside, last, rfl, same, spelled⟩ := List.map_eq_append_iff.1 spelled
  obtain ⟨u, rfl, closes⟩ := List.map_eq_singleton_iff.1 spelled
  have kind := Token.kind_of_word closes
  have parts := Reads.token (Token.kind_of_word opens) (Reads.append
    (by simpa [kind] using within inside same)
    (Reads.token kind (.nil s follower)))
  have read := Reads.use rule (shape ▸ parts) reduces
  simpa [means] using read

/-- An expression after a word and a dot. -/
theorem called (rule : Rule) (f : Term → Eval Term) {w dot : Word}
    (shape : rule.rhs = [.terminal w.kind, .terminal dot.kind, .nonterminal .expr])
    (reduces : Automaton.Reduces rule follower)
    (means : ∀ t u : Token, ∀ a,
      Meaning.ofRule s rule [.token t, .token u, .term a] = (do let t ← f a; pure (.term t)))
    (argument : ReadsTerm s .expr follower words x) :
    ReadsTerm s rule.lhs follower (w :: dot :: words) (x >>= f) := by
  intro tokens spelled
  obtain ⟨t, rest, rfl, is, spelled⟩ := List.map_eq_cons_iff.1 spelled
  obtain ⟨u, others, rfl, links, spelled⟩ := List.map_eq_cons_iff.1 spelled
  have parts := Reads.token (Token.kind_of_word is)
    (Reads.token (Token.kind_of_word links) (argument others spelled))
  have read := Reads.use rule (shape ▸ parts) reduces
  simpa [means] using read

/-- Three expressions between four words. -/
theorem decided (rule : Rule) (f : Term → Term → Term → Eval Term) {opening middle second closing : Word}
    {condition yes no : List Word} {x y z : Eval Term}
    (shape : rule.rhs = [.terminal opening.kind, .nonterminal .expr, .terminal middle.kind,
      .nonterminal .expr, .terminal second.kind, .nonterminal .expr, .terminal closing.kind])
    (reduces : Automaton.Reduces rule follower)
    (means : ∀ t u v w : Token, ∀ a b c,
      Meaning.ofRule s rule [.token t, .term a, .token u, .term b, .token v, .term c, .token w] =
        (do let t ← f a b c; pure (.term t)))
    (first : ReadsTerm s .expr (some middle.kind) condition x)
    (chosen : ReadsTerm s .expr (some second.kind) yes y)
    (other : ReadsTerm s .expr (some closing.kind) no z) :
    ReadsTerm s rule.lhs follower
      (opening :: (condition ++ middle :: (yes ++ second :: (no ++ [closing]))))
      (do let a ← x; let b ← y; let c ← z; f a b c) := by
  intro tokens spelled
  obtain ⟨t, rest, rfl, opens, spelled⟩ := List.map_eq_cons_iff.1 spelled
  obtain ⟨conditionTokens, rest, rfl, ofCondition, spelled⟩ := List.map_eq_append_iff.1 spelled
  obtain ⟨u, rest, rfl, turns, spelled⟩ := List.map_eq_cons_iff.1 spelled
  obtain ⟨yesTokens, rest, rfl, ofYes, spelled⟩ := List.map_eq_append_iff.1 spelled
  obtain ⟨v, rest, rfl, turnsAgain, spelled⟩ := List.map_eq_cons_iff.1 spelled
  obtain ⟨noTokens, rest, rfl, ofNo, spelled⟩ := List.map_eq_append_iff.1 spelled
  obtain ⟨w, rfl, closes⟩ := List.map_eq_singleton_iff.1 spelled
  have closingKind := Token.kind_of_word closes
  have secondKind := Token.kind_of_word turnsAgain
  have middleKind := Token.kind_of_word turns
  have afterNo := Reads.append (by simpa [closingKind] using other noTokens ofNo)
    (Reads.token closingKind (.nil s follower))
  have afterYes := Reads.append (by simpa [secondKind] using chosen yesTokens ofYes)
    (Reads.token secondKind afterNo)
  have parts := Reads.token (Token.kind_of_word opens) (Reads.append
    (by simpa [middleKind] using first conditionTokens ofCondition) (Reads.token middleKind afterYes))
  have read := Reads.use rule (shape ▸ parts) reduces
  simpa [means] using read

/-- A phrase after a word, a name and another word. -/
theorem bound (rule : Rule) (f : Term → Eval Term) {inner : Nonterminal} {opening middle : Word}
    {name : String} (shape : rule.rhs =
      [.terminal opening.kind, .terminal .identifier, .terminal middle.kind, .nonterminal inner])
    (reduces : Automaton.Reduces rule follower)
    (means : ∀ t u v : Token, u.text = name → ∀ a,
      Meaning.ofRule s rule [.token t, .token u, .token v, .term a] =
        (do let t ← f a; pure (.term t)))
    (last : ReadsTerm s inner follower words x) :
    ReadsTerm s rule.lhs follower (opening :: .name name :: middle :: words) (x >>= f) := by
  intro tokens spelled
  obtain ⟨t, rest, rfl, opens, spelled⟩ := List.map_eq_cons_iff.1 spelled
  obtain ⟨u, rest, rfl, named, spelled⟩ := List.map_eq_cons_iff.1 spelled
  obtain ⟨v, rest, rfl, turns, spelled⟩ := List.map_eq_cons_iff.1 spelled
  have parts := Reads.token (Token.kind_of_word opens) (Reads.token (Token.kind_of_word named)
    (Reads.token (Token.kind_of_word turns) (last rest spelled)))
  have read := Reads.use rule (shape ▸ parts) reduces
  simpa [means t u v (Token.text_of_word named)] using read

end ReadsTerm

/-! ## Without tracing -/

section Untraced

variable {s : Settings} (untraced : s.tracing = false)
include untraced

theorem Eval.trace_untraced (color : Color) (text : Store → Except Error String) :
    Eval.trace s color text = pure () := by
  simp [Eval.trace, untraced]

theorem Eval.make_untraced (t : Term) : Eval.make s t = pure t := by
  simp [Eval.make, Eval.announce, Eval.announceResult, Eval.trace_untraced untraced]

theorem Meaning.traceRule_untraced (rule : String) (shown : Store → Except Error String) :
    Meaning.traceRule s rule shown = pure () :=
  Eval.trace_untraced untraced ..

/-- What is traced after a term has been found does not matter. -/
theorem Meaning.bind_traceRule (x : Eval Term) (rule : String)
    (shown : Term → Store → Except Error String) :
    (do let t ← x; traceRule s rule (shown t); pure (.term t)) =
      (do let t ← x; pure (Meaning.term t)) := by
  simp [traceRule_untraced untraced]

theorem Meaning.name_of_bound {w : World} {id : String} {t : Term} (found : w.bindings.find? id = some t) :
    name s id w = .ok t w := by
  have read : (get : Eval World) w = .ok w w := rfl
  rw [name, Eval.bind_of_ok read]
  simp only [found, traceRule_untraced untraced, pure_bind]
  rfl

theorem Meaning.name_of_unbound {w : World} {id : String} (found : w.bindings.find? id = none) :
    name s id w = .ok (.name id) w := by
  have read : (get : Eval World) w = .ok w w := rfl
  rw [name, Eval.bind_of_ok read]
  simp only [found, traceRule_untraced untraced, Eval.make_untraced untraced, pure_bind]
  rfl

end Untraced

/-! ## The rules, one by one -/

namespace ReadsTerm

open Automaton Meaning

variable {s : Settings} {follower : Option Kind} {words front : List Word} {x y z : Eval Term}

theorem string (reduces : Reduces .string follower) (text : String) :
    ReadsTerm s .factor follower [.string text] (Eval.make s (.string (.text text))) := by
  refine single .string rfl reduces fun t is => ?_
  have content : t.content = .text text := congrArg Word.content is
  change (do let t ← Eval.make s (.string t.datum); pure (Meaning.term t)) = _
  rw [Token.datum, content]

theorem name (reduces : Reduces .name follower) (id : String) :
    ReadsTerm s .factor follower [.name id] (Meaning.name s id) := by
  refine single .name rfl reduces fun t is => ?_
  change (do let t ← Meaning.name s t.text; pure (Meaning.term t)) = _
  rw [Token.text_of_word is]

theorem sign (reduces : Reduces .sign follower) (symbol : String)
    (factor : ReadsTerm s .factor follower words x) :
    ReadsTerm s .factor follower (.sign .addOp symbol :: words)
      (do let a ← x; Meaning.sign s symbol a) := by
  refine opened .sign (Meaning.sign s symbol) rfl reduces (fun t is a => ?_) factor
  change (do let t ← Meaning.sign s t.text a; pure (Meaning.term t)) = _
  rw [Token.text_of_word is]

theorem negation (reduces : Reduces .negation follower) {text : String}
    (expr : ReadsTerm s .expr follower words x) :
    ReadsTerm s .expr follower (.sign .notWord text :: words) (do let a ← x; Meaning.negation s a) :=
  opened .negation (Meaning.negation s) rfl reduces (fun _ _ _ => rfl) expr

theorem conjunction (reduces : Reduces .conjunction follower) {text : String}
    (lhs : ReadsTerm s .expr (some .andWord) front x) (rhs : ReadsTerm s .expr follower words y) :
    ReadsTerm s .expr follower (front ++ .sign .andWord text :: words)
      (do let a ← x; let b ← y; Meaning.conjunction s a b) :=
  linked .conjunction (Meaning.conjunction s) rfl reduces (fun _ _ _ _ => rfl) lhs rhs

theorem disjunction (reduces : Reduces .disjunction follower) {text : String}
    (lhs : ReadsTerm s .expr (some .orWord) front x) (rhs : ReadsTerm s .expr follower words y) :
    ReadsTerm s .expr follower (front ++ .sign .orWord text :: words)
      (do let a ← x; let b ← y; Meaning.disjunction s a b) :=
  linked .disjunction (Meaning.disjunction s) rfl reduces (fun _ _ _ _ => rfl) lhs rhs

theorem item (reduces : Reduces .item follower) {text : String}
    (first : ReadsTerm s .expr (some .comma) front x) (rest : ReadsTerm s .items follower words y) :
    ReadsTerm s .items follower (front ++ .sign .comma text :: words)
      (do let a ← x; let b ← y; Meaning.item s a b) :=
  linked .item (Meaning.item s) rfl reduces (fun _ _ _ _ => rfl) first rest

section Untraced

variable (untraced : s.tracing = false)
include untraced

/-- A rule that only passes its phrase on, and says so when tracing. -/
theorem passed (rule : Rule) {inner : Nonterminal} {line : String}
    {shown : Term → Store → Except Error String} (shape : rule.rhs = [.nonterminal inner])
    (reduces : Reduces rule follower)
    (means : ∀ a, ofRule s rule [.term a] = (do traceRule s line (shown a); pure (.term a)))
    (only : ReadsTerm s inner follower words x) : ReadsTerm s rule.lhs follower words x := by
  have read := alone rule pure shape reduces
    (fun a => by rw [means, traceRule_untraced untraced, pure_bind, pure_bind]) only
  rwa [bind_pure] at read

theorem ofFactor (reduces : Reduces .factorTerm follower)
    (factor : ReadsTerm s .factor follower words x) : ReadsTerm s .term follower words x :=
  passed untraced .factorTerm rfl reduces (fun _ => rfl) factor

theorem ofTerm (reduces : Reduces .termExpr follower) (term : ReadsTerm s .term follower words x) :
    ReadsTerm s .expr follower words x :=
  passed untraced .termExpr rfl reduces (fun _ => rfl) term

theorem ofList (reduces : Reduces .listExpr follower) (list : ReadsTerm s .list follower words x) :
    ReadsTerm s .expr follower words x :=
  passed untraced .listExpr rfl reduces (fun _ => rfl) list

theorem ofExpr (reduces : Reduces .lastInChain follower)
    (expr : ReadsTerm s .expr follower words x) : ReadsTerm s .exprList follower words x :=
  passed untraced .lastInChain rfl reduces (fun _ => rfl) expr

theorem number (reduces : Reduces .number follower) (n : Nat) :
    ReadsTerm s .factor follower [.number n] (Eval.make s (.int (.int n))) := by
  refine single .number rfl reduces fun t is => ?_
  have content : t.content = .number n := congrArg Word.content is
  change (do traceRule s _ _; let t ← Eval.make s (.int t.datum); pure (Meaning.term t)) = _
  rw [traceRule_untraced untraced, pure_bind, Token.datum, content]

/-- A phrase in brackets, which is passed on. -/
theorem bracketed (rule : Rule) {inner : Nonterminal} {opening closing : Word} {line : String}
    {shown : Term → Store → Except Error String}
    (shape : rule.rhs = [.terminal opening.kind, .nonterminal inner, .terminal closing.kind])
    (reduces : Reduces rule follower)
    (means : ∀ t u : Token, ∀ a, ofRule s rule [.token t, .term a, .token u] =
      (do traceRule s line (shown a); pure (.term a)))
    (within : ReadsTerm s inner (some closing.kind) words x) :
    ReadsTerm s rule.lhs follower (opening :: (words ++ [closing])) x := by
  have read := enclosed rule pure shape reduces
    (fun t u a => by rw [means, traceRule_untraced untraced, pure_bind, pure_bind]) within
  rwa [bind_pure] at read

theorem parenthesized (reduces : Reduces .parenthesized follower) {opening closing : String}
    (within : ReadsTerm s .exprList (some .rightParen) words x) :
    ReadsTerm s .factor follower
      (.sign .leftParen opening :: (words ++ [.sign .rightParen closing])) x :=
  bracketed untraced .parenthesized rfl reduces (fun _ _ _ => rfl) within

theorem listOf (reduces : Reduces .listOf follower) {opening closing : String}
    (within : ReadsTerm s .items (some .rightBracket) words x) :
    ReadsTerm s .list follower
      (.sign .leftBracket opening :: (words ++ [.sign .rightBracket closing])) x :=
  bracketed untraced .listOf rfl reduces (fun _ _ _ => rfl) within

/-- An operator between two phrases. -/
theorem operated (rule : Rule) (f : Operator → Term → Term → Eval Term) {left right : Nonterminal}
    {kind : Kind} {line : String} {shown : Term → Store → Except Error String}
    (shape : rule.rhs = [.nonterminal left, .terminal kind, .nonterminal right])
    (reduces : Reduces rule follower)
    (means : ∀ t : Token, ∀ a b, ofRule s rule [.term a, .token t, .term b] =
      (do let t ← f (.ofSymbol t.text) a b; traceRule s line (shown t); pure (.term t)))
    (symbol : String) (lhs : ReadsTerm s left (some kind) front x)
    (rhs : ReadsTerm s right follower words y) :
    ReadsTerm s rule.lhs follower (front ++ .sign kind symbol :: words)
      (do let a ← x; let b ← y; f (.ofSymbol symbol) a b) := by
  refine linked rule (f (.ofSymbol symbol)) shape reduces (fun t is a b => ?_) lhs rhs
  rw [means, Token.text_of_word is, bind_traceRule untraced]

theorem sum (reduces : Reduces .sum follower) (symbol : String)
    (lhs : ReadsTerm s .expr (some .addOp) front x) (rhs : ReadsTerm s .term follower words y) :
    ReadsTerm s .expr follower (front ++ .sign .addOp symbol :: words)
      (do let a ← x; let b ← y; arithmetic s a (.ofSymbol symbol) b) :=
  operated untraced .sum (fun op a b => arithmetic s a op b) rfl reduces (fun _ _ _ => rfl) symbol lhs
    rhs

theorem product (reduces : Reduces .product follower) (symbol : String)
    (lhs : ReadsTerm s .term (some .multOp) front x) (rhs : ReadsTerm s .factor follower words y) :
    ReadsTerm s .term follower (front ++ .sign .multOp symbol :: words)
      (do let a ← x; let b ← y; arithmetic s a (.ofSymbol symbol) b) :=
  operated untraced .product (fun op a b => arithmetic s a op b) rfl reduces (fun _ _ _ => rfl) symbol
    lhs rhs

theorem equality (reduces : Reduces .equality follower) (symbol : String)
    (lhs : ReadsTerm s .term (some .equalOp) front x) (rhs : ReadsTerm s .term follower words y) :
    ReadsTerm s .expr follower (front ++ .sign .equalOp symbol :: words)
      (do let a ← x; let b ← y; Meaning.equality s a (.ofSymbol symbol) b) :=
  operated untraced .equality (fun op a b => Meaning.equality s a op b) rfl reduces (fun _ _ _ => rfl)
    symbol lhs rhs

theorem comparison (reduces : Reduces .comparison follower) (symbol : String)
    (lhs : ReadsTerm s .term (some .compareOp) front x) (rhs : ReadsTerm s .term follower words y) :
    ReadsTerm s .expr follower (front ++ .sign .compareOp symbol :: words)
      (do let a ← x; let b ← y; Meaning.comparison s a (.ofSymbol symbol) b) :=
  operated untraced .comparison (fun op a b => Meaning.comparison s a op b) rfl reduces
    (fun _ _ _ => rfl) symbol lhs rhs

theorem chain (reduces : Reduces .chain follower) {text : String}
    (first : ReadsTerm s .expr (some .dot) front x) (rest : ReadsTerm s .exprList follower words y) :
    ReadsTerm s .exprList follower (front ++ .sign .dot text :: words)
      (do let a ← x; let b ← y; Meaning.chain s a b) :=
  linked .chain (Meaning.chain s) rfl reduces (fun _ _ _ _ => bind_traceRule untraced ..) first rest

theorem conditional (reduces : Reduces .conditional follower) {opening middle second closing : String}
    {condition yes no : List Word} (first : ReadsTerm s .expr (some .thenWord) condition x)
    (chosen : ReadsTerm s .expr (some .elseWord) yes y)
    (other : ReadsTerm s .expr (some .endifWord) no z) :
    ReadsTerm s .expr follower
      (.sign .ifWord opening :: (condition ++ .sign .thenWord middle ::
        (yes ++ .sign .elseWord second :: (no ++ [.sign .endifWord closing]))))
      (do let a ← x; let b ← y; let c ← z; Meaning.conditional s a b c) :=
  decided .conditional (Meaning.conditional s) rfl reduces
    (fun _ _ _ _ _ _ _ => bind_traceRule untraced ..) first chosen other

theorem function (reduces : Reduces .function follower) {opening middle : String} (id : String)
    (body : ReadsTerm s .exprList follower words x) :
    ReadsTerm s .expr follower (.sign .lambda opening :: .name id :: .sign .arrow middle :: words)
      (do let a ← x; Eval.make s (.function (.text id) a)) := by
  refine bound .function (fun a => Eval.make s (.function (.text id) a)) rfl reduces
    (fun t u v named a => ?_) body
  rw [← named]
  exact bind_traceRule untraced ..

theorem emptyList (reduces : Reduces .emptyList follower) {opening closing : String} :
    ReadsTerm s .list follower [.sign .leftBracket opening, .sign .rightBracket closing]
      (Eval.makeList s []) := by
  intro tokens spelled
  obtain ⟨t, rest, rfl, opens, spelled⟩ := List.map_eq_cons_iff.1 spelled
  obtain ⟨u, rfl, closes⟩ := List.map_eq_singleton_iff.1 spelled
  have read := Reads.use .emptyList (Reads.token (Token.kind_of_word opens)
    (Reads.token (Token.kind_of_word closes) (.nil s follower))) reduces
  have means : ofRule s .emptyList [.token t, .token u] =
      (do let t ← Eval.makeList s []; pure (.term t)) := by
    change (do traceRule s _ _; let t ← Eval.makeList s []; pure (Meaning.term t)) = _
    rw [traceRule_untraced untraced, pure_bind]
  simpa [means, Rule.lhs] using read

theorem lastItem (reduces : Reduces .lastItem follower) (only : ReadsTerm s .expr follower words x) :
    ReadsTerm s .items follower words (do let a ← x; Eval.makeList s [a]) := by
  refine alone .lastItem (fun a => Eval.makeList s [a]) rfl reduces (fun a => ?_) only
  change (do traceRule s _ _; let t ← Eval.makeList s [a]; pure (Meaning.term t)) = _
  rw [traceRule_untraced untraced, pure_bind]

end Untraced

end ReadsTerm

/-! ## Statements -/

section Statements

open Parse Meaning

variable {s : Settings} {tokens : List Token} {words : List Word} {x : Eval Term}

/-- Tokens that are read as the parts of a statement are parsed as the statement. -/
theorem Reads.parse_eq (rule : Rule) (forms : rule.lhs = .statement) (other : rule ≠ .dump)
    {x : Eval (List Meaning)} (parts : Reads s rule.rhs none tokens x) :
    parse (reading s) (tokens.map .token) =
      (do let meaning ← x >>= ofRule s rule; pure (.accepted meaning)) := by
  obtain ⟨d, pieces, fits, rfl⟩ := parts
  have parsed := parse_statement (reading s) [] forms other d fits
  rw [pieces, Piece.flatMap_items_bare] at parsed
  simpa [reading] using parsed

theorem parse_assign {text id : String} (value : ReadsTerm s .exprList none words x)
    (spelled : tokens.map Token.word = .name id :: .sign .assign text :: words) :
    parse (reading s) (tokens.map .token) =
      (do let t ← x; assign s id t; pure (.accepted (.done none))) := by
  obtain ⟨t, rest, rfl, named, spelled⟩ := List.map_eq_cons_iff.1 spelled
  obtain ⟨u, others, rfl, links, spelled⟩ := List.map_eq_cons_iff.1 spelled
  have parts := Reads.token (Token.kind_of_word named)
    (Reads.token (Token.kind_of_word links) (value others spelled))
  have means : ∀ a, ofRule s .assign [.token t, .token u, .term a] =
      (do assign s id a; pure (.done none)) := by
    intro a
    rw [← Token.text_of_word named]
    rfl
  have parsed := Reads.parse_eq .assign rfl (by decide) parts
  simpa [means] using parsed

theorem parse_print {text : String} (value : ReadsTerm s .exprList none words x)
    (spelled : tokens.map Token.word = .sign .printWord text :: words) :
    parse (reading s) (tokens.map .token) =
      (do let t ← x; print s t; pure (.accepted (.done none))) := by
  obtain ⟨t, others, rfl, opens, spelled⟩ := List.map_eq_cons_iff.1 spelled
  have parts := Reads.token (Token.kind_of_word opens) (value others spelled)
  have means : ∀ a, ofRule s .print [.token t, .term a] = (do print s a; pure (.done none)) :=
    fun _ => rfl
  have parsed := Reads.parse_eq .print rfl (by decide) parts
  simpa [means] using parsed

theorem parse_append {opening dot second id : String} (value : ReadsTerm s .expr none words x)
    (spelled : tokens.map Token.word =
      .sign .appendWord opening :: .sign .dot dot :: .name id :: .sign .dot second :: words) :
    parse (reading s) (tokens.map .token) =
      (do let t ← x; let target ← append id t; pure (.accepted (.done (some target)))) := by
  obtain ⟨t, rest, rfl, opens, spelled⟩ := List.map_eq_cons_iff.1 spelled
  obtain ⟨u, rest, rfl, links, spelled⟩ := List.map_eq_cons_iff.1 spelled
  obtain ⟨v, rest, rfl, named, spelled⟩ := List.map_eq_cons_iff.1 spelled
  obtain ⟨w, others, rfl, linksAgain, spelled⟩ := List.map_eq_cons_iff.1 spelled
  have parts := Reads.token (Token.kind_of_word opens) (Reads.token (Token.kind_of_word links)
    (Reads.token (Token.kind_of_word named)
      (Reads.token (Token.kind_of_word linksAgain) (value others spelled))))
  have means : ∀ a, ofRule s .append [.token t, .token u, .token v, .token w, .term a] =
      (do let target ← append id a; pure (.done (some target))) := by
    intro a
    rw [← Token.text_of_word named]
    rfl
  have parsed := Reads.parse_eq .append rfl (by decide) parts
  simpa [means] using parsed

theorem parse_dumpWord {text : String} (spelled : tokens.map Token.word = [.sign .dumpWord text]) :
    parse (reading s) (tokens.map .token) = (do dump s; pure (.accepted (.done none))) := by
  obtain ⟨t, rfl, is⟩ := List.map_eq_singleton_iff.1 spelled
  have parsed := parse_dump (reading s) [] (.bare t) (Token.kind_of_word is)
  have means : ofRule s .dump [.token t] = (do dump s; pure (.done none)) := rfl
  simpa [Piece.bare, Piece.items, reading, means] using parsed

end Statements

end DotLambda
