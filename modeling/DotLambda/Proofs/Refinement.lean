import DotLambda.Proofs.Reading

/-!
Syntax trees, and what parsing makes of the words that write them down. In the words every operand that is
more than one token stands in parentheses, so the words have one tree. Main statement: parsing the words
does what a recursion over the tree does, which evaluates the parts from left to right and then the whole,
with the same lists, output, result or failure from every world.
-/

namespace DotLambda

/-! ## Syntax trees -/

/-- An operator between two operands. -/
inductive Dyad where
  | add | sub | mul | div
  | eq | ne
  | lt | le | gt | ge
  | both | either

namespace Dyad

def word : Dyad → Word
  | add => .sign .addOp "+"
  | sub => .sign .addOp "-"
  | mul => .sign .multOp "*"
  | div => .sign .multOp "/"
  | eq => .sign .equalOp "=="
  | ne => .sign .equalOp "!="
  | lt => .sign .compareOp "<"
  | le => .sign .compareOp "<="
  | gt => .sign .compareOp ">"
  | ge => .sign .compareOp ">="
  | both => .sign .andWord "and"
  | either => .sign .orWord "or"

/-- What the operator makes of its operands. -/
def evaluate (s : Settings) (lhs rhs : Term) : Dyad → Eval Term
  | add => Meaning.arithmetic s lhs .add rhs
  | sub => Meaning.arithmetic s lhs .sub rhs
  | mul => Meaning.arithmetic s lhs .mul rhs
  | div => Meaning.arithmetic s lhs .div rhs
  | eq => Meaning.equality s lhs .eq rhs
  | ne => Meaning.equality s lhs .ne rhs
  | lt => Meaning.comparison s lhs .lt rhs
  | le => Meaning.comparison s lhs .le rhs
  | gt => Meaning.comparison s lhs .gt rhs
  | ge => Meaning.comparison s lhs .ge rhs
  | both => Meaning.conjunction s lhs rhs
  | either => Meaning.disjunction s lhs rhs

end Dyad

/-- A function that is called by a word of its own. -/
inductive Builtin where
  | head | tail | sort | length

namespace Builtin

def word : Builtin → Word
  | head => .sign .headWord "head"
  | tail => .sign .tailWord "tail"
  | sort => .sign .sortWord "sort"
  | length => .sign .lengthWord "length"

/-- What the function makes of its argument. -/
def evaluate (s : Settings) (argument : Term) : Builtin → Eval Term
  | head => Meaning.head s argument
  | tail => Meaning.tail s argument
  | sort => Meaning.sort s argument
  | length => Meaning.length s argument

end Builtin

/-- What a tree can stand for. -/
inductive Form where
  | expression
  /-- An expression or an application. -/
  | sequence
  /-- What the first expression of an application is applied to. -/
  | arguments
  /-- The items of a list. -/
  | items

/-- A syntax tree. -/
inductive Phrase : Form → Type where
  | number (n : Nat) : Phrase .expression
  | string (text : String) : Phrase .expression
  | name (id : String) : Phrase .expression
  /-- A sequence in parentheses. -/
  | group (inner : Phrase .sequence) : Phrase .expression
  | sign (minus : Bool) (operand : Phrase .expression) : Phrase .expression
  | dyad (op : Dyad) (lhs rhs : Phrase .expression) : Phrase .expression
  | negation (operand : Phrase .expression) : Phrase .expression
  | conditional (condition yes no : Phrase .expression) : Phrase .expression
  | function (parameter : String) (body : Phrase .expression) : Phrase .expression
  | builtin (function : Builtin) (argument : Phrase .expression) : Phrase .expression
  | emptyList : Phrase .expression
  | list (contents : Phrase .items) : Phrase .expression
  | alone (only : Phrase .expression) : Phrase .sequence
  | application (function : Phrase .expression) (rest : Phrase .arguments) : Phrase .sequence
  | argument (last : Phrase .expression) : Phrase .arguments
  | arguments (first : Phrase .expression) (rest : Phrase .arguments) : Phrase .arguments
  | item (last : Phrase .expression) : Phrase .items
  | items (first : Phrase .expression) (rest : Phrase .items) : Phrase .items

namespace Phrase

/-- Whether a tree is a single token or stands in parentheses already. -/
def isClosed : {form : Form} → Phrase form → Bool
  | _, number _ | _, string _ | _, name _ | _, group _ => true
  | _, _ => false

/-- Words in parentheses. -/
def parenthesize (words : List Word) : List Word :=
  .sign .leftParen "(" :: (words ++ [.sign .rightParen ")"])

/-- The words of a tree as those of an operand. -/
def operand {form : Form} (e : Phrase form) (words : List Word) : List Word :=
  if e.isClosed then words else parenthesize words

/-- The words that write a tree. -/
def words : {form : Form} → Phrase form → List Word
  | _, number n => [.number n]
  | _, string text => [.string text]
  | _, name id => [.name id]
  | _, group inner => parenthesize inner.words
  | _, sign minus e => .sign .addOp (if minus then "-" else "+") :: operand e e.words
  | _, dyad op lhs rhs => operand lhs lhs.words ++ op.word :: operand rhs rhs.words
  | _, negation e => .sign .notWord "not" :: operand e e.words
  | _, conditional condition yes no =>
    .sign .ifWord "if" :: (operand condition condition.words ++ .sign .thenWord "then" ::
      (operand yes yes.words ++ .sign .elseWord "else" ::
        (operand no no.words ++ [.sign .endifWord "endif"])))
  | _, function parameter body =>
    .sign .lambda "\\" :: .name parameter :: .sign .arrow "=>" :: operand body body.words
  | _, builtin f e => f.word :: .sign .dot "." :: operand e e.words
  | _, emptyList => [.sign .leftBracket "[", .sign .rightBracket "]"]
  | _, list contents => .sign .leftBracket "[" :: (contents.words ++ [.sign .rightBracket "]"])
  | _, alone only => only.words
  | _, application first rest => operand first first.words ++ .sign .dot "." :: rest.words
  | _, argument last => operand last last.words
  | _, arguments first rest => operand first first.words ++ .sign .dot "." :: rest.words
  | _, item last => operand last last.words
  | _, items first rest => operand first first.words ++ .sign .comma "," :: rest.words

/-- The value of a tree: that of its parts from left to right, then its own. -/
def evaluate (s : Settings) : {form : Form} → Phrase form → Eval Term
  | _, number n => Eval.make s (.int (.int n))
  | _, string text => Eval.make s (.string (.text text))
  | _, name id => Meaning.name s id
  | _, group inner => inner.evaluate s
  | _, sign minus e => do
    let t ← e.evaluate s
    Meaning.sign s (if minus then "-" else "+") t
  | _, dyad op lhs rhs => do
    let l ← lhs.evaluate s
    let r ← rhs.evaluate s
    op.evaluate s l r
  | _, negation e => do
    let t ← e.evaluate s
    Meaning.negation s t
  | _, conditional condition yes no => do
    let c ← condition.evaluate s
    let y ← yes.evaluate s
    let n ← no.evaluate s
    Meaning.conditional s c y n
  | _, function parameter body => do
    let b ← body.evaluate s
    Eval.make s (.function (.text parameter) b)
  | _, builtin f e => do
    let t ← e.evaluate s
    f.evaluate s t
  | _, emptyList => Eval.makeList s []
  | _, list contents => contents.evaluate s
  | _, alone only => only.evaluate s
  | _, application first rest | _, arguments first rest => do
    let f ← first.evaluate s
    let r ← rest.evaluate s
    Meaning.chain s f r
  | _, argument last => last.evaluate s
  | _, item last => do
    let t ← last.evaluate s
    Eval.makeList s [t]
  | _, items first rest => do
    let f ← first.evaluate s
    let r ← rest.evaluate s
    Meaning.item s f r

end Phrase

/-- A statement. -/
inductive Statement where
  | assign (id : String) (value : Phrase .sequence)
  | print (value : Phrase .sequence)
  | dump
  | append (id : String) (value : Phrase .expression)

namespace Statement

/-- The words that write a statement. -/
def words : Statement → List Word
  | assign id value => .name id :: .sign .assign ":=" :: value.words
  | print value => .sign .printWord "print" :: value.words
  | dump => [.sign .dumpWord "dump"]
  | append id value =>
    .sign .appendWord "append" :: .sign .dot "." :: .name id :: .sign .dot "." :: value.words

/-- Carries a statement out, after its value has been found. -/
def evaluate (s : Settings) : Statement → Eval (Option Term)
  | assign id value => do
    let t ← value.evaluate s
    Meaning.assign s id t
    pure none
  | print value => do
    let t ← value.evaluate s
    Meaning.print s t
    pure none
  | dump => do
    Meaning.dump s
    pure none
  | append id value => do
    let t ← value.evaluate s
    let target ← Meaning.append id t
    pure (some target)

end Statement

/-! ## What the words are read as -/

section Readings

open Automaton

variable {s : Settings} {lhs rhs words : List Word} {x y : Eval Term} {follower : Option Kind}

/-- Words are read as a factor wherever one may stand. -/
def ReadsOperand (s : Settings) (words : List Word) (x : Eval Term) : Prop :=
  ∀ follower ∈ afterFactor, ReadsTerm s .factor follower words x

variable (untraced : s.tracing = false)
include untraced

theorem ReadsOperand.term (operand : ReadsOperand s words x) (follows : follower ∈ afterFactor) :
    ReadsTerm s .term follower words x :=
  .ofFactor untraced (reduces_of_mem_afterFactor (by decide) follows) (operand follower follows)

theorem ReadsOperand.expr (operand : ReadsOperand s words x) (follows : follower ∈ afterLoneTerm) :
    ReadsTerm s .expr follower words x :=
  .ofTerm untraced (reduces_of_mem_afterLoneTerm (by decide) follows)
    (operand.term untraced (afterLoneTerm_subset follows))

theorem ReadsOperand.parenthesized
    (within : ∀ follower ∈ closers, ReadsTerm s .exprList follower words x) :
    ReadsOperand s (Phrase.parenthesize words) x := by
  intro follower follows
  exact .parenthesized untraced (reduces_of_mem_afterFactor (by decide) follows)
    (within _ (by decide))

theorem ReadsTerm.dyad (op : Dyad) (left : ReadsOperand s lhs x) (right : ReadsOperand s rhs y)
    (closes : follower ∈ closers) :
    ReadsTerm s .expr follower (lhs ++ op.word :: rhs)
      (do let a ← x; let b ← y; op.evaluate s a b) := by
  have follows : follower ∈ afterFactor := afterLoneTerm_subset (closers_subset closes)
  have term := right.term untraced follows
  have expr := right.expr untraced (closers_subset closes)
  cases op with
  | add => exact .sum untraced (reduces_of_mem_closers closes) "+" (left.expr untraced (by decide)) term
  | sub => exact .sum untraced (reduces_of_mem_closers closes) "-" (left.expr untraced (by decide)) term
  | mul =>
    have product := ReadsTerm.product untraced (reduces_of_mem_closers closes) "*"
      (left.term untraced (by decide)) (right follower follows)
    exact .ofTerm untraced (reduces_of_mem_closers closes) product
  | div =>
    have product := ReadsTerm.product untraced (reduces_of_mem_closers closes) "/"
      (left.term untraced (by decide)) (right follower follows)
    exact .ofTerm untraced (reduces_of_mem_closers closes) product
  | eq =>
    exact .equality untraced (reduces_of_mem_closers closes) "==" (left.term untraced (by decide)) term
  | ne =>
    exact .equality untraced (reduces_of_mem_closers closes) "!=" (left.term untraced (by decide)) term
  | lt =>
    exact .comparison untraced (reduces_of_mem_closers closes) "<" (left.term untraced (by decide)) term
  | le =>
    exact .comparison untraced (reduces_of_mem_closers closes) "<=" (left.term untraced (by decide)) term
  | gt =>
    exact .comparison untraced (reduces_of_mem_closers closes) ">" (left.term untraced (by decide)) term
  | ge =>
    exact .comparison untraced (reduces_of_mem_closers closes) ">=" (left.term untraced (by decide)) term
  | both => exact .conjunction (reduces_of_mem_closers closes) (left.expr untraced (by decide)) expr
  | either => exact .disjunction (reduces_of_mem_closers closes) (left.expr untraced (by decide)) expr

theorem ReadsTerm.builtin (f : Builtin) (argument : ReadsOperand s words x)
    (closes : follower ∈ closers) :
    ReadsTerm s .expr follower (f.word :: .sign .dot "." :: words)
      (do let a ← x; f.evaluate s a) := by
  have expr := argument.expr untraced (closers_subset closes)
  have called : ReadsTerm s .factor follower (f.word :: .sign .dot "." :: words)
      (do let a ← x; f.evaluate s a) := by
    cases f with
    | head => exact .called .head _ rfl (reduces_of_mem_closers closes) (fun _ _ _ => rfl) expr
    | tail => exact .called .tail _ rfl (reduces_of_mem_closers closes) (fun _ _ _ => rfl) expr
    | sort => exact .called .sort _ rfl (reduces_of_mem_closers closes) (fun _ _ _ => rfl) expr
    | length => exact .called .length _ rfl (reduces_of_mem_closers closes) (fun _ _ _ => rfl) expr
  exact .ofTerm untraced (reduces_of_mem_closers closes)
    (.ofFactor untraced (reduces_of_mem_closers closes) called)

omit untraced in
/-- The words of a tree are read as what its form says, with its value. -/
def Phrase.Readable (s : Settings) : {form : Form} → Phrase form → Prop
  | .expression, e =>
    (e.isClosed = true → ReadsOperand s e.words (e.evaluate s)) ∧
      ∀ follower ∈ closers, ReadsTerm s .expr follower e.words (e.evaluate s)
  | .sequence, e | .arguments, e =>
    ∀ follower ∈ closers, ReadsTerm s .exprList follower e.words (e.evaluate s)
  | .items, e => ReadsTerm s .items (some .rightBracket) e.words (e.evaluate s)

namespace Phrase

theorem Readable.operand {e : Phrase .expression} (readable : e.Readable s) :
    ReadsOperand s (e.operand e.words) (e.evaluate s) := by
  unfold Phrase.operand
  split
  case isTrue closed => exact readable.1 closed
  case isFalse =>
    refine .parenthesized untraced fun follower closes => ?_
    exact .ofExpr untraced (reduces_of_mem_closers closes) (readable.2 follower closes)

/-- A single token, or a sequence in parentheses. -/
theorem readable_of_operand {e : Phrase .expression}
    (operand : ReadsOperand s e.words (e.evaluate s)) : e.Readable s :=
  ⟨fun _ => operand, fun _ closes => operand.expr untraced (closers_subset closes)⟩

omit untraced in
/-- A tree whose words have to be put in parentheses in an operand. -/
theorem readable_of_open {e : Phrase .expression} (opened : e.isClosed = false)
    (expr : ∀ follower ∈ closers, ReadsTerm s .expr follower e.words (e.evaluate s)) : e.Readable s :=
  ⟨fun closed => absurd closed (by simp [opened]), expr⟩

/-- The words of every tree are read as what it stands for. -/
theorem readable {form : Form} (p : Phrase form) : p.Readable s := by
  induction p with
  | number n =>
    exact readable_of_operand untraced fun _ follows =>
      .number untraced (reduces_of_mem_afterFactor (by decide) follows) n
  | string text =>
    exact readable_of_operand untraced fun _ follows =>
      .string (reduces_of_mem_afterFactor (by decide) follows) text
  | name id =>
    exact readable_of_operand untraced fun _ follows =>
      .name (reduces_of_mem_afterFactor (by decide) follows) id
  | group inner ih => exact readable_of_operand untraced (.parenthesized untraced ih)
  | sign minus e ih =>
    refine readable_of_open rfl fun follower closes => ?_
    have follows := afterLoneTerm_subset (closers_subset closes)
    have factor := ReadsTerm.sign (reduces_of_mem_closers closes) (if minus then "-" else "+")
      (ih.operand untraced follower follows)
    exact .ofTerm untraced (reduces_of_mem_closers closes)
      (.ofFactor untraced (reduces_of_mem_closers closes) factor)
  | dyad op lhs rhs ihl ihr =>
    exact readable_of_open rfl fun _ closes =>
      .dyad untraced op (ihl.operand untraced) (ihr.operand untraced) closes
  | negation e ih =>
    exact readable_of_open rfl fun _ closes =>
      .negation (reduces_of_mem_closers closes)
        ((ih.operand untraced).expr untraced (closers_subset closes))
  | conditional condition yes no ihc ihy ihn =>
    exact readable_of_open rfl fun _ closes =>
      .conditional untraced (reduces_of_mem_closers closes)
        ((ihc.operand untraced).expr untraced (by decide))
        ((ihy.operand untraced).expr untraced (by decide))
        ((ihn.operand untraced).expr untraced (by decide))
  | function parameter body ih =>
    exact readable_of_open rfl fun _ closes =>
      .function untraced (reduces_of_mem_closers closes) parameter
        (.ofExpr untraced (reduces_of_mem_closers closes)
          ((ih.operand untraced).expr untraced (closers_subset closes)))
  | builtin f e ih =>
    exact readable_of_open rfl fun _ closes => .builtin untraced f (ih.operand untraced) closes
  | emptyList =>
    exact readable_of_open rfl fun _ closes =>
      .ofList untraced (reduces_of_mem_closers closes)
        (.emptyList untraced (reduces_of_mem_closers closes))
  | list contents ih =>
    exact readable_of_open rfl fun _ closes =>
      .ofList untraced (reduces_of_mem_closers closes)
        (.listOf untraced (reduces_of_mem_closers closes) ih)
  | alone only ih =>
    intro follower closes
    exact .ofExpr untraced (reduces_of_mem_closers closes) (ih.2 follower closes)
  | application first rest ihf ihr | arguments first rest ihf ihr =>
    intro follower closes
    exact .chain untraced (reduces_of_mem_closers closes)
      ((ihf.operand untraced).expr untraced (by decide)) (ihr follower closes)
  | argument last ih =>
    intro follower closes
    exact .ofExpr untraced (reduces_of_mem_closers closes)
      ((ih.operand untraced).expr untraced (closers_subset closes))
  | item last ih =>
    exact .lastItem untraced (reduces_of_mem_closers (by decide))
      ((ih.operand untraced).expr untraced (by decide))
  | items first rest ihf ihr =>
    exact .item (reduces_of_mem_closers (by decide))
      ((ihf.operand untraced).expr untraced (by decide)) ihr

end Phrase

end Readings

/-- Parsing the words of a statement does what the recursion over its tree does: from every world it comes
to the same bindings, lists and output, and to the same result or failure. -/
theorem parse_words_eq_evaluate (s : Settings) (untraced : s.tracing = false) (statement : Statement)
    (tokens : List Token) (spelled : tokens.map Token.word = statement.words) :
    Parse.parse (Meaning.reading s) (tokens.map .token) =
      (do let result ← statement.evaluate s; pure (.accepted (.done result))) := by
  cases statement with
  | assign id value =>
    have parsed := parse_assign (value.readable untraced none (by decide)) spelled
    simpa [Statement.evaluate] using parsed
  | print value =>
    have parsed := parse_print (value.readable untraced none (by decide)) spelled
    simpa [Statement.evaluate] using parsed
  | dump =>
    have parsed := parse_dumpWord (s := s) spelled
    simpa [Statement.evaluate] using parsed
  | append id value =>
    have parsed := parse_append ((value.readable untraced).2 none (by decide)) spelled
    simpa [Statement.evaluate] using parsed

/-- The words of `print if ( 1 < 2 ) then "yes" else x endif` print one branch of the conditional. -/
theorem parse_words_of_conditional :
    Parse.parse (Meaning.reading ⟨false, 10⟩) ([⟨.printWord, .text "print", 1, 0⟩,
        ⟨.ifWord, .text "if", 1, 6⟩, ⟨.leftParen, .text "(", 1, 9⟩, ⟨.number, .number 1, 1, 11⟩,
        ⟨.compareOp, .text "<", 1, 13⟩, ⟨.number, .number 2, 1, 15⟩, ⟨.rightParen, .text ")", 1, 17⟩,
        ⟨.thenWord, .text "then", 1, 19⟩, ⟨.string, .text "yes", 1, 24⟩,
        ⟨.elseWord, .text "else", 1, 30⟩, ⟨.identifier, .text "x", 1, 35⟩,
        ⟨.endifWord, .text "endif", 1, 37⟩].map .token) ⟨[], .empty, #[]⟩ =
      .ok (.accepted (.done none)) ⟨[], .empty, #[.line "\x22yes\x22"]⟩ := by
  rw [parse_words_eq_evaluate ⟨false, 10⟩ rfl
    (.print (.alone (.conditional (.dyad .lt (.number 1) (.number 2)) (.string "yes") (.name "x"))))
    _ rfl]
  rfl

end DotLambda
