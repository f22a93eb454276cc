import DotLambda.Parse
import Mathlib.Logic.Relation

/-!
Derivations by the rules of the grammar. What a statement is, is said by rewriting: symbols give way to
the symbols of their rules until only tokens are left. A derivation records which rules were used where.
Main statement: whatever comes by rewriting has a derivation.
-/

namespace DotLambda

/-! ## Rewriting -/

/-- One step of rewriting: a phrase gives way to the symbols of one of its rules. -/
inductive Produces : List Symbol → List Symbol → Prop
  | step (front : List Symbol) (rule : Rule) (back : List Symbol) :
    Produces (front ++ .nonterminal rule.lhs :: back) (front ++ rule.rhs ++ back)

/-- Symbols from which others come by rewriting. -/
def Derives : List Symbol → List Symbol → Prop := Relation.ReflTransGen Produces

/-- What comes from symbols in a row comes from each part of the row. -/
theorem Derives.append {front back first last : List Symbol} (left : Derives front first)
    (right : Derives back last) : Derives (front ++ back) (first ++ last) := by
  have lift {a b : List Symbol} (before after : List Symbol) (derived : Derives a b) :
      Derives (before ++ a ++ after) (before ++ b ++ after) := by
    refine Relation.ReflTransGen.lift (fun symbols => before ++ symbols ++ after) ?_ _ _ derived
    rintro _ _ ⟨front, rule, back⟩
    have step := Produces.step (before ++ front) rule (back ++ after)
    simpa [Function.onFun] using step
  have early := lift [] back left
  have late := lift first [] right
  simp only [List.nil_append, List.append_nil] at early late
  exact Relation.ReflTransGen.trans early late

/-- Kinds of tokens that make one statement. -/
def Sentence (kinds : List Kind) : Prop :=
  Derives [.nonterminal .statement] (kinds.map .terminal)

/-! ## Pieces of a line -/

/-- What a scan meets beside tokens. -/
inductive Noise where
  | stray (character : Char) (line : Nat)
  | overlong (digits : Nat)

namespace Noise

/-- Noise as a scan meets it. -/
def item : Noise → Item
  | stray character line => .stray character line
  | overlong digits => .overlong digits

end Noise

/-- A token, and the noise between it and the next one. -/
structure Piece where
  token : Token
  gap : List Noise

namespace Piece

/-- A token with nothing but blanks after it. -/
def bare (t : Token) : Piece := ⟨t, []⟩

/-- The kind of a piece's token. -/
def kind (p : Piece) : Kind := p.token.kind

/-- A piece as a scan meets it. -/
def items (p : Piece) : List Item := .token p.token :: p.gap.map Noise.item

/-- The noise before the first token of what a scan meets, and the pieces from there on. -/
def split : List Item → List Noise × List Piece
  | [] => ([], [])
  | .token t :: rest => ([], ⟨t, (split rest).1⟩ :: (split rest).2)
  | .stray character line :: rest => (.stray character line :: (split rest).1, (split rest).2)
  | .overlong digits :: rest => (.overlong digits :: (split rest).1, (split rest).2)

theorem items_split (items : List Item) :
    (split items).1.map Noise.item ++ (split items).2.flatMap Piece.items = items := by
  induction items with
  | nil => rfl
  | cons item rest ih => cases item <;> simp [split, Piece.items, Noise.item, ih]

theorem token_split (items : List Item) :
    (split items).2.map Piece.token = items.filterMap Item.token? := by
  induction items with
  | nil => rfl
  | cons item rest ih => cases item <;> simp [split, Item.token?, List.filterMap_cons, ih]

theorem flatMap_items_bare (tokens : List Token) :
    (tokens.map bare).flatMap Piece.items = tokens.map .token := by
  induction tokens with
  | nil => rfl
  | cons t rest ih => simp [bare, Piece.items, ih]

end Piece

/-! ## Derivations -/

/-- How symbols come to be made of pieces: a token is read, or a phrase comes from the symbols of a rule. -/
inductive Derivation : List Symbol → Type
  | nil : Derivation []
  | read {kind : Kind} {symbols : List Symbol} (p : Piece) (is : p.kind = kind)
    (rest : Derivation symbols) : Derivation (.terminal kind :: symbols)
  | use {phrase : Nonterminal} {symbols : List Symbol} (rule : Rule) (forms : rule.lhs = phrase)
    (parts : Derivation rule.rhs) (rest : Derivation symbols) :
    Derivation (.nonterminal phrase :: symbols)

namespace Derivation

/-- The pieces that are read, in order. -/
def pieces : {symbols : List Symbol} → Derivation symbols → List Piece
  | _, nil => []
  | _, read p _ rest => p :: rest.pieces
  | _, use _ _ parts rest => parts.pieces ++ rest.pieces

/-- One derivation after another. -/
def append {back : List Symbol} : {front : List Symbol} → Derivation front → Derivation back →
    Derivation (front ++ back)
  | _, nil, after => after
  | _, read p is rest, after => read p is (rest.append after)
  | _, use rule forms parts rest, after => use rule forms parts (rest.append after)

theorem pieces_append {front back : List Symbol} (d : Derivation front) (after : Derivation back) :
    (d.append after).pieces = d.pieces ++ after.pieces := by
  induction d with
  | nil => rfl
  | read p is rest ih => simp [append, pieces, ih]
  | use rule forms parts rest partsIh ih => simp [append, pieces, ih]

/-- A derivation of symbols in a row falls into derivations of each part of the row. -/
theorem exists_append {back : List Symbol} : (front : List Symbol) → (d : Derivation (front ++ back)) →
    ∃ (before : Derivation front) (after : Derivation back), d.pieces = before.pieces ++ after.pieces
  | [], d => ⟨nil, d, rfl⟩
  | .terminal _ :: front, read p is rest => by
    obtain ⟨before, after, same⟩ := exists_append front rest
    exact ⟨read p is before, after, by simp [pieces, same]⟩
  | .nonterminal _ :: front, use rule forms parts rest => by
    obtain ⟨before, after, same⟩ := exists_append front rest
    exact ⟨use rule forms parts before, after, by simp [pieces, same]⟩

/-- The derivation of tokens from their own kinds. -/
def ofPieces : (pieces : List Piece) → Derivation (pieces.map fun p => .terminal p.kind)
  | [] => nil
  | p :: rest => read p rfl (ofPieces rest)

theorem pieces_ofPieces (ps : List Piece) : (ofPieces ps).pieces = ps := by
  induction ps with
  | nil => rfl
  | cons p rest ih => simp [ofPieces, pieces, ih]

/-- What has a derivation comes by rewriting. -/
theorem derives {symbols : List Symbol} (d : Derivation symbols) :
    Derives symbols (d.pieces.map fun p => .terminal p.kind) := by
  induction d with
  | nil => exact .refl
  | read p is rest ih =>
    subst is
    have first : Derives [.terminal p.kind] [.terminal p.kind] := .refl
    exact first.append ih
  | @use phrase symbols rule forms parts rest inner ih =>
    subst forms
    have first : Derives [.nonterminal rule.lhs] (parts.pieces.map fun p => .terminal p.kind) := by
      have step := Produces.step [] rule []
      rw [List.nil_append, List.nil_append, List.append_nil] at step
      exact .head step inner
    rw [pieces, List.map_append]
    exact first.append ih

/-- Whatever comes by rewriting has a derivation. -/
theorem exists_of_derives {symbols : List Symbol} {ps : List Piece}
    (derived : Derives symbols (ps.map fun p => .terminal p.kind)) :
    ∃ d : Derivation symbols, d.pieces = ps := by
  induction derived using Relation.ReflTransGen.head_induction_on with
  | refl => exact ⟨ofPieces ps, pieces_ofPieces ps⟩
  | head first _ ih =>
    obtain ⟨d, same⟩ := ih
    obtain ⟨front, rule, back⟩ := first
    obtain ⟨before, after, split⟩ := exists_append (front ++ rule.rhs) d
    obtain ⟨outer, parts, inner⟩ := exists_append front before
    refine ⟨outer.append (use rule rfl parts after), ?_⟩
    rw [pieces_append, pieces, ← same, split, inner, List.append_assoc]

end Derivation

end DotLambda
