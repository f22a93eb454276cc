import DotLambda.Proofs.Run

/-!
Derivations rearranged for the automaton. The grammar leaves open how far an expression reaches that ends
in another one, and the automaton lets the innermost one go on as long as it can. Main statement: every
derivation has one with the same pieces that the automaton finds.
-/

namespace DotLambda

open Automaton

/-- A rule that sets a token between two phrases. -/
structure Link where
  rule : Rule
  left : Nonterminal
  kind : Kind
  right : Nonterminal
  shape : rule.rhs = [.nonterminal left, .terminal kind, .nonterminal right]

/-- The links whose token could also belong to the phrase on the left. -/
def links : List Link :=
  [⟨.chain, .expr, .dot, .exprList, rfl⟩, ⟨.disjunction, .expr, .orWord, .expr, rfl⟩,
    ⟨.conjunction, .expr, .andWord, .expr, rfl⟩, ⟨.comparison, .term, .compareOp, .term, rfl⟩,
    ⟨.equality, .term, .equalOp, .term, rfl⟩, ⟨.sum, .expr, .addOp, .term, rfl⟩,
    ⟨.product, .term, .multOp, .factor, rfl⟩]

/-- Every phrase among symbols stands before one of its closers. -/
def Guarded (follower : Option Kind) : List Symbol → Prop
  | [] => True
  | .terminal _ :: rest => Guarded follower rest
  | [.nonterminal phrase] => follower ∈ phrase.closers
  | .nonterminal phrase :: .terminal kind :: rest =>
    some kind ∈ phrase.closers ∧ Guarded follower (.terminal kind :: rest)
  | .nonterminal _ :: .nonterminal _ :: _ => False

instance decidableGuarded (follower : Option Kind) : (symbols : List Symbol) →
    Decidable (Guarded follower symbols)
  | [] => .isTrue trivial
  | .terminal _ :: rest => decidableGuarded follower rest
  | [.nonterminal phrase] => inferInstanceAs (Decidable (follower ∈ phrase.closers))
  | .nonterminal phrase :: .terminal kind :: rest =>
    have := decidableGuarded follower (.terminal kind :: rest)
    inferInstanceAs (Decidable (some kind ∈ phrase.closers ∧ Guarded follower (.terminal kind :: rest)))
  | .nonterminal _ :: .nonterminal _ :: _ => .isFalse id

/-! ## The table, rule by rule -/

private theorem guarded_table : ∀ rule ∈ rules, (∀ link ∈ links, link.rule ≠ rule) →
    ∀ follower ∈ rule.lhs.closers, Guarded follower rule.rhs := by
  decide +kernel

private theorem conflict_table : ∀ rule ∈ rules, Reduces rule (some .comma) → ∀ link ∈ links,
    Reduces rule (some link.kind) ∨
      (rule.rhs.getLast? = some (.nonterminal link.left) ∧ link.rule.lhs = link.left) ∨
      (rule.rhs = [.nonterminal link.left] ∧ link.rule.lhs = rule.lhs) := by
  decide +kernel

private theorem links_table : ∀ link ∈ links,
    link.rule.lhs.closers = closers ∧ link.left.closers = closers ∧ link.right.closers = closers ∧
      (link.rule.lhs = link.left ∨ ∃ rule ∈ rules, rule.rhs = [.nonterminal link.left] ∧
        rule.lhs = link.rule.lhs ∧ ∀ other ∈ links, other.rule ≠ rule) := by
  decide +kernel

namespace Derivation

/-! ## Small lemmas -/

theorem pieces_ne_nil {symbols : List Symbol} (d : Derivation symbols) (some : symbols ≠ []) :
    d.pieces ≠ [] := by
  induction d with
  | nil => exact absurd rfl some
  | read p is rest ih => simp [pieces]
  | use rule forms parts rest partsIh ih =>
    have inner : parts.pieces ≠ [] := partsIh (by cases rule <;> simp [Rule.rhs])
    simp [pieces, inner]

/-- What opens pieces is not changed by pieces behind them. -/
theorem opening_or {symbols : List Symbol} (d : Derivation symbols) (some : symbols ≠ [])
    {pieces tail : List Piece} (longer : pieces = d.pieces ++ tail) (follower other : Option Kind) :
    (Piece.opening pieces).or follower = (Piece.opening d.pieces).or other := by
  have inner := d.pieces_ne_nil some
  rw [longer]
  cases same : d.pieces with
  | nil => exact absurd same inner
  | cons p rest => rfl

/-- A derivation of the same symbols under another name. -/
def recast {symbols others : List Symbol} (same : symbols = others) (d : Derivation symbols) :
    Derivation others := same ▸ d

theorem pieces_recast {symbols others : List Symbol} (same : symbols = others)
    (d : Derivation symbols) : (d.recast same).pieces = d.pieces := by
  subst same
  rfl

theorem fits_recast {symbols others : List Symbol} (same : symbols = others) (d : Derivation symbols)
    (follower : Option Kind) : (d.recast same).Fits follower ↔ d.Fits follower := by
  subst same
  rfl

/-- The phrase that a rule forms from its symbols. -/
def phrase (rule : Rule) (parts : Derivation rule.rhs) : Derivation [.nonterminal rule.lhs] :=
  use rule rfl parts nil

theorem pieces_phrase (rule : Rule) (parts : Derivation rule.rhs) :
    (phrase rule parts).pieces = parts.pieces := by
  simp [phrase, pieces]

theorem fits_phrase (rule : Rule) (parts : Derivation rule.rhs) (follower : Option Kind) :
    (phrase rule parts).Fits follower ↔ parts.Fits follower ∧ Reduces rule follower := by
  simp [phrase, Fits, pieces, Piece.opening]

/-- A derivation that the automaton finds before every closer. -/
def Closed {symbols : List Symbol} (d : Derivation symbols) : Prop := ∀ follower ∈ closers, d.Fits follower

/-! ## Joining two phrases -/

/-- Two phrases with a token between them. -/
def join (link : Link) (a : Derivation [.nonterminal link.left]) (p : Piece) (is : p.kind = link.kind)
    (b : Derivation [.nonterminal link.right]) : Derivation [.nonterminal link.rule.lhs] :=
  phrase link.rule ((a.append (read p is b)).recast link.shape.symm)

theorem pieces_join (link : Link) (a : Derivation [.nonterminal link.left]) (p : Piece)
    (is : p.kind = link.kind) (b : Derivation [.nonterminal link.right]) :
    (join link a p is b).pieces = a.pieces ++ p :: b.pieces := by
  rw [join, pieces_phrase, pieces_recast, pieces_append, pieces]

theorem closed_join {link : Link} (known : link ∈ links) {a : Derivation [.nonterminal link.left]}
    {p : Piece} (is : p.kind = link.kind) {b : Derivation [.nonterminal link.right]}
    (fits : a.Fits (some link.kind)) (closed : b.Closed) : (join link a p is b).Closed := by
  intro follower member
  rw [join, fits_phrase, fits_recast, fits_append]
  refine ⟨⟨?_, closed follower member⟩, ?_⟩
  · simpa [pieces, Piece.opening, is] using fits
  · apply reduces_of_mem_closers
    rwa [(links_table link known).1]

section Absorb

variable {link : Link} {p : Piece} {b : Derivation [.nonterminal link.right]}

/-- Symbols that end in the left phrase of a link take up the rest of it. -/
theorem grow (known : link ∈ links) (same : link.rule.lhs = link.left) (is : p.kind = link.kind)
    (closed : b.Closed) {symbols : List Symbol} (d : Derivation symbols)
    (last : symbols.getLast? = some (.nonterminal link.left)) (fits : d.Fits (some link.kind)) :
    ∃ longer : Derivation symbols, longer.Closed ∧ longer.pieces = d.pieces ++ p :: b.pieces := by
  induction d with
  | nil => simp at last
  | @read kind symbols q isq rest ih =>
    have more : symbols ≠ [] := by
      rintro rfl
      simp at last
    obtain ⟨longer, fitting, pieces⟩ := ih (List.getLast?_cons_of_ne_nil more ▸ last) fits
    exact ⟨read q isq longer, fitting, by simp [Derivation.pieces, pieces]⟩
  | @use phrase symbols rule forms parts rest partsIh ih =>
    by_cases alone : symbols = []
    · subst alone
      cases rest
      simp only [List.getLast?_singleton, Option.some.injEq, Symbol.nonterminal.injEq] at last
      subst last
      let a : Derivation [.nonterminal link.left] := use rule forms parts nil
      refine ⟨(join link a p is b).recast (by rw [same]), ?_, ?_⟩
      · intro follower member
        rw [fits_recast]
        exact closed_join known is fits closed follower member
      · rw [pieces_recast, pieces_join]
    · obtain ⟨partsFit, reduces, restFits⟩ := fits
      obtain ⟨longer, fitting, pieces⟩ := ih (List.getLast?_cons_of_ne_nil alone ▸ last) restFits
      refine ⟨use rule forms parts longer, fun follower member => ?_, by simp [Derivation.pieces, pieces]⟩
      rw [Fits, rest.opening_or alone pieces follower (some link.kind)]
      exact ⟨partsFit, reduces, fitting follower member⟩

/-- What the automaton finds before every closer it also finds before the token of a link, or else it
takes up the rest of the link. -/
theorem fits_or_absorbs (known : link ∈ links) (is : p.kind = link.kind) (closed : b.Closed)
    {symbols : List Symbol} (d : Derivation symbols) (settled : d.Closed) :
    d.Fits (some link.kind) ∨
      ∃ longer : Derivation symbols, longer.Closed ∧ longer.pieces = d.pieces ++ p :: b.pieces := by
  induction d with
  | nil => exact .inl trivial
  | @read kind symbols q isq rest ih =>
    rcases ih settled with fits | ⟨longer, fitting, pieces⟩
    · exact .inl fits
    · exact .inr ⟨read q isq longer, fitting, by simp [Derivation.pieces, pieces]⟩
  | @use phrase symbols rule forms parts rest partsIh ih =>
    by_cases alone : symbols = []
    · subst alone
      cases rest
      subst forms
      have partsClosed : parts.Closed := fun follower member => by
        simpa [Derivation.pieces, Piece.opening] using (settled follower member).1
      have reduces : ∀ follower ∈ closers, Reduces rule follower := fun follower member => by
        simpa [Derivation.pieces, Piece.opening] using (settled follower member).2.1
      rcases partsIh partsClosed with fits | ⟨longer, fitting, pieces⟩
      · -- the token follows a complete rule: it is used, or the token belongs to its last phrase
        rcases conflict_table rule (mem_rules rule) (reduces _ (by decide)) link known with
          used | ⟨last, same⟩ | ⟨sole, same⟩
        · exact .inl ⟨by simpa [Derivation.pieces, Piece.opening] using fits,
            by simpa [Derivation.pieces, Piece.opening] using used, trivial⟩
        · obtain ⟨longer, fitting, pieces⟩ := grow known same is closed parts last fits
          exact .inr ⟨Derivation.phrase rule longer,
            fun follower member => (fits_phrase ..).2 ⟨fitting follower member, reduces follower member⟩,
            by simp [pieces_phrase, pieces, Derivation.pieces]⟩
        · let a : Derivation [.nonterminal link.left] := parts.recast sole
          have fits : a.Fits (some link.kind) := (fits_recast ..).2 fits
          refine .inr ⟨(join link a p is b).recast (by rw [same]), fun follower member => ?_, ?_⟩
          · rw [fits_recast]
            exact closed_join known is fits closed follower member
          · simp [a, pieces_recast, pieces_join, Derivation.pieces]
      · exact .inr ⟨Derivation.phrase rule longer,
          fun follower member => (fits_phrase ..).2 ⟨fitting follower member, reduces follower member⟩,
          by simp [pieces_phrase, pieces, Derivation.pieces]⟩
    · rcases ih fun follower member => (settled follower member).2.2 with fits | ⟨longer, fitting, pieces⟩
      · have opened := rest.opening_or alone (List.append_nil _).symm none (some link.kind)
        obtain ⟨partsFit, reduces, -⟩ := settled none (by decide)
        rw [opened] at partsFit reduces
        exact .inl ⟨partsFit, reduces, fits⟩
      · refine .inr ⟨use rule forms parts longer, fun follower member => ?_,
          by simp [Derivation.pieces, pieces]⟩
        obtain ⟨partsFit, reduces, -⟩ := settled follower member
        rw [Fits, rest.opening_or alone pieces follower follower]
        exact ⟨partsFit, reduces, fitting follower member⟩

end Absorb

/-! ## Settling -/

/-- Every phrase among the symbols of a derivation is found before each of its closers. -/
def Settled : {symbols : List Symbol} → Derivation symbols → Prop
  | _, nil => True
  | _, read _ _ rest => rest.Settled
  | _, @use phrase _ rule forms parts rest =>
    (∀ follower ∈ phrase.closers, (use rule forms parts nil).Fits follower) ∧ rest.Settled

theorem settled_append {front back : List Symbol} (d : Derivation front) (after : Derivation back) :
    (d.append after).Settled ↔ d.Settled ∧ after.Settled := by
  induction d with
  | nil => simp [append, Settled]
  | read p is rest ih => simp [append, Settled, ih]
  | use rule forms parts rest partsIh ih => simp [append, Settled, ih, and_assoc]

theorem settled_recast {symbols others : List Symbol} (same : symbols = others)
    (d : Derivation symbols) : (d.recast same).Settled ↔ d.Settled := by
  subst same
  rfl

theorem settled_singleton {phrase : Nonterminal} (d : Derivation [.nonterminal phrase]) :
    d.Settled ↔ ∀ follower ∈ phrase.closers, d.Fits follower := by
  cases d with
  | use rule forms parts rest =>
    cases rest
    simp [Settled]

/-- Settled phrases that stand before their closers are found. -/
theorem fits_of_guarded {follower : Option Kind} {symbols : List Symbol} (d : Derivation symbols)
    (settled : d.Settled) (guarded : Guarded follower symbols) : d.Fits follower := by
  induction d with
  | nil => trivial
  | @read kind symbols p is rest ih => exact ih settled (by simpa [Guarded] using guarded)
  | @use phrase symbols rule forms parts rest partsIh ih =>
    match symbols, rest, guarded with
    | [], nil, closes => exact settled.1 follower closes
    | .terminal kind :: symbols, read p is rest, guarded =>
      obtain ⟨closes, guarded⟩ := guarded
      have found := settled.1 (some kind) closes
      simp only [Fits, pieces, Piece.opening, is, List.head?_nil, List.head?_cons, Option.map_none,
        Option.map_some, Option.none_or, Option.some_or] at found ⊢
      exact ⟨found.1, found.2.1, ih settled.2 guarded⟩

/-- The phrase of a rule that is no link is settled once its parts are. -/
theorem settled_phrase {rule : Rule} (noLink : ∀ link ∈ links, link.rule ≠ rule)
    {parts : Derivation rule.rhs} (settled : parts.Settled) : (phrase rule parts).Settled := by
  rw [settled_singleton]
  intro follower member
  rw [fits_phrase]
  exact ⟨fits_of_guarded parts settled (guarded_table rule (mem_rules rule) noLink follower member),
    reduces_of_mem_closers member⟩

/-- A link between settled phrases has a settled derivation: either as it stands, or with its token and
its right phrase taken up by the left one. -/
theorem exists_settled_join {link : Link} (known : link ∈ links)
    {a : Derivation [.nonterminal link.left]} {p : Piece} (is : p.kind = link.kind)
    {b : Derivation [.nonterminal link.right]} (left : a.Settled) (right : b.Settled) :
    ∃ d : Derivation [.nonterminal link.rule.lhs],
      d.Settled ∧ d.pieces = a.pieces ++ p :: b.pieces := by
  obtain ⟨lhsClosers, leftClosers, rightClosers, unit⟩ := links_table link known
  rw [settled_singleton, leftClosers] at left
  rw [settled_singleton, rightClosers] at right
  rcases fits_or_absorbs known is right a left with fits | ⟨longer, closed, pieces⟩
  · refine ⟨join link a p is b, ?_, pieces_join ..⟩
    rw [settled_singleton, lhsClosers]
    exact closed_join known is fits right
  · rcases unit with same | ⟨rule, -, rhs, lhs, noLink⟩
    · refine ⟨longer.recast (by rw [same]), ?_, by rw [pieces_recast, pieces]⟩
      rw [settled_recast, settled_singleton, leftClosers]
      exact closed
    · have settled : longer.Settled := by
        rw [settled_singleton, leftClosers]
        exact closed
      refine ⟨(phrase rule (longer.recast rhs.symm)).recast (by rw [lhs]), ?_, ?_⟩
      · rw [settled_recast]
        exact settled_phrase noLink ((settled_recast ..).2 settled)
      · rw [pieces_recast, pieces_phrase, pieces_recast, pieces]

/-- The phrase of any rule has a settled derivation once its parts are settled. -/
theorem exists_settled_phrase (rule : Rule) {parts : Derivation rule.rhs} (settled : parts.Settled) :
    ∃ d : Derivation [.nonterminal rule.lhs], d.Settled ∧ d.pieces = parts.pieces := by
  by_cases isLink : ∃ link ∈ links, link.rule = rule
  · obtain ⟨link, known, rfl⟩ := isLink
    have linkedSettled := (settled_recast link.shape parts).2 settled
    have linkedPieces := pieces_recast link.shape parts
    match parts.recast link.shape, linkedSettled, linkedPieces with
    | use ruleA formsA partsA (read p is b), ⟨left, right⟩, pieces =>
      let a : Derivation [.nonterminal link.left] := use ruleA formsA partsA nil
      obtain ⟨d, joined, joinedPieces⟩ := exists_settled_join known is ((settled_singleton a).2 left) right
      refine ⟨d, joined, ?_⟩
      rw [joinedPieces, ← pieces]
      simp [a, Derivation.pieces]
  · have noLink : ∀ link ∈ links, link.rule ≠ rule := fun link known same => isLink ⟨link, known, same⟩
    exact ⟨phrase rule parts, settled_phrase noLink settled, pieces_phrase rule parts⟩

/-- Every derivation has one with the same pieces that the automaton finds. -/
theorem exists_settled {symbols : List Symbol} (d : Derivation symbols) :
    ∃ other : Derivation symbols, other.Settled ∧ other.pieces = d.pieces := by
  induction d with
  | nil => exact ⟨nil, trivial, rfl⟩
  | read p is rest ih =>
    obtain ⟨other, settled, pieces⟩ := ih
    exact ⟨read p is other, settled, by simp [Derivation.pieces, pieces]⟩
  | use rule forms parts rest partsIh ih =>
    subst forms
    obtain ⟨inner, innerSettled, innerPieces⟩ := partsIh
    obtain ⟨first, firstSettled, firstPieces⟩ := exists_settled_phrase rule innerSettled
    obtain ⟨other, settled, pieces⟩ := ih
    refine ⟨first.append other, (settled_append ..).2 ⟨firstSettled, settled⟩, ?_⟩
    rw [pieces_append, firstPieces, innerPieces, pieces, Derivation.pieces]

end Derivation

end DotLambda
