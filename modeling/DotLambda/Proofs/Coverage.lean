import DotLambda.Proofs.Spelling
import Mathlib.Data.List.Forall2

/-!
What a scan makes of each character. A text falls into stretches: blanks, runs of line ends, comments up to the end
of the line, the longest lexemes, and single characters with which no lexeme begins. Main statement: unless a run
of digits is too long, each character of a text stands in exactly one stretch, and the scan meets the tokens and
the stray characters among these, each once, in order and at its place, and ends at the end of the text.
-/

namespace DotLambda

/-- No run of digits is too long to be read. -/
def ShortRuns (cs : List Char) : Prop :=
  ∀ run, run <:+: cs → (∀ c ∈ run, Text.Digit.isDigit c = true) → run.length ≤ Text.Decimal.digitLimit

theorem ShortRuns.suffix {front rest : List Char} (short : ShortRuns (front ++ rest)) : ShortRuns rest :=
  fun run inside => short run (inside.trans (List.suffix_append front rest).isInfix)

/-- No lexeme that stands here is longer. -/
def Longest (chars rest : List Char) : Prop :=
  ∀ more w, Lexeme more w → more <+: chars ++ rest → more.length ≤ chars.length

/-- What a segment has to be before the rest of a text. -/
inductive Segment.Ruled : Segment → List Char → Prop where
  | blank {c : Char} {rest : List Char} (is : c = ' ' ∨ c = '\t') : Ruled ⟨.blank, [c]⟩ rest
  | lineEnds {chars rest : List Char} (nonempty : chars ≠ []) (all : ∀ c ∈ chars, c = '\n')
      (ends : rest.head? ≠ some '\n') : Ruled ⟨.lineEnds, chars⟩ rest
  | comment {chars rest : List Char} (inside : '\n' ∉ chars) (ends : ∀ c ∈ rest.head?, c = '\n') :
      Ruled ⟨.comment, '#' :: chars⟩ rest
  | token {chars rest : List Char} {w : Word} (writes : Lexeme chars w) (longest : Longest chars rest) :
      Ruled ⟨.token w.kind, chars⟩ rest
  | stray {c : Char} {rest : List Char} (other : c ∉ [' ', '\t', '\n', '#'])
      (none : ∀ chars w, Lexeme chars w → ¬ chars <+: c :: rest) : Ruled ⟨.stray, [c]⟩ rest

/-! ## Lexemes by their first character -/

/-- What a lexeme is by its first character, and how far it goes. -/
theorem Lexeme.cases_cons {c : Char} {rest chars : List Char} {w : Word} (writes : Lexeme chars w)
    (opens : chars <+: c :: rest) :
    (Text.Digit.isDigit c = true ∧ chars.length ≤ (c :: rest.takeWhile Text.Digit.isDigit).length) ∨
    (c = '\x22' ∧ ∃ inner after, rest = inner ++ '\x22' :: after ∧ (∀ d ∈ inner, Segment.isInString d = true) ∧
      chars = '\x22' :: inner ++ ['\x22']) ∨
    (Segment.startsWord c = true ∧ chars.length ≤ (c :: rest.takeWhile Segment.continuesWord).length) ∨
    (c ∈ Segment.openers ∧ ∃ kind, (chars, kind) ∈ Segment.signs) := by
  obtain ⟨after, parts⟩ := opens
  cases writes with
  | number some all short =>
    obtain ⟨d, more, rfl⟩ := List.exists_cons_of_ne_nil some
    rw [List.cons_append] at parts
    obtain ⟨rfl, rfl⟩ := List.cons.inj parts
    have digits := List.all_eq_true.1 all
    refine .inl ⟨digits _ List.mem_cons_self, ?_⟩
    rw [List.takeWhile_append_of_pos fun e member => digits e (List.mem_cons_of_mem _ member)]
    simp
  | @string inner inside =>
    rw [List.cons_append, List.cons_append, List.append_assoc] at parts
    obtain ⟨rfl, rfl⟩ := List.cons.inj parts
    exact .inr (.inl ⟨rfl, inner, after, rfl, List.all_eq_true.1 inside, rfl⟩)
  | @word d more starts continues =>
    rw [List.cons_append] at parts
    obtain ⟨rfl, rfl⟩ := List.cons.inj parts
    refine .inr (.inr (.inl ⟨starts, ?_⟩))
    rw [List.takeWhile_append_of_pos (List.all_eq_true.1 continues)]
    simp
  | @sign _ kind listed =>
    obtain ⟨d, more, rfl⟩ := List.exists_cons_of_ne_nil (Segment.sign_ne_nil _ listed)
    obtain ⟨rfl, rfl⟩ := List.cons.inj parts
    exact .inr (.inr (.inr ⟨List.mem_filterMap.2 ⟨_, listed, rfl⟩, kind, listed⟩))

namespace Segment

/-- A sign stands before the shorter ones with which it begins. -/
theorem signs_longest_first : signs.Pairwise fun a b => a.1 <+: b.1 → b.1.length ≤ a.1.length := by
  decide

/-- The sign that is found is the longest. -/
theorem length_le_of_sign? {cs : List Char} {found other : List Char × Kind} (is : sign? cs = some found)
    (listed : other ∈ signs) (opens : other.1 <+: cs) : other.1.length ≤ found.1.length := by
  obtain ⟨starts, front, back, parts, earlier⟩ := List.find?_eq_some_iff_append.1 is
  have ordered := signs_longest_first
  rw [parts] at ordered listed
  rcases List.mem_append.1 listed with before | here
  · have missed := earlier other before
    simp [List.isPrefixOf_iff_prefix.2 opens] at missed
  · rcases List.mem_cons.1 here with rfl | later
    · exact Nat.le_refl _
    · refine Nat.le_of_not_lt fun longer => Nat.not_le_of_lt longer ?_
      have inside := List.prefix_of_prefix_length_le (List.isPrefixOf_iff_prefix.1 starts) opens (by omega)
      exact ((List.pairwise_cons.1 (List.pairwise_append.1 ordered).2.1).1 other later inside)

/-! ## The first segment -/

variable {c : Char} {rest : List Char}

/-- The run of digits that begins with a digit is a number. -/
theorem ruled_digits (digit : Text.Digit.isDigit c = true) (short : ShortRuns (c :: rest)) :
    Ruled (run (.token .number) Text.Digit.isDigit c rest).1 (run (.token .number) Text.Digit.isDigit c rest).2 := by
  have inside : c :: rest.takeWhile Text.Digit.isDigit <+: c :: rest :=
    List.cons_prefix_cons.2 ⟨rfl, List.takeWhile_prefix _⟩
  have digits : (c :: rest.takeWhile Text.Digit.isDigit).all Text.Digit.isDigit = true := by
    simp [digit, List.all_takeWhile]
  have fits := short _ inside.isInfix (List.all_eq_true.1 digits)
  refine @Ruled.token _ _ (.number _) (.number (List.cons_ne_nil _ _) digits fits) fun more w writes opens => ?_
  have opens : more <+: c :: rest := run_append (.token .number) Text.Digit.isDigit c rest ▸ opens
  rcases writes.cases_cons opens with ⟨-, within⟩ | ⟨rfl, -⟩ | ⟨starts, -⟩ | ⟨opener, -⟩
  · exact within
  · exact absurd digit (by decide)
  · simp [isDigit_of_startsWord starts] at digit
  · simp [isDigit_opener opener] at digit

/-- The run that begins with a letter is a word. -/
theorem ruled_word (starts : startsWord c = true) : Ruled (first c rest).1 (first c rest).2 := by
  rw [first_word starts]
  have continues : (rest.takeWhile continuesWord).all continuesWord = true := List.all_takeWhile
  refine @Ruled.token _ _ (.sign _ _) (.word starts continues) fun more w writes opens => ?_
  have opens : more <+: c :: rest := run_append (.token .identifier) continuesWord c rest ▸ opens
  rcases writes.cases_cons opens with ⟨digit, -⟩ | ⟨rfl, -⟩ | ⟨-, within⟩ | ⟨opener, -⟩
  · simp [isDigit_of_startsWord starts] at digit
  · exact absurd starts (by decide)
  · exact within
  · simp [startsWord_opener opener] at starts

/-- The sign with which a text begins. -/
theorem ruled_sign {found : List Char × Kind} (is : sign? (c :: rest) = some found) :
    Ruled ⟨.token found.2, found.1⟩ ((c :: rest).drop found.1.length) := by
  have listed := List.mem_of_find?_eq_some is
  have starts := List.find?_some (p := fun sign : List Char × Kind => sign.1.isPrefixOf (c :: rest)) is
  have parts := List.prefix_iff_eq_append.1 (List.isPrefixOf_iff_prefix.1 starts)
  have opener : c ∈ openers := by
    by_cases opener : c ∈ openers
    · exact opener
    · simp [sign?_eq_none rest opener] at is
  refine @Ruled.token _ _ (.sign _ _) (.sign listed) fun more w writes others => ?_
  rw [parts] at others
  rcases writes.cases_cons others with ⟨digit, -⟩ | ⟨rfl, -⟩ | ⟨starts, -⟩ | ⟨-, kind, other⟩
  · simp [isDigit_opener opener] at digit
  · exact absurd opener (by decide)
  · simp [startsWord_opener opener] at starts
  · exact length_le_of_sign? is other others

/-- What begins with a quote is a string, or else the quote is stray. -/
theorem ruled_quote : Ruled (string '\x22' rest).1 (string '\x22' rest).2 := by
  have parts := List.takeWhile_append_dropWhile (p := isInString) (l := rest)
  unfold string
  split
  · rename_i after closed
    rw [closed] at parts
    refine @Ruled.token _ _ (.string _) (.string List.all_takeWhile) fun more w writes opens => ?_
    have opens : more <+: '\x22' :: rest := by
      rw [← parts]
      simpa using opens
    rcases writes.cases_cons opens with ⟨digit, -⟩ | ⟨-, inner, others, same, inside, rfl⟩ | ⟨starts, -⟩ | ⟨opener, -⟩
    · exact absurd digit (by decide)
    · -- both stop at the first quote
      have whole : rest.takeWhile isInString = inner := by
        rw [same, List.takeWhile_append_of_pos inside]
        simp [isInString]
      simp [whole]
    · exact absurd starts (by decide)
    · exact absurd opener (by decide)
  · rename_i unclosed
    refine .stray (by decide) fun chars w writes opens => ?_
    rcases writes.cases_cons opens with ⟨digit, -⟩ | ⟨-, inner, others, rfl, inside, -⟩ | ⟨starts, -⟩ | ⟨opener, -⟩
    · exact absurd digit (by decide)
    · refine unclosed others ?_
      rw [List.dropWhile_append_of_pos inside]
      simp [isInString]
    · exact absurd starts (by decide)
    · exact absurd opener (by decide)

/-- A run of characters stops at one that does not go on with it. -/
theorem head?_dropWhile {holds : Char → Bool} {cs : List Char} {c : Char}
    (next : (cs.dropWhile holds).head? = some c) : holds c = false := by
  have stops := List.head?_dropWhile_not holds cs
  rw [next] at stops
  exact stops

/-- The first segment of a text is what it has to be, unless it is a number. -/
theorem ruled_first_of_not_digit (digit : ¬ Text.Digit.isDigit c = true) :
    Ruled (first c rest).1 (first c rest).2 := by
  by_cases quote : c = '\x22'
  · rw [quote, first_quote]
    exact ruled_quote
  by_cases starts : startsWord c = true
  · exact ruled_word starts
  by_cases blank : c = ' ' ∨ c = '\t'
  · rw [first_blank blank]
    exact .blank blank
  rw [first, if_neg (by simpa using blank)]
  cases found : sign? (c :: rest) with
  | some sign => exact ruled_sign found
  | none =>
    simp only [digit, quote, starts, beq_iff_eq, Bool.false_eq_true, if_false]
    split
    · rename_i mark
      rw [mark]
      refine .comment (fun inside => ?_) fun d next => ?_
      · simpa using List.all_eq_true.1 List.all_takeWhile _ inside
      · simpa using head?_dropWhile next
    split
    · rename_i lineEnd
      refine .lineEnds (List.cons_ne_nil _ _) (fun d member => ?_) fun next => ?_
      · rcases List.mem_cons.1 member with rfl | later
        · exact lineEnd
        · simpa using List.all_eq_true.1 List.all_takeWhile _ later
      · simpa using head?_dropWhile next
    · rename_i noMark noEnd
      refine .stray (by simp [not_or.1 blank, noMark, noEnd]) fun chars w writes opens => ?_
      rcases writes.cases_cons opens with ⟨is, -⟩ | ⟨is, -⟩ | ⟨is, -⟩ | ⟨-, kind, listed⟩
      · exact digit is
      · exact quote is
      · exact starts is
      · exact List.find?_eq_none.1 found _ listed (List.isPrefixOf_iff_prefix.2 opens)

/-- The first segment of a text is what it has to be. -/
theorem ruled_first (c : Char) (rest : List Char) (short : ShortRuns (c :: rest)) :
    Ruled (first c rest).1 (first c rest).2 := by
  by_cases digit : Text.Digit.isDigit c = true
  · rw [first_digit digit]
    exact ruled_digits digit short
  · exact ruled_first_of_not_digit digit

/-- A segment that is a lexeme of its kind or a run of digits that is too long, if it is a token. -/
def Lexical (s : Segment) : Prop :=
  ∀ kind, s.shape = .token kind → (∃ w, Lexeme s.chars w ∧ w.kind = kind) ∨
    kind = .number ∧ Text.Decimal.digitLimit < s.chars.length

theorem Ruled.lexical {s : Segment} (ruled : s.Ruled rest) : s.Lexical := by
  cases ruled with
  | token writes =>
    rintro kind ⟨⟩
    exact .inl ⟨_, writes, rfl⟩
  | _ => rintro kind ⟨⟩

theorem lexical_first (c : Char) (rest : List Char) : (first c rest).1.Lexical := by
  by_cases digit : Text.Digit.isDigit c = true
  · rw [first_digit digit]
    rintro kind ⟨⟩
    have digits : (c :: rest.takeWhile Text.Digit.isDigit).all Text.Digit.isDigit = true := by
      simp [digit, List.all_takeWhile]
    by_cases short : (c :: rest.takeWhile Text.Digit.isDigit).length ≤ Text.Decimal.digitLimit
    · exact .inl ⟨.number _, .number (List.cons_ne_nil _ _) digits short, rfl⟩
    · exact .inr ⟨rfl, Nat.lt_of_not_le short⟩
  · exact (ruled_first_of_not_digit digit).lexical

theorem lexical_upTo (count : Nat) (cs : List Char) : ∀ s ∈ upTo count cs, s.Lexical := by
  induction count generalizing cs with
  | zero => simp [upTo]
  | succ count ih =>
    cases cs with
    | nil => simp [upTo]
    | cons c rest => exact List.forall_mem_cons.2 ⟨lexical_first c rest, ih _⟩

/-- A token that a scan meets in a segment has the word that its characters write. -/
theorem Lexical.lexeme {s : Segment} (lexical : s.Lexical) {p : Place} {t : Token}
    (met : Item.ofSegment? s p = some (.token t)) : Lexeme s.chars t.word := by
  cases shape : s.shape with
  | token kind =>
    simp only [Item.ofSegment?, shape, Option.some.injEq] at met
    rcases lexical kind shape with ⟨w, writes, rfl⟩ | ⟨rfl, long⟩
    · rw [writes.ofToken_eq] at met
      cases met
      exact writes
    · simp [Item.ofToken, long] at met
  | stray => cases head : s.chars.head? <;> simp [Item.ofSegment?, shape, head] at met
  | blank | lineEnds | comment => simp [Item.ofSegment?, shape] at met

/-- A text falls into segments that are what they have to be. -/
inductive Falls : List Char → List Segment → Prop where
  | done : Falls [] []
  | segment {s : Segment} {rest : List Char} {others : List Segment} (ruled : s.Ruled rest)
      (falls : Falls rest others) : Falls (s.chars ++ rest) (s :: others)

/-- A text without runs of digits that are too long falls into its segments. -/
theorem falls_ofChars (cs : List Char) (short : ShortRuns cs) : Falls cs (ofChars cs) := by
  induction size : cs.length using Nat.strongRecOn generalizing cs with
  | ind size ih =>
    cases cs with
    | nil => exact .done
    | cons c rest =>
      have parts := first_append c rest
      have fewer := length_first_snd c rest
      have others : ShortRuns (first c rest).2 := ShortRuns.suffix (parts ▸ short)
      have falls := ih _ (by simp only [← size, List.length_cons]; omega) _ others rfl
      have whole := Falls.segment (ruled_first c rest short) falls
      rwa [parts, ← ofChars_cons] at whole

end Segment

namespace Scan

theorem lexeme_ofSegments (p : Place) {segments : List Segment} (lexical : ∀ s ∈ segments, s.Lexical) {t : Token}
    (member : .token t ∈ (ofSegments p segments).items) : ∃ chars, Lexeme chars t.word := by
  induction segments generalizing p with
  | nil => cases member
  | cons segment rest ih =>
    rw [List.forall_mem_cons] at lexical
    unfold ofSegments at member
    split at member
    · exact ih _ lexical.2 member
    · rename_i item met
      split at member
      · rw [← List.mem_singleton.1 member] at met
        exact ⟨_, lexical.1.lexeme met⟩
      · rcases List.mem_cons.1 member with rfl | later
        · exact ⟨_, lexical.1.lexeme met⟩
        · exact ih _ lexical.2 later

/-- Every token of a text is written by some characters. -/
theorem lexeme_ofText {text : String} {t : Token} (member : .token t ∈ (ofText text).items) :
    ∃ chars, Lexeme chars t.word :=
  lexeme_ofSegments .start (Segment.lexical_upTo _ _) member

end Scan

/-! ## Stretches -/

/-- A segment with the position at which it starts. -/
structure Stretch where
  start : Nat
  segment : Segment

namespace Stretch

/-- The position after a stretch. -/
def stop (s : Stretch) : Nat := s.start + s.segment.chars.length

/-- A position lies in a stretch. -/
def Covers (s : Stretch) (i : Nat) : Prop := s.start ≤ i ∧ i < s.stop

/-- Whether a scan says anything about a stretch. -/
def visible (s : Stretch) : Bool :=
  match s.segment.shape with
  | .blank | .lineEnds | .comment => false
  | .token _ | .stray => true

/-- Segments side by side, from a position on. -/
def place (start : Nat) : List Segment → List Stretch
  | [] => []
  | s :: others => ⟨start, s⟩ :: place (start + s.chars.length) others

/-- The line on which a position of a text lies. -/
def lineAt (cs : List Char) (i : Nat) : Nat := 1 + (cs.take i).count '\n'

/-- What a scan of a text meets in a stretch: its token or its stray character, at its place. -/
inductive Meets (cs : List Char) : Stretch → Item → Prop where
  | token {s : Stretch} {t : Token} (shape : s.segment.shape = .token t.kind)
      (writes : Lexeme s.segment.chars t.word) (starts : t.index = s.start) (line : t.line = lineAt cs s.start) :
      Meets cs s (.token t)
  | stray {s : Stretch} {c : Char} (shape : s.segment.shape = .stray) (is : s.segment.chars = [c]) :
      Meets cs s (.stray c (lineAt cs s.start))

end Stretch

/-- Stretches that share out a text among them: each is what it has to be where it stands, they follow one another,
and each character stands in exactly one. -/
structure SharesOut (cs : List Char) (stretches : List Stretch) : Prop where
  within : ∀ s ∈ stretches, cs.drop s.start = s.segment.chars ++ cs.drop s.stop
  ruled : ∀ s ∈ stretches, s.segment.Ruled (cs.drop s.stop)
  ordered : stretches.Pairwise fun a b => a.stop ≤ b.start
  once : ∀ i < cs.length, ∃! s, s ∈ stretches ∧ s.Covers i

theorem Stretch.start_le_of_mem_place {segments : List Segment} {start : Nat} {s : Stretch}
    (member : s ∈ place start segments) : start ≤ s.start := by
  induction segments generalizing start with
  | nil => simp [place] at member
  | cons first others ih =>
    rcases List.mem_cons.1 member with rfl | later
    · exact Nat.le_refl _
    · exact Nat.le_trans (Nat.le_add_right _ _) (ih later)

theorem Stretch.ordered_place (segments : List Segment) (start : Nat) :
    (place start segments).Pairwise fun a b => a.stop ≤ b.start := by
  induction segments generalizing start with
  | nil => exact .nil
  | cons first others ih => exact .cons (fun _ later => start_le_of_mem_place later) (ih _)

namespace Segment.Falls

open Stretch

variable {front rest : List Char} {segments : List Segment}

/-- Each segment of the rest of a text stands where it is placed, and is what it has to be there. -/
theorem within_place (falls : Falls rest segments) : ∀ s ∈ place front.length segments,
    (front ++ rest).drop s.start = s.segment.chars ++ (front ++ rest).drop s.stop ∧
      s.segment.Ruled ((front ++ rest).drop s.stop) := by
  induction falls generalizing front with
  | done => simp [place]
  | @segment first rest others ruled falls ih =>
    intro s member
    rcases List.mem_cons.1 member with rfl | later
    · have here : (front ++ (first.chars ++ rest)).drop front.length = first.chars ++ rest := List.drop_left
      have after : (front ++ (first.chars ++ rest)).drop (front.length + first.chars.length) = rest := by
        rw [← List.drop_drop, here, List.drop_left]
      rw [stop, here, after]
      exact ⟨rfl, ruled⟩
    · rw [← List.length_append] at later
      rw [← List.append_assoc]
      exact ih s later

/-- Each position in the rest of a text lies in exactly one of the places of its segments. -/
theorem once_place (falls : Falls rest segments) (start i : Nat) (inside : start ≤ i ∧ i < start + rest.length) :
    ∃! s, s ∈ place start segments ∧ s.Covers i := by
  induction falls generalizing start with
  | done => simp at inside; omega
  | @segment first rest others ruled falls ih =>
    rw [List.length_append] at inside
    by_cases here : i < start + first.chars.length
    · refine ⟨⟨start, first⟩, ⟨List.mem_cons_self, inside.1, here⟩, ?_⟩
      rintro s ⟨member, covers⟩
      rcases List.mem_cons.1 member with rfl | later
      · rfl
      · exact absurd (Nat.le_trans (start_le_of_mem_place later) covers.1) (Nat.not_le_of_lt here)
    · obtain ⟨s, ⟨later, covers⟩, only⟩ := ih (start + first.chars.length) (by omega)
      refine ⟨s, ⟨List.mem_cons_of_mem _ later, covers⟩, ?_⟩
      rintro other ⟨member, coversToo⟩
      rcases List.mem_cons.1 member with rfl | among
      · exact absurd coversToo.2 here
      · exact only other ⟨among, coversToo⟩

/-- A scan of the rest of a text meets the visible ones among its segments, each at its place, and ends where the
text does. -/
theorem scan_ofSegments (falls : Falls rest segments) :
    List.Forall₂ (Meets (front ++ rest)) ((place front.length segments).filter visible)
      (Scan.ofSegments (Place.start.after front) segments).items ∧
    (Scan.ofSegments (Place.start.after front) segments).stop = Place.start.after (front ++ rest) := by
  induction falls generalizing front with
  | done => simp [place, Scan.ofSegments]
  | @segment first rest others ruled falls ih =>
    have index : (Place.start.after front).index = front.length := by simp [Place.after, Place.start]
    have line (more : List Char) : (Place.start.after front).line = lineAt (front ++ more) front.length := by
      rw [lineAt, List.take_left]
      rfl
    have on : (Place.start.after front).after first.chars = Place.start.after (front ++ first.chars) := by
      simp [Place.after, List.count_append, Nat.add_assoc]
    obtain ⟨items, stop⟩ := @ih (front ++ first.chars)
    rw [List.length_append, List.append_assoc] at items
    rw [List.append_assoc] at stop
    cases ruled with
    | blank | lineEnds | comment =>
      simp only [Scan.ofSegments, Item.ofSegment?, on, place, visible, List.filter_cons_of_neg, Bool.false_eq_true,
        not_false_iff]
      exact ⟨items, stop⟩
    | token writes longest =>
      simp only [Scan.ofSegments, Item.ofSegment?, writes.ofToken_eq, on, Item.isLast, Bool.false_eq_true, if_false]
      exact ⟨.cons (.token rfl writes index (line _)) items, stop⟩
    | stray =>
      simp only [Scan.ofSegments, Item.ofSegment?, List.head?_cons, Option.map_some, on, Item.isLast,
        Bool.false_eq_true, if_false]
      refine ⟨.cons ?_ items, stop⟩
      rw [line]
      exact .stray rfl rfl

end Segment.Falls

/-- In a text without runs of digits that are too long, every character stands in exactly one blank, run of line
ends, comment, token or stray character. The scan meets these tokens and stray characters, each once and in order:
a token at the position at which its lexeme stands, both on the line that the line ends before them give. It ends
after the last character, on the last line. -/
theorem scan_accounts (text : String) (short : ShortRuns text.toList) :
    ∃ stretches, SharesOut text.toList stretches ∧
      List.Forall₂ (Stretch.Meets text.toList) (stretches.filter Stretch.visible) (Scan.ofText text).items ∧
      (Scan.ofText text).stop = ⟨1 + text.toList.count '\n', text.toList.length⟩ := by
  have falls := Segment.falls_ofChars text.toList short
  have within := @Segment.Falls.within_place [] _ _ falls
  obtain ⟨items, stop⟩ := @Segment.Falls.scan_ofSegments [] _ _ falls
  refine ⟨Stretch.place 0 (Segment.ofChars text.toList), ⟨?_, ?_, ?_, ?_⟩, items, ?_⟩
  · exact fun s member => (within s member).1
  · exact fun s member => (within s member).2
  · exact Stretch.ordered_place _ 0
  · exact fun i inside => falls.once_place 0 i ⟨Nat.zero_le i, by simpa using inside⟩
  · simpa [Scan.ofText, Place.after, Place.start] using stop

/-- A string that holds a comment sign, a comment that holds a quote, two line ends, signs side by side and two stray
characters. -/
theorem scan_accounts_of_neighbours :
    let text := "s:=\x22a#b\x22#\x22\n\n<==>$ \x22"
    ShortRuns text.toList ∧
      Scan.ofText text = ⟨[.token ⟨.identifier, .text "s", 1, 0⟩, .token ⟨.assign, .text ":=", 1, 1⟩,
        .token ⟨.string, .text "a#b", 1, 3⟩, .token ⟨.compareOp, .text "<=", 3, 12⟩,
        .token ⟨.arrow, .text "=>", 3, 14⟩, .stray '$' 3, .stray '\x22' 3], ⟨3, 19⟩⟩ ∧
      ∃ stretches, SharesOut text.toList stretches ∧
        List.Forall₂ (Stretch.Meets text.toList) (stretches.filter Stretch.visible) (Scan.ofText text).items ∧
        (Scan.ofText text).stop = ⟨1 + text.toList.count '\n', text.toList.length⟩ := by
  intro text
  have short : ShortRuns text.toList := fun run inside _ => Nat.le_trans inside.length_le (by decide +kernel)
  exact ⟨short, by decide +kernel, scan_accounts text short⟩

end DotLambda
