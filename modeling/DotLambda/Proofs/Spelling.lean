import DotLambda.Proofs.Reading

/-!
How words are written. A line spells words if it is their lexemes in order, with any spaces and tabs
between them, where none is read together with the next one. Main statement: scanning such a line gives
tokens with exactly these words and meets nothing else.
-/

namespace DotLambda

/-- The characters that write a word. -/
inductive Lexeme : List Char → Word → Prop where
  | number {digits : List Char} (some : digits ≠ []) (all : digits.all Text.Digit.isDigit = true)
      (short : digits.length ≤ Text.Decimal.digitLimit) :
      Lexeme digits (.number (Text.Digit.number digits))
  | string {chars : List Char} (inside : chars.all Segment.isInString = true) :
      Lexeme ('\x22' :: chars ++ ['\x22']) (.string (String.ofList chars))
  /-- A name or a keyword. -/
  | word {c : Char} {rest : List Char} (starts : Segment.startsWord c = true)
      (continues : rest.all Segment.continuesWord = true) :
      Lexeme (c :: rest) (.sign (Kind.ofWord (String.ofList (c :: rest))) (String.ofList (c :: rest)))
  | sign {chars : List Char} {kind : Kind} (listed : (chars, kind) ∈ Segment.signs) :
      Lexeme chars (.sign kind (String.ofList chars))

/-- Whether a character can stand in a name or a number. -/
def inWord (c : Char) : Bool := Segment.continuesWord c || Text.Digit.isDigit c

/-- Whether two characters that stand side by side would be read together. -/
def glued (a b : Char) : Bool := inWord a && inWord b || (a == '<' || a == '>') && b == '='

/-- Nothing of one text is read together with the next one. -/
def Separate (front rest : List Char) : Prop :=
  match front.getLast?, rest.head? with
  | some a, some b => glued a b = false
  | _, _ => True

instance (front rest : List Char) : Decidable (Separate front rest) :=
  match last : front.getLast?, first : rest.head? with
  | some a, some b => decidable_of_iff (glued a b = false) (by simp [Separate, last, first])
  | some _, none => isTrue (by simp [Separate, last, first])
  | none, _ => isTrue (by simp [Separate, last])

/-- A text that writes words. -/
inductive Spells : List Char → List Word → Prop where
  | done : Spells [] []
  | blank {c : Char} {rest : List Char} {words : List Word} (is : c = ' ' ∨ c = '\t')
      (spelled : Spells rest words) : Spells (c :: rest) words
  | lexeme {chars rest : List Char} {w : Word} {words : List Word} (writes : Lexeme chars w)
      (apart : Separate chars rest) (spelled : Spells rest words) : Spells (chars ++ rest) (w :: words)

theorem Separate.not_glued {front rest : List Char} (apart : Separate front rest) {a b : Char}
    (last : front.getLast? = some a) (first : rest.head? = some b) : glued a b = false := by
  simpa [Separate, last, first] using apart

/-! ## Segments -/

namespace Segment

theorem upTo_eq_upTo (some other : Nat) (cs : List Char) (enough : cs.length ≤ some)
    (alsoEnough : cs.length ≤ other) : upTo some cs = upTo other cs := by
  induction some generalizing other cs with
  | zero =>
    obtain rfl := List.length_eq_zero_iff.1 (Nat.le_zero.1 enough)
    cases other <;> rfl
  | succ count ih =>
    cases cs with
    | nil => cases other <;> rfl
    | cons c rest =>
      simp only [List.length_cons] at enough alsoEnough
      obtain ⟨others, rfl⟩ : ∃ others, other = others + 1 := ⟨other - 1, by omega⟩
      have fewer := length_first_snd c rest
      rw [upTo, upTo, ih others _ (by omega) (by omega)]

/-- The segments of a text are its first one and those of the rest. -/
theorem ofChars_cons (c : Char) (rest : List Char) :
    ofChars (c :: rest) = (first c rest).1 :: ofChars (first c rest).2 := by
  have fewer := length_first_snd c rest
  rw [ofChars, List.length_cons, upTo, upTo_eq_upTo _ _ _ fewer (Nat.le_refl _), ofChars]

/-- A run stops where the next character does not go on with it. -/
theorem run_eq {shape : Shape} {holds : Char → Bool} {c : Char} {more rest : List Char}
    (all : ∀ d ∈ more, holds d = true) (stops : ∀ d ∈ rest.head?, holds d = false) :
    run shape holds c (more ++ rest) = (⟨shape, c :: more⟩, rest) := by
  have nothing : rest.takeWhile holds = [] ∧ rest.dropWhile holds = rest := by
    cases rest with
    | nil => exact ⟨rfl, rfl⟩
    | cons d others => simp [stops d rfl]
  rw [run, List.takeWhile_append_of_pos all, List.dropWhile_append_of_pos all, nothing.1, nothing.2,
    List.append_nil]

theorem string_eq {chars rest : List Char} (inside : ∀ c ∈ chars, isInString c = true) (mark : Char) :
    string mark (chars ++ '\x22' :: rest) =
      (⟨.token .string, mark :: chars ++ ['\x22']⟩, rest) := by
  have quote : isInString '\x22' = false := by decide
  rw [string, List.dropWhile_append_of_pos inside, List.takeWhile_append_of_pos inside]
  simp [quote]

/-- The characters with which signs begin. -/
def openers : List Char := signs.filterMap fun sign => sign.1.head?

theorem sign_ne_nil : ∀ sign ∈ signs, sign.1 ≠ [] := by decide

theorem sign_kind_ne : ∀ sign ∈ signs, sign.2 ≠ .number ∧ sign.2 ≠ .string := by decide

theorem continuesWord_of_startsWord {c : Char} (starts : startsWord c = true) : continuesWord c = true := by
  rw [startsWord, Bool.or_eq_true] at starts
  rw [continuesWord, Char.isAlphanum, Bool.or_eq_true, Bool.or_eq_true]
  rcases starts with letter | underscore
  · exact .inl (.inl letter)
  · exact .inr underscore

theorem sign?_eq_none {c : Char} (rest : List Char) (other : c ∉ openers) : sign? (c :: rest) = none := by
  rw [sign?, List.find?_eq_none]
  intro sign listed starts
  obtain ⟨d, more, chars⟩ := List.exists_cons_of_ne_nil (sign_ne_nil sign listed)
  obtain ⟨after, parts⟩ := List.isPrefixOf_iff_prefix.1 starts
  rw [chars, List.cons_append] at parts
  refine other (List.mem_filterMap.2 ⟨sign, listed, ?_⟩)
  rw [chars, List.head?_cons, (List.cons.inj parts).1]

private theorem sign?_mark {mark : Char} (is : mark = '<' ∨ mark = '>') {rest : List Char}
    (apart : Separate [mark] rest) : sign? (mark :: rest) = some ([mark], .compareOp) := by
  cases rest with
  | nil => rcases is with rfl | rfl <;> rfl
  | cons d more =>
    have longer : ('=' == d) = false := by
      rw [beq_eq_false_iff_ne]
      rintro rfl
      have alone := apart.not_glued rfl rfl
      rcases is with rfl | rfl <;> exact absurd alone (by decide)
    rcases is with rfl | rfl <;> simp [sign?, signs, List.find?, List.isPrefixOf, longer]

/-- A sign is read as a whole, unless the next character makes a longer one of it. -/
theorem sign?_append : ∀ sign ∈ signs, ∀ rest, Separate sign.1 rest →
    sign? (sign.1 ++ rest) = some sign := by
  simp only [signs, List.forall_mem_cons]
  refine ⟨fun _ _ => rfl, fun _ _ => rfl, fun _ _ => rfl, fun _ _ => rfl, fun _ _ => rfl,
    fun _ _ => rfl, fun _ _ => rfl, fun _ _ => rfl, fun _ _ => rfl, fun _ _ => rfl, fun _ _ => rfl,
    fun _ _ => rfl, fun _ _ => rfl, fun _ _ => rfl, ?_, ?_, fun _ _ => rfl, fun _ _ => rfl,
    fun _ _ => rfl, ?_⟩
  · exact fun rest apart => sign?_mark (.inr rfl) apart
  · exact fun rest apart => sign?_mark (.inl rfl) apart
  · simp

theorem isDigit_opener {c : Char} (opens : c ∈ openers) : Text.Digit.isDigit c = false := by
  have table : openers.all (fun c => !Text.Digit.isDigit c) = true := by decide
  simpa using List.all_eq_true.1 table c opens

theorem startsWord_opener {c : Char} (opens : c ∈ openers) : startsWord c = false := by
  have table : openers.all (fun c => !startsWord c) = true := by decide
  simpa using List.all_eq_true.1 table c opens

/-- No word begins with a digit, of whatever script. -/
theorem isDigit_of_startsWord {c : Char} (starts : startsWord c = true) : Text.Digit.isDigit c = false := by
  have zeros : ∀ start ∈ Text.Digit.zeros, start = 48 ∨ 128 ≤ start := by decide
  have letter : 65 ≤ c.toNat ∧ c.toNat < 128 := by
    change (decide ('A'.val ≤ c.val ∧ c.val ≤ 'Z'.val) ||
      (decide ('a'.val ≤ c.val) && decide (c.val ≤ 'z'.val)) || c == '_') = true at starts
    simp only [Bool.or_eq_true, Bool.and_eq_true, decide_eq_true_eq, beq_iff_eq,
      UInt32.le_iff_toNat_le] at starts
    change ((65 ≤ c.toNat ∧ c.toNat ≤ 90) ∨ (97 ≤ c.toNat ∧ c.toNat ≤ 122)) ∨ c = '_' at starts
    rcases starts with (upper | lower) | rfl
    · omega
    · omega
    · decide
  rw [Text.Digit.isDigit, Text.Digit.value?, Option.isSome_map, Option.isSome_eq_false_iff,
    Option.isNone_iff_eq_none, List.find?_eq_none]
  intro start listed inside
  simp only [Bool.and_eq_true, decide_eq_true_eq] at inside
  have := zeros start listed
  omega

theorem first_blank {c : Char} (is : c = ' ' ∨ c = '\t') (rest : List Char) :
    first c rest = (⟨.blank, [c]⟩, rest) := by
  rcases is with rfl | rfl <;> rfl

private theorem visible_of {holds : Char → Bool} {c : Char} (held : holds c = true)
    (space : holds ' ' = false) (tab : holds '\t' = false) : (c == ' ' || c == '\t') = false := by
  rw [Bool.or_eq_false_iff, beq_eq_false_iff_ne, beq_eq_false_iff_ne]
  constructor <;> rintro rfl
  · exact absurd held (by simp [space])
  · exact absurd held (by simp [tab])

theorem first_sign {c : Char} {rest more : List Char} {sign : List Char × Kind} (listed : sign ∈ signs)
    (apart : Separate sign.1 rest) (opens : sign.1 ++ rest = c :: more) :
    first c more = (⟨.token sign.2, sign.1⟩, rest) := by
  have found : sign? (c :: more) = some sign := opens ▸ sign?_append sign listed rest apart
  have visible := @visible_of (fun c => (sign? (c :: more)).isSome) c (by simp [found])
    (by rw [sign?_eq_none more (by decide)]; rfl) (by rw [sign?_eq_none more (by decide)]; rfl)
  rw [first, visible, found, ← opens]
  simp

theorem first_digit {c : Char} (digit : Text.Digit.isDigit c = true) (rest : List Char) :
    first c rest = run (.token .number) Text.Digit.isDigit c rest := by
  have unsigned : c ∉ openers := fun opens => by simp [isDigit_opener opens] at digit
  rw [first, visible_of digit (by decide) (by decide), sign?_eq_none rest unsigned]
  simp [digit]

theorem first_quote (rest : List Char) : first '\x22' rest = string '\x22' rest := by
  have unsigned : '\x22' ∉ openers := by decide
  rw [first, sign?_eq_none rest unsigned]
  rfl

theorem first_word {c : Char} (starts : startsWord c = true) (rest : List Char) :
    first c rest =
      (⟨.token (Kind.ofWord (String.ofList (run (.token .identifier) continuesWord c rest).1.chars)),
        (run (.token .identifier) continuesWord c rest).1.chars⟩,
        (run (.token .identifier) continuesWord c rest).2) := by
  have unsigned : c ∉ openers := fun opens => by simp [startsWord_opener opens] at starts
  have unquoted : (c == '\x22') = false := by
    rw [beq_eq_false_iff_ne]
    rintro rfl
    exact absurd starts (by decide)
  rw [first, visible_of starts (by decide) (by decide), sign?_eq_none rest unsigned]
  simp [isDigit_of_startsWord starts, unquoted, starts]

end Segment

/-! ## Scanning -/

theorem Separate.stops {front rest : List Char} (apart : Separate front rest) (some : front ≠ [])
    (inside : ∀ c ∈ front, inWord c = true) : ∀ d ∈ rest.head?, inWord d = false := by
  intro d first
  have alone := apart.not_glued (List.getLast?_eq_some_getLast some) first
  have last := inside _ (List.getLast_mem some)
  simp only [glued, last, Bool.true_and, Bool.or_eq_false_iff] at alone
  exact alone.1

/-- The kind of a word is that of a keyword or of identifiers. -/
theorem Kind.forall_ofWord {p : Kind → Prop} (word : String) (other : p .identifier)
    (table : ∀ entry ∈ Kind.keywords, p entry.2) : p (Kind.ofWord word) := by
  rw [Kind.ofWord]
  cases found : Kind.keywords.lookup word with
  | none => exact other
  | some kind =>
    obtain ⟨front, back, listed, -⟩ := List.lookup_eq_some_iff.1 found
    exact table (word, kind) (by simp [listed])

theorem Kind.ofWord_ne (word : String) : Kind.ofWord word ≠ .number ∧ Kind.ofWord word ≠ .string :=
  Kind.forall_ofWord (p := fun kind => kind ≠ .number ∧ kind ≠ .string) word (by decide) (by decide)

theorem Item.ofToken_other {kind : Kind} {chars : List Char} {p : Place}
    (other : kind ≠ .number ∧ kind ≠ .string) :
    Item.ofToken kind chars p = .token ⟨kind, .text (String.ofList chars), p.line, p.index⟩ := by
  obtain ⟨notNumber, notString⟩ := other
  cases kind <;> first | contradiction | rfl

namespace Lexeme

variable {chars rest : List Char} {w : Word}

/-- A lexeme that stands apart is a segment of its own. -/
theorem ofChars_append (writes : Lexeme chars w) (apart : Separate chars rest) :
    Segment.ofChars (chars ++ rest) = ⟨.token w.kind, chars⟩ :: Segment.ofChars rest := by
  cases writes with
  | number some digits short =>
    have all := List.all_eq_true.1 digits
    obtain ⟨c, more, rfl⟩ := List.exists_cons_of_ne_nil some
    have stops := apart.stops some fun d member => by simp [inWord, all d member]
    have read : Segment.first c (more ++ rest) = (⟨.token .number, c :: more⟩, rest) := by
      rw [Segment.first_digit (all c List.mem_cons_self)]
      refine Segment.run_eq (fun d member => all d (List.mem_cons_of_mem c member)) fun d first => ?_
      exact (Bool.or_eq_false_iff.1 (stops d first)).2
    rw [List.cons_append, Segment.ofChars_cons, read]
    rfl
  | @string inner inside =>
    have quoted : Segment.first '\x22' (inner ++ '\x22' :: rest) =
        (⟨.token .string, '\x22' :: inner ++ ['\x22']⟩, rest) := by
      rw [Segment.first_quote, Segment.string_eq (List.all_eq_true.1 inside)]
    rw [List.cons_append, List.cons_append, List.append_assoc, List.singleton_append,
      Segment.ofChars_cons, quoted]
    rfl
  | @word c more starts all =>
    have continues := List.all_eq_true.1 all
    have inside : ∀ d ∈ c :: more, inWord d = true := by
      intro d member
      rcases List.mem_cons.1 member with rfl | later
      · simp [inWord, Segment.continuesWord_of_startsWord starts]
      · simp [inWord, continues d later]
    have stops := apart.stops (List.cons_ne_nil c more) inside
    have run : Segment.run (.token .identifier) Segment.continuesWord c (more ++ rest) =
        (⟨.token .identifier, c :: more⟩, rest) :=
      Segment.run_eq continues fun d first => (Bool.or_eq_false_iff.1 (stops d first)).1
    rw [List.cons_append, Segment.ofChars_cons, Segment.first_word starts, run]
    rfl
  | sign listed =>
    cases opens : chars ++ rest with
    | nil =>
      exact absurd (List.append_eq_nil_iff.1 opens).1 (Segment.sign_ne_nil _ listed)
    | cons c more => rw [Segment.ofChars_cons, Segment.first_sign listed apart opens]; rfl

/-- A lexeme is scanned as its word. -/
theorem ofToken_eq (writes : Lexeme chars w) (p : Place) :
    Item.ofToken w.kind chars p = .token ⟨w.kind, w.content, p.line, p.index⟩ := by
  cases writes with
  | number some all short => exact if_neg (Nat.not_lt.2 short)
  | @string inner inside =>
    change Item.token ⟨.string, .text (String.ofList (inner ++ ['\x22']).dropLast), _, _⟩ = _
    rw [List.dropLast_concat]
    rfl
  | word starts continues => exact Item.ofToken_other (Kind.ofWord_ne _)
  | sign listed => exact Item.ofToken_other (Segment.sign_kind_ne _ listed)

/-- A name is written as it is, with the characters that names have. -/
theorem of_identifier (writes : Lexeme chars w) (named : w.kind = .identifier) :
    w.content = .text (String.ofList chars) ∧ ∀ c ∈ chars, Segment.continuesWord c = true := by
  cases writes with
  | number | string => cases named
  | word starts continues =>
    refine ⟨rfl, List.forall_mem_cons.2 ⟨Segment.continuesWord_of_startsWord starts, ?_⟩⟩
    exact List.all_eq_true.1 continues
  | sign listed =>
    have table : ∀ sign ∈ Segment.signs, sign.2 ≠ .identifier := by decide
    exact absurd named (table _ listed)

end Lexeme

/-- A scan that meets nothing but tokens with some words. -/
def Scan.Of (scan : Scan) (words : List Word) : Prop :=
  ∃ tokens : List Token, scan.items = tokens.map .token ∧ tokens.map Token.word = words

theorem Scan.tokens_eq {scan : Scan} {tokens : List Token} (items : scan.items = tokens.map .token) :
    scan.tokens = tokens := by
  rw [Scan.tokens, items, List.filterMap_map]
  exact List.filterMap_some

instance (scan : Scan) (words : List Word) : Decidable (scan.Of words) :=
  decidable_of_iff (scan.items = scan.tokens.map .token ∧ scan.tokens.map Token.word = words)
    ⟨fun ⟨items, same⟩ => ⟨scan.tokens, items, same⟩,
      fun ⟨tokens, items, same⟩ => by rw [Scan.tokens_eq items]; exact ⟨items, same⟩⟩

/-- A scan meets a word that stands apart, and then what follows it. -/
theorem Scan.of_lexeme {chars rest : List Char} {w : Word} {words : List Word} (writes : Lexeme chars w)
    (apart : Separate chars rest) (scanned : ∀ p, (ofSegments p (Segment.ofChars rest)).Of words) (p : Place) :
    (ofSegments p (Segment.ofChars (chars ++ rest))).Of (w :: words) := by
  obtain ⟨tokens, items, same⟩ := scanned (p.after chars)
  refine ⟨⟨w.kind, w.content, p.line, p.index⟩ :: tokens, ?_, by simp [Token.word, same]⟩
  rw [writes.ofChars_append apart, ofSegments]
  simp [Item.ofSegment?, writes.ofToken_eq p, Item.isLast, items]

/-- A text that writes words is scanned as these words. -/
theorem Spells.scan_ofSegments {chars : List Char} {words : List Word} (spelled : Spells chars words)
    (p : Place) : (Scan.ofSegments p (Segment.ofChars chars)).Of words := by
  induction spelled generalizing p with
  | done => exact ⟨[], rfl, rfl⟩
  | @blank c rest words is spelled ih =>
    rw [Segment.ofChars_cons, Segment.first_blank is, Scan.ofSegments]
    exact ih _
  | lexeme writes apart _ ih => exact Scan.of_lexeme writes apart ih p

/-- A line that writes words is scanned as these words. -/
theorem Spells.scan_ofText {line : String} {words : List Word} (spelled : Spells line.toList words) :
    (Scan.ofText line).Of words :=
  spelled.scan_ofSegments .start

/-! ## Line ends -/

theorem Place.after_append (p : Place) (front rest : List Char) :
    p.after (front ++ rest) = (p.after front).after rest := by
  simp only [after, List.count_append, List.length_append, Nat.add_assoc]

namespace Scan

open Segment

/-- A scan passes over the line ends with which a text begins. -/
theorem ofChars_lineEnds (p : Place) (cs : List Char) :
    ofSegments p (ofChars cs) =
      ofSegments (p.after (cs.takeWhile (· == '\n'))) (ofChars (cs.dropWhile (· == '\n'))) := by
  cases cs with
  | nil => rfl
  | cons c rest =>
    by_cases lineEnd : c = '\n'
    · subst lineEnd
      rw [ofChars_cons]
      rfl
    · simp [lineEnd, Place.after]

/-- A line end joins the ones after it, and moves what follows like a line end of its own. -/
theorem ofChars_lineEnd (p : Place) (cs : List Char) :
    ofSegments p (ofChars ('\n' :: cs)) = ofSegments (p.after ['\n']) (ofChars cs) := by
  rw [ofChars_lineEnds p, ofChars_lineEnds (p.after ['\n']), ← Place.after_append]
  rfl

end Scan

end DotLambda
