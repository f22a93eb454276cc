import DotLambda.Token
import DotLambda.Text.Digit

/-!
Segments: a text falls into blanks, line ends, comments, tokens and stray characters, each segment
being the first rule that matches where the one before ends. Main statement: the segments of a text,
put together again, are the text.
-/

namespace DotLambda

/-- What a stretch of text is. -/
inductive Shape where
  /-- A space or a tab. -/
  | blank
  | lineEnds
  | comment
  | token (kind : Kind)
  /-- A character that begins no token. -/
  | stray
deriving DecidableEq

/-- A stretch of text with what it is. -/
structure Segment where
  shape : Shape
  chars : List Char
deriving DecidableEq

namespace Segment

/-- The signs. A sign stands before the shorter ones with which it begins. -/
def signs : List (List Char × Kind) := [
  ([':', '='], .assign), (['('], .leftParen), ([')'], .rightParen), (['.'], .dot),
  (['=', '>'], .arrow), (['\\'], .lambda), (['+'], .addOp), (['-'], .addOp), (['*'], .multOp),
  (['/'], .multOp), (['=', '='], .equalOp), (['!', '='], .equalOp), (['>', '='], .compareOp),
  (['<', '='], .compareOp), (['>'], .compareOp), (['<'], .compareOp), (['['], .leftBracket),
  ([']'], .rightBracket), ([','], .comma)]

/-- The sign with which a text begins. -/
def sign? (cs : List Char) : Option (List Char × Kind) :=
  signs.find? fun sign => sign.1.isPrefixOf cs

/-- Whether a word can begin with a character. -/
def startsWord (c : Char) : Bool := c.isAlpha || c == '_'

/-- Whether a word can go on with a character. -/
def continuesWord (c : Char) : Bool := c.isAlphanum || c == '_'

/-- Whether a character can stand between the quotes of a string. -/
def isInString (c : Char) : Bool := c != '\x22' && c != '\n'

/-- A first character together with the run of characters after it that satisfy a condition. -/
def run (shape : Shape) (holds : Char → Bool) (c : Char) (rest : List Char) : Segment × List Char :=
  (⟨shape, c :: rest.takeWhile holds⟩, rest.dropWhile holds)

/-- The string that begins with a quote: up to the next quote, if that comes before the line ends.
Otherwise the quote is stray. -/
def string (mark : Char) (rest : List Char) : Segment × List Char :=
  match rest.dropWhile isInString with
  | '\x22' :: after => (⟨.token .string, mark :: rest.takeWhile isInString ++ ['\x22']⟩, after)
  | _ => (⟨.stray, [mark]⟩, rest)

/-- The first segment of a text and what follows it. -/
def first (c : Char) (rest : List Char) : Segment × List Char :=
  if c == ' ' || c == '\t' then (⟨.blank, [c]⟩, rest)
  else
    match sign? (c :: rest) with
    | some (sign, kind) => (⟨.token kind, sign⟩, (c :: rest).drop sign.length)
    | none =>
      if Text.Digit.isDigit c then run (.token .number) Text.Digit.isDigit c rest
      else if c == '\x22' then string c rest
      else if startsWord c then
        let word := run (.token .identifier) continuesWord c rest
        (⟨.token (Kind.ofWord (String.ofList word.1.chars)), word.1.chars⟩, word.2)
      else if c == '#' then run .comment (· != '\n') c rest
      else if c == '\n' then run .lineEnds (· == '\n') c rest
      else (⟨.stray, [c]⟩, rest)

/-- At most `count` segments of a text, from its start. -/
def upTo : (count : Nat) → List Char → List Segment
  | 0, _ => []
  | _, [] => []
  | count + 1, c :: rest => (first c rest).1 :: upTo count (first c rest).2

/-- The segments of a text. None is empty, so there are at most as many as characters. -/
def ofChars (cs : List Char) : List Segment := upTo cs.length cs

theorem run_append (shape : Shape) (holds : Char → Bool) (c : Char) (rest : List Char) :
    (run shape holds c rest).1.chars ++ (run shape holds c rest).2 = c :: rest := by
  simp [run, List.takeWhile_append_dropWhile]

theorem string_append (mark : Char) (rest : List Char) :
    (string mark rest).1.chars ++ (string mark rest).2 = mark :: rest := by
  unfold string
  split
  · rename_i after closed
    have parts := List.takeWhile_append_dropWhile (p := isInString) (l := rest)
    rw [closed] at parts
    simpa using parts
  · rfl

/-- Nothing is lost between the first segment and the rest. -/
theorem first_append (c : Char) (rest : List Char) :
    (first c rest).1.chars ++ (first c rest).2 = c :: rest := by
  unfold first
  split
  · rfl
  split
  · rename_i sign kind found
    have opens := List.find?_some found
    obtain ⟨after, parts⟩ := List.isPrefixOf_iff_prefix.1 opens
    rw [← parts]
    simp
  · split
    · exact run_append ..
    split
    · exact string_append ..
    split
    · exact run_append (.token .identifier) continuesWord c rest
    split
    · exact run_append ..
    split
    · exact run_append ..
    · rfl

/-- Every segment has a character. -/
theorem first_chars_ne_nil (c : Char) (rest : List Char) : (first c rest).1.chars ≠ [] := by
  unfold first
  split
  · simp
  split
  · rename_i sign kind found
    have listed := List.mem_of_find?_eq_some found
    revert listed
    simp only [signs, List.mem_cons, Prod.mk.injEq, List.not_mem_nil, or_false]
    rintro listed rfl
    simp at listed
  · split
    · simp [run]
    split
    · unfold string
      split <;> simp
    split
    · simp [run]
    split
    · simp [run]
    split
    · simp [run]
    · simp

theorem length_first_snd (c : Char) (rest : List Char) : (first c rest).2.length ≤ rest.length := by
  have parts := congrArg List.length (first_append c rest)
  have nonempty := List.length_pos_iff.2 (first_chars_ne_nil c rest)
  simp only [List.length_append, List.length_cons] at parts
  omega

/-- The segments of a text, put together again, are the text. -/
theorem flatMap_chars_ofChars (cs : List Char) : (ofChars cs).flatMap chars = cs := by
  suffices enough : ∀ count cs, cs.length ≤ count → (upTo count cs).flatMap chars = cs from
    enough _ _ (Nat.le_refl _)
  intro count
  induction count with
  | zero => intro cs short; simp_all [upTo]
  | succ count ih =>
    intro cs short
    cases cs with
    | nil => rfl
    | cons c rest =>
      have fewer := length_first_snd c rest
      simp only [List.length_cons] at short
      rw [upTo, List.flatMap_cons, ih _ (by omega), first_append]

end Segment

end DotLambda
