import DotLambda.Proofs.Readback

/-!
Writing words out. Signs and keywords are written as they are listed, names as themselves, numbers in decimal
and strings in quotes, with spaces, tabs and line ends between them. Main statement: scanning gives the words
back, each with its kind and what it stands for, and meets nothing else.
-/

namespace DotLambda

/-- The signs and keywords. -/
def vocabulary : List (Kind × String) := [
  (.addOp, "+"), (.addOp, "-"), (.multOp, "*"), (.multOp, "/"), (.assign, ":="), (.leftParen, "("),
  (.rightParen, ")"), (.dot, "."), (.arrow, "=>"), (.lambda, "\\"), (.equalOp, "=="), (.equalOp, "!="),
  (.compareOp, "<"), (.compareOp, ">"), (.compareOp, "<="), (.compareOp, ">="), (.leftBracket, "["),
  (.rightBracket, "]"), (.comma, ","), (.printWord, "print"), (.dumpWord, "dump"), (.ifWord, "if"),
  (.thenWord, "then"), (.elseWord, "else"), (.endifWord, "endif"), (.headWord, "head"), (.tailWord, "tail"),
  (.sortWord, "sort"), (.appendWord, "append"), (.lengthWord, "length"), (.andWord, "and"), (.orWord, "or"),
  (.notWord, "not")]

/-- Whether characters make a name or a keyword: a letter or an underscore, and then letters, digits and
underscores. -/
def isWordly : List Char → Bool
  | [] => false
  | c :: rest => Segment.startsWord c && rest.all Segment.continuesWord

/-- A word that can be written out. -/
inductive Vocable where
  /-- A sign or a keyword. -/
  | fixed (kind : Kind) (spelling : String) (listed : (kind, spelling) ∈ vocabulary)
  | name (id : String) (wordly : isWordly id.toList = true) (free : ∀ kind, (kind, id) ∉ vocabulary)
  | number (n : Nat) (short : n < Text.Decimal.bound)
  | string (text : String) (closed : ∀ c ∈ text.toList, c ≠ '\x22' ∧ c ≠ '\n')

namespace Vocable

/-- How a word is written. -/
def chars : Vocable → List Char
  | fixed _ spelling _ => spelling.toList
  | name id _ _ => id.toList
  | number n _ => n.repr.toList
  | string text _ => '\x22' :: text.toList ++ ['\x22']

/-- The kind of a word and what it stands for. -/
def word : Vocable → Word
  | fixed kind spelling _ => .sign kind spelling
  | name id _ _ => .name id
  | number n _ => .number n
  | string text _ => .string text

private theorem fixed_inside : ∀ entry ∈ vocabulary, (entry.2.toList, entry.1) ∈ Segment.signs ∨
    isWordly entry.2.toList = true ∧ Kind.ofWord entry.2 = entry.1 := by
  decide

private theorem keywords_inside : ∀ entry ∈ Kind.keywords, (entry.2, entry.1) ∈ vocabulary := by
  decide

theorem lexeme_of_isWordly {id : String} (wordly : isWordly id.toList = true) :
    Lexeme id.toList (.sign (Kind.ofWord id) id) := by
  cases parts : id.toList with
  | nil => simp [parts, isWordly] at wordly
  | cons c rest =>
    rw [parts, isWordly, Bool.and_eq_true] at wordly
    have written := Lexeme.word wordly.1 wordly.2
    rwa [← parts, String.ofList_toList, parts] at written

/-- What a word is written as is its lexeme. -/
theorem lexeme (v : Vocable) : Lexeme v.chars v.word := by
  cases v with
  | fixed kind spelling listed =>
    rcases fixed_inside _ listed with sign | ⟨wordly, is⟩
    · have written := Lexeme.sign sign
      rwa [String.ofList_toList] at written
    · have written := lexeme_of_isWordly wordly
      rwa [is] at written
  | name id wordly free =>
    have other : Kind.keywords.lookup id = none := by
      cases found : Kind.keywords.lookup id with
      | none => rfl
      | some kind =>
        obtain ⟨front, back, listed, -⟩ := List.lookup_eq_some_iff.1 found
        exact absurd (keywords_inside (id, kind) (by simp [listed])) (free kind)
    have written := lexeme_of_isWordly wordly
    rwa [Kind.ofWord, other] at written
  | number n short => exact .repr short
  | string text closed =>
    have inside : text.toList.all Segment.isInString = true :=
      List.all_eq_true.2 fun c member => by simp [Segment.isInString, closed c member]
    have written := Lexeme.string inside
    rwa [String.ofList_toList] at written

end Vocable

/-! ## What stands between words -/

/-- What stands between two words: spaces, tabs and line ends, and at least one of them. -/
structure Gap where
  chars : List Char
  some : chars ≠ []
  blank : ∀ c ∈ chars, c = ' ' ∨ c = '\t' ∨ c = '\n'

/-- The text of words with gaps between them. -/
def render (gap : Nat → Gap) : List Vocable → List Char
  | [] => []
  | [v] => v.chars
  | v :: next :: rest => v.chars ++ ((gap 0).chars ++ render (fun i => gap (i + 1)) (next :: rest))

/-- Nothing is read together with what stands between words. -/
theorem Separate.before_gap (front : List Char) (gap : Gap) (rest : List Char) :
    Separate front (gap.chars ++ rest) := by
  obtain ⟨b, more, parts⟩ := List.exists_cons_of_ne_nil gap.some
  have blank := gap.blank b (by simp [parts])
  have apart (a : Char) : glued a b = false := by
    have alone : inWord b = false ∧ (b == '=') = false := by
      rcases blank with rfl | rfl | rfl <;> decide
    simp [glued, alone]
  rw [Separate, parts, List.cons_append, List.head?_cons]
  split
  · rename_i opens
    cases opens
    exact apart _
  · trivial

namespace Scan

variable {rest : List Char} {words : List Word}

/-- A scan passes over the end of a line, together with those that follow it. -/
theorem of_lineEnd (scanned : ∀ p, (ofSegments p (Segment.ofChars rest)).Of words) (p : Place) :
    (ofSegments p (Segment.ofChars ('\n' :: rest))).Of words := by
  rw [ofChars_lineEnd]
  exact scanned _

/-- A scan passes over what stands between words. -/
theorem of_blanks {chars : List Char} (blank : ∀ c ∈ chars, c = ' ' ∨ c = '\t' ∨ c = '\n')
    (scanned : ∀ p, (ofSegments p (Segment.ofChars rest)).Of words) (p : Place) :
    (ofSegments p (Segment.ofChars (chars ++ rest))).Of words := by
  induction chars generalizing p with
  | nil => exact scanned p
  | cons c more ih =>
    rw [List.forall_mem_cons] at blank
    have later := ih blank.2
    rcases or_assoc.2 blank.1 with space | rfl
    · rw [List.cons_append, Segment.ofChars_cons, Segment.first_blank space, ofSegments]
      exact later _
    · exact of_lineEnd later p

theorem of_render (gap : Nat → Gap) (vs : List Vocable) (p : Place) :
    (ofSegments p (Segment.ofChars (render gap vs))).Of (vs.map Vocable.word) := by
  fun_induction render gap vs generalizing p with
  | case1 => exact ⟨[], rfl, rfl⟩
  | case2 gap v =>
    have last := of_lexeme v.lexeme (Separate.before_end _) (fun _ => ⟨[], rfl, rfl⟩) p
    rwa [List.append_nil] at last
  | case3 gap v next others ih =>
    exact of_lexeme v.lexeme (Separate.before_gap _ _ _) (of_blanks (gap 0).blank ih) p

end Scan

/-- Scanning undoes writing. -/
theorem scan_render (gap : Nat → Gap) (words : List Vocable) :
    (Scan.ofText (String.ofList (render gap words))).Of (words.map Vocable.word) := by
  rw [Scan.ofText, String.toList_ofList]
  exact Scan.of_render gap words .start

end DotLambda
