import DotLambda.Proofs.Coverage
import Mathlib.Data.List.Find

/-!
Texts line by line. No lexeme goes on after a line end: not a word, a number or a sign, not a string whose closing
quote is missing, and not a comment. Main statement: the scan of two texts with a line end between them meets what
the scan of the first meets and then what the scan of the second meets, moved by the lines and the characters of the
first.
-/

namespace DotLambda

/-! ## Moving a scan -/

/-- The place that lies some lines and characters further on. -/
def Place.moved (lines characters : Nat) (p : Place) : Place := ⟨p.line + lines, p.index + characters⟩

/-- The same token some lines and characters further on. -/
def Token.moved (lines characters : Nat) (t : Token) : Token :=
  { t with line := t.line + lines, index := t.index + characters }

/-- The same item some lines and characters further on. -/
def Item.moved (lines characters : Nat) : Item → Item
  | token t => .token (t.moved lines characters)
  | stray c line => .stray c (line + lines)
  | overlong digits => .overlong digits

theorem Place.moved_after (lines characters : Nat) (p : Place) (cs : List Char) :
    (p.moved lines characters).after cs = (p.after cs).moved lines characters := by
  simp only [moved, after, Nat.add_right_comm]

namespace Item

variable {lines characters : Nat}

theorem isLast_moved (item : Item) : (item.moved lines characters).isLast = item.isLast := by
  cases item <;> rfl

theorem token?_moved (item : Item) :
    (item.moved lines characters).token? = item.token?.map (·.moved lines characters) := by
  cases item <;> rfl

theorem ofToken_moved (kind : Kind) (chars : List Char) (p : Place) :
    ofToken kind chars (p.moved lines characters) = (ofToken kind chars p).moved lines characters := by
  unfold ofToken
  split
  · split <;> rfl
  · rfl
  · rfl

/-- What a scan meets in a segment does not depend on the place of the segment, but for the place itself. -/
theorem ofSegment?_moved (s : Segment) (p : Place) :
    ofSegment? s (p.moved lines characters) = (ofSegment? s p).map (moved lines characters) := by
  unfold ofSegment?
  split
  · rfl
  · rfl
  · rfl
  · rw [ofToken_moved, Option.map_some]
  · cases s.chars.head? <;> rfl

/-- The stray character of an item, with its line. -/
def stray? : Item → Option (Char × Nat)
  | stray c line => some (c, line)
  | _ => none

theorem stray?_moved (item : Item) :
    (item.moved lines characters).stray? = item.stray?.map fun stray => (stray.1, stray.2 + lines) := by
  cases item <;> rfl

end Item

namespace Scan

/-- One scan after another. -/
def append (front rest : Scan) : Scan := ⟨front.items ++ rest.items, rest.stop⟩

/-- The same scan some lines and characters further on. -/
def moved (lines characters : Nat) (scan : Scan) : Scan :=
  ⟨scan.items.map (·.moved lines characters), scan.stop.moved lines characters⟩

/-- The stray characters of a scan with their lines. -/
def strays (scan : Scan) : List (Char × Nat) := scan.items.filterMap Item.stray?

/-- The reports of the stray characters of a scan. -/
def reports (scan : Scan) : List String := scan.strays.map fun stray => Item.strayReport stray.1 stray.2

theorem tokens_moved (lines characters : Nat) (scan : Scan) :
    (scan.moved lines characters).tokens = scan.tokens.map (·.moved lines characters) := by
  simp only [tokens, moved, List.filterMap_map, List.map_filterMap, Function.comp_def, Item.token?_moved]

theorem strays_moved (lines characters : Nat) (scan : Scan) :
    (scan.moved lines characters).strays = scan.strays.map fun stray => (stray.1, stray.2 + lines) := by
  simp only [strays, moved, List.filterMap_map, List.map_filterMap, Function.comp_def, Item.stray?_moved]

/-- A scan that does not end with a segment goes on after it. -/
theorem ofSegments_cons {p : Place} {s : Segment} (goesOn : ∀ item ∈ Item.ofSegment? s p, item.isLast = false)
    (rest : List Segment) :
    ofSegments p (s :: rest) =
      append ⟨(Item.ofSegment? s p).toList, p.after s.chars⟩ (ofSegments (p.after s.chars) rest) := by
  rw [ofSegments]
  cases met : Item.ofSegment? s p with
  | none => rfl
  | some item =>
    simp only [goesOn item met, Bool.false_eq_true, if_false]
    rfl

/-- Segments that stand further on are met further on. -/
theorem ofSegments_moved (lines characters : Nat) (p : Place) (segments : List Segment) :
    ofSegments (p.moved lines characters) segments = (ofSegments p segments).moved lines characters := by
  induction segments generalizing p with
  | nil => rfl
  | cons s rest ih =>
    rw [ofSegments, ofSegments, Item.ofSegment?_moved, Place.moved_after, ih]
    cases Item.ofSegment? s p with
    | none => rfl
    | some item =>
      simp only [Option.map_some, Item.isLast_moved]
      split <;> rfl

end Scan

/-! ## What a line end cuts off -/

namespace Segment

variable {holds : Char → Bool}

theorem takeWhile_lineEnd (stops : holds '\n' = false) (rest more : List Char) :
    (rest ++ '\n' :: more).takeWhile holds = rest.takeWhile holds := by
  induction rest with
  | nil => simp [stops]
  | cons c rest ih => simp only [List.cons_append, List.takeWhile_cons, ih]

theorem dropWhile_lineEnd (stops : holds '\n' = false) (rest more : List Char) :
    (rest ++ '\n' :: more).dropWhile holds = rest.dropWhile holds ++ '\n' :: more := by
  induction rest with
  | nil => simp [stops]
  | cons c rest ih =>
    simp only [List.cons_append, List.dropWhile_cons, ih]
    split <;> rfl

/-- A run that cannot hold a line end stops at the first one. -/
theorem run_lineEnd (shape : Shape) (stops : holds '\n' = false) (c : Char) (rest more : List Char) :
    run shape holds c (rest ++ '\n' :: more) =
      ((run shape holds c rest).1, (run shape holds c rest).2 ++ '\n' :: more) := by
  simp only [run, takeWhile_lineEnd stops, dropWhile_lineEnd stops]

/-- A quote after the line end closes no string. -/
theorem string_lineEnd (mark : Char) (rest more : List Char) :
    string mark (rest ++ '\n' :: more) = ((string mark rest).1, (string mark rest).2 ++ '\n' :: more) := by
  have stops : isInString '\n' = false := by decide
  simp only [string, takeWhile_lineEnd stops, dropWhile_lineEnd stops]
  cases closing : rest.dropWhile isInString with
  | nil => simp
  | cons d after =>
    by_cases quote : d = '\x22'
    · subst quote
      rfl
    · simp [quote]

theorem lineEnd_notMem_sign : ∀ sign ∈ signs, '\n' ∉ sign.1 := by decide

/-- A sign begins a text if it begins what stands before the line end. -/
theorem isPrefixOf_lineEnd {sign : List Char} (inside : '\n' ∉ sign) (cs more : List Char) :
    sign.isPrefixOf (cs ++ '\n' :: more) = sign.isPrefixOf cs := by
  induction sign generalizing cs with
  | nil => simp
  | cons d sign ih =>
    rw [List.mem_cons, not_or] at inside
    cases cs with
    | nil => simp [List.isPrefixOf, Ne.symm inside.1]
    | cons c cs => simp only [List.cons_append, List.isPrefixOf, ih inside.2]

theorem sign?_lineEnd (cs more : List Char) : sign? (cs ++ '\n' :: more) = sign? cs := by
  unfold sign?
  refine List.find?_congr fun sign listed => ?_
  rw [isPrefixOf_lineEnd (lineEnd_notMem_sign sign listed)]

/-- The first segment of a text does not reach over a line end that it does not begin with. -/
theorem first_lineEnd {c : Char} (other : c ≠ '\n') (rest more : List Char) :
    first c (rest ++ '\n' :: more) = ((first c rest).1, (first c rest).2 ++ '\n' :: more) := by
  have same := sign?_lineEnd (c :: rest) more
  rw [List.cons_append] at same
  unfold first
  rw [same]
  split
  · rfl
  cases found : sign? (c :: rest) with
  | some sign =>
    have opens := List.find?_some (p := fun sign : List Char × Kind => sign.1.isPrefixOf (c :: rest)) found
    have short := (List.isPrefixOf_iff_prefix.1 opens).length_le
    simp only [← List.cons_append, List.drop_append_of_le_length short]
  | none =>
    simp only [beq_iff_eq, other, if_false]
    split
    · exact run_lineEnd _ (by decide) c rest more
    split
    · exact string_lineEnd c rest more
    split
    · rw [run_lineEnd _ (by decide) c rest more]
    split
    · exact run_lineEnd _ (by decide) c rest more
    · rfl

/-- A scan goes on after what has to stand where it does. -/
theorem Ruled.goesOn {s : Segment} {rest : List Char} (ruled : s.Ruled rest) (p : Place) :
    ∀ item ∈ Item.ofSegment? s p, item.isLast = false := by
  intro item met
  cases ruled with
  | blank | lineEnds | comment => simp [Item.ofSegment?] at met
  | token writes =>
    simp only [Item.ofSegment?, writes.ofToken_eq, Option.mem_some_iff] at met
    rw [← met]
    rfl
  | stray =>
    simp only [Item.ofSegment?, List.head?_cons, Option.map_some, Option.mem_some_iff] at met
    rw [← met]
    rfl

end Segment

/-! ## One line after another -/

namespace Scan

open Segment

/-- What stands before a line end is met as if nothing followed, and what follows as if a text started there. -/
theorem ofChars_line (p : Place) (cs more : List Char) (short : ShortRuns cs) :
    ofSegments p (ofChars (cs ++ '\n' :: more)) =
      (ofSegments p (ofChars cs)).append (ofSegments (p.after (cs ++ ['\n'])) (ofChars more)) := by
  induction size : cs.length using Nat.strongRecOn generalizing p cs with
  | ind count ih =>
    cases cs with
    | nil => exact ofChars_lineEnd p more
    | cons c rest =>
      by_cases lineEnd : c = '\n'
      · subst lineEnd
        have others : ShortRuns rest := @ShortRuns.suffix ['\n'] rest short
        have after := ih rest.length (by simp [← size]) (p.after ['\n']) rest others rfl
        rw [List.cons_append, ofChars_lineEnd, ofChars_lineEnd, after, ← Place.after_append]
        rfl
      · have parts := first_append c rest
        have fewer := length_first_snd c rest
        have others : ShortRuns (first c rest).2 := ShortRuns.suffix (parts ▸ short)
        have goesOn := (ruled_first c rest short).goesOn p
        have shorter : (first c rest).2.length < count := by simp only [← size, List.length_cons]; omega
        have after := ih _ shorter (p.after (first c rest).1.chars) _ others rfl
        rw [List.cons_append, ofChars_cons, first_lineEnd lineEnd, ofSegments_cons goesOn, after, ofChars_cons,
          ofSegments_cons goesOn, ← Place.after_append, ← List.append_assoc, parts]
        simp only [append, List.append_assoc]

end Scan

/-- Scanning goes line by line: if no run of digits of the first text is too long, the scan of two texts with a line
end between them is the scan of the first and then the scan of the second, moved by the lines and the characters
that come before it. So are its tokens and the reports of its stray characters. -/
theorem scan_joins (front back : String) (short : ShortRuns front.toList) :
    let lines := 1 + front.toList.count '\n'
    let characters := front.length + 1
    let whole := Scan.ofText (front ++ "\n" ++ back)
    whole = (Scan.ofText front).append ((Scan.ofText back).moved lines characters) ∧
    whole.tokens = (Scan.ofText front).tokens ++ (Scan.ofText back).tokens.map (·.moved lines characters) ∧
    whole.reports = (Scan.ofText front).reports ++
      (Scan.ofText back).strays.map fun stray => Item.strayReport stray.1 (stray.2 + lines) := by
  intro lines characters whole
  have joined : whole = (Scan.ofText front).append ((Scan.ofText back).moved lines characters) := by
    have place : Place.start.after (front.toList ++ ['\n']) = Place.start.moved lines characters := by
      simp [Place.after, Place.moved, lines, characters, Nat.add_comm, String.length_toList]
    simp only [whole, Scan.ofText, String.toList_append, List.append_assoc, ← Scan.ofSegments_moved, ← place]
    exact Scan.ofChars_line _ _ _ short
  refine ⟨joined, ?_, ?_⟩
  · rw [joined, ← Scan.tokens_moved]
    exact List.filterMap_append
  · rw [joined, Scan.reports, Scan.strays, Scan.append, List.filterMap_append, List.map_append]
    refine congrArg _ ?_
    rw [← Scan.strays, Scan.strays_moved, List.map_map]
    rfl

/-- A quote that is not closed, a stray character, a comment and a line end before the line end between the texts;
two line ends, a quote and a stray character after it. -/
theorem scan_joins_after_quote :
    let front := "x \x22 := $\n2 # and\n"
    let back := "\n\n\x22 y ?"
    let whole := Scan.ofText (front ++ "\n" ++ back)
    ShortRuns front.toList ∧
      whole.tokens = [⟨.identifier, .text "x", 1, 0⟩, ⟨.assign, .text ":=", 1, 4⟩, ⟨.number, .number 2, 2, 9⟩,
        ⟨.identifier, .text "y", 6, 22⟩] ∧
      whole.strays = [('\x22', 1), ('$', 1), ('\x22', 6), ('?', 6)] ∧
      whole = (Scan.ofText front).append ((Scan.ofText back).moved 3 18) ∧
      whole.tokens = (Scan.ofText front).tokens ++ (Scan.ofText back).tokens.map (·.moved 3 18) ∧
      whole.reports = (Scan.ofText front).reports ++
        (Scan.ofText back).strays.map fun stray => Item.strayReport stray.1 (stray.2 + 3) := by
  intro front back whole
  have short : ShortRuns front.toList := fun run inside _ => Nat.le_trans inside.length_le (by decide +kernel)
  have lines : 1 + front.toList.count '\n' = 3 := by decide +kernel
  have characters : front.length + 1 = 18 := by decide +kernel
  have joins := scan_joins front back short
  rw [lines, characters] at joins
  exact ⟨short, by decide +kernel, by decide +kernel, joins⟩

end DotLambda
