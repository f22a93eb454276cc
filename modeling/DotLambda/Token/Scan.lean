import DotLambda.Token.Segment

/-!
Scanning: the segments of a text become tokens with their places and reports of stray characters, in
the order in which they stand. A run of digits that is too long ends the scan.
-/

namespace DotLambda

/-- A place in a text: the line, counted from one, and the characters before it. -/
structure Place where
  line : Nat
  index : Nat
deriving DecidableEq

namespace Place

/-- Where a text starts. -/
def start : Place := ⟨1, 0⟩

/-- The place after some more characters. -/
def after (p : Place) (chars : List Char) : Place :=
  ⟨p.line + chars.count '\n', p.index + chars.length⟩

end Place

/-- What a scan meets. -/
inductive Item where
  | token (t : Token)
  /-- A character that begins no token, with its line. -/
  | stray (c : Char) (line : Nat)
  /-- A run of digits that is too long to be read. -/
  | overlong (digits : Nat)
deriving DecidableEq

namespace Item

/-- The token that a segment is, at its place. -/
def ofToken (kind : Kind) (chars : List Char) (p : Place) : Item :=
  match kind with
  | .number =>
    if Text.Decimal.digitLimit < chars.length then .overlong chars.length
    else .token ⟨.number, .number (Text.Digit.number chars), p.line, p.index⟩
  | .string => .token ⟨.string, .text (String.ofList (chars.drop 1).dropLast), p.line, p.index⟩
  | kind => .token ⟨kind, .text (String.ofList chars), p.line, p.index⟩

/-- What a scan meets in a segment: nothing in blanks, line ends and comments. -/
def ofSegment? (s : Segment) (p : Place) : Option Item :=
  match s.shape with
  | .blank | .lineEnds | .comment => none
  | .token kind => some (ofToken kind s.chars p)
  | .stray => s.chars.head?.map fun c => .stray c p.line

/-- The report of a stray character. -/
def strayReport (c : Char) (line : Nat) : String :=
  "Line " ++ Nat.repr line ++ ": Bad character " ++ Text.Quoted.quote (String.singleton c)

/-- Whether a scan ends with an item. -/
def isLast : Item → Bool
  | overlong _ => true
  | _ => false

/-- The token of an item. -/
def token? : Item → Option Token
  | token t => some t
  | _ => none

end Item

/-- All that a scan meets, and where it ends. -/
structure Scan where
  items : List Item
  stop : Place
deriving DecidableEq

namespace Scan

/-- A scan of segments from a place on. -/
def ofSegments (p : Place) : List Segment → Scan
  | [] => ⟨[], p⟩
  | s :: rest =>
    match Item.ofSegment? s p with
    | none => ofSegments (p.after s.chars) rest
    | some item =>
      if item.isLast then ⟨[item], p.after s.chars⟩
      else
        let others := ofSegments (p.after s.chars) rest
        ⟨item :: others.items, others.stop⟩

/-- The scan of a text. -/
def ofText (s : String) : Scan := ofSegments .start (Segment.ofChars s.toList)

/-- The tokens of a scan. -/
def tokens (s : Scan) : List Token := s.items.filterMap Item.token?

end Scan

end DotLambda
