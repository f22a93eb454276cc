import DotLambda.Text.Printable

/-!
Quoted text. A text stands in single quotes, or in double quotes if it has a single quote and no
double quote. The delimiter and the backslash are escaped by a backslash, tab, line feed and carriage
return by their letters, and every other character that is not printable by the shortest of the
three hexadecimal forms that fits it.
-/

namespace DotLambda.Text.Quoted

/-- The character that opens and closes a quoted text. -/
def delimiter (cs : List Char) : Char :=
  if cs.contains '\x27' && !cs.contains '\x22' then '\x22' else '\x27'

/-- The last `width` hexadecimal digits of a number, in lower case. -/
def hex : (width : Nat) → Nat → List Char
  | 0, _ => []
  | width + 1, n => hex width (n / 16) ++ [Nat.digitChar (n % 16)]

/-- The hexadecimal form of a character that is not printable. -/
def hexForm (c : Char) : List Char :=
  if c.toNat < 0x100 then ['\\', 'x'] ++ hex 2 c.toNat
  else if c.toNat < 0x10000 then ['\\', 'u'] ++ hex 4 c.toNat
  else ['\\', 'U'] ++ hex 8 c.toNat

/-- How one character is written between a pair of delimiters. -/
def escape (delimiter c : Char) : List Char :=
  if c = delimiter ∨ c = '\\' then ['\\', c]
  else if c = '\t' then ['\\', 't']
  else if c = '\n' then ['\\', 'n']
  else if c = '\r' then ['\\', 'r']
  else if Printable.isPrintable c then [c]
  else hexForm c

/-- A text in quotes. -/
def quote (s : String) : String :=
  let mark := delimiter s.toList
  String.ofList (mark :: s.toList.flatMap (escape mark) ++ [mark])

theorem length_hex (width n : Nat) : (hex width n).length = width := by
  induction width generalizing n with
  | zero => rfl
  | succ width ih => simp [hex, ih]

end DotLambda.Text.Quoted
