/-!
Decimal text of integers. A number of more than `digitLimit` digits has no text, and a run of more
than `digitLimit` digits is read as no number.
-/

namespace DotLambda.Text.Decimal

/-- How many decimal digits a number may have in text. -/
def digitLimit : Nat := 4300

/-- A minus sign, if there is one, and the decimal digits of an integer. -/
def digits (n : Int) : String :=
  match n with
  | .ofNat n => Nat.repr n
  | .negSucc n => "-" ++ Nat.repr (n + 1)

/-- The least number that has too many digits. -/
def bound : Nat := Nat.pow 10 digitLimit

/-- The decimal text of an integer; `none` when it has more than `digitLimit` digits. -/
def text? (n : Int) : Option String := if n.natAbs < bound then some (digits n) else none

theorem text?_eq_some_iff {n : Int} {s : String} :
    text? n = some s ↔ n.natAbs < bound ∧ digits n = s := by
  simp [text?]

end DotLambda.Text.Decimal
