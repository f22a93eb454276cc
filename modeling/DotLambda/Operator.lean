import DotLambda.Datum

/-!
The binary operators and what they compute on data. Arithmetic takes two integers, and `+` two
texts as well; division rounds towards minus infinity. A comparison takes data of one type only.
-/

namespace DotLambda

/-- A binary operator. -/
inductive Operator where
  | add | sub | mul | div
  | eq | ne | lt | le | gt | ge
  /-- A sign that stands for no operation. -/
  | other (sign : Datum)

namespace Operator

/-- The symbol of an operator. A sign that stands for no operation is no symbol. -/
def symbol : Operator → String
  | add => "+"
  | sub => "-"
  | mul => "*"
  | div => "/"
  | eq => "=="
  | ne => "!="
  | lt => "<"
  | le => "<="
  | gt => ">"
  | ge => ">="
  | other _ => ""

/-- How an operator is written. -/
def sign : Operator → Datum
  | other sign => sign
  | op => .text op.symbol

/-- The operator that a symbol writes. -/
def ofSymbol : String → Operator
  | "+" => add
  | "-" => sub
  | "*" => mul
  | "/" => div
  | "==" => eq
  | "!=" => ne
  | "<" => lt
  | "<=" => le
  | ">" => gt
  | ">=" => ge
  | symbol => other (.text symbol)

theorem sign_ofSymbol (s : String) : (ofSymbol s).sign = .text s := by
  unfold ofSymbol
  split <;> rfl

/-- The operator that a sign writes. -/
def ofSign : Datum → Operator
  | .text symbol => ofSymbol symbol
  | sign => other sign

theorem sign_ofSign (d : Datum) : (ofSign d).sign = d := by
  cases d <;> first | exact sign_ofSymbol _ | rfl

/-- Whether an operator computes a number or a text. -/
def isArithmetic : Operator → Bool
  | add | sub | mul | div => true
  | _ => false

/-- Integer arithmetic; `none` for an operator that is not arithmetic. -/
def arithmetic (op : Operator) (m n : Int) : Except Error Datum :=
  match op with
  | add => pure (.int (m + n))
  | sub => pure (.int (m - n))
  | mul => pure (.int (m * n))
  | div => if n = 0 then throw .divisionByZero else pure (.int (m.fdiv n))
  | _ => pure .none

/-- Whether an order satisfies an operator that asks for one. -/
def accepts : Operator → Ordering → Bool
  | lt, o => o == .lt
  | le, o => o != .gt
  | gt, o => o == .gt
  | ge, o => o != .lt
  | _, _ => false

/-- Whether two data stand in the order that an operator asks for, whatever their types. -/
def holds (op : Operator) (lhs rhs : Datum) : Except Error Bool :=
  match lhs.order rhs with
  | .ok o => pure (op.accepts o)
  | .error (l, r) => throw (.unordered op.symbol l r)

/-- A comparison of data of one type. -/
def comparison (w : Wording) (op : Operator) (lhs rhs : Datum) : Except Error Datum := do
  if lhs.typeName ≠ rhs.typeName then
    let l ← lhs.plain w
    let r ← rhs.plain w
    throw (.differentTypes l r)
  match op with
  | eq => pure (.bool (lhs.equal rhs))
  | ne => pure (.bool (!lhs.equal rhs))
  | _ => do
    let b ← op.holds lhs rhs
    pure (.bool b)

/-- What an operator computes. A sign that stands for no operation gives nothing. -/
def apply (w : Wording) (op : Operator) (lhs rhs : Datum) : Except Error Datum :=
  match op with
  | other _ => pure .none
  | eq | ne | lt | le | gt | ge => op.comparison w lhs rhs
  | add | sub | mul | div =>
    match op, lhs, rhs with
    | add, .text s, .text t => pure (.text (s ++ t))
    | _, _, _ =>
      match lhs.asInt?, rhs.asInt? with
      | some m, some n => op.arithmetic m n
      | _, _ => do
        let l ← lhs.plain w
        let r ← rhs.plain w
        throw (.invalidOperands op.symbol l r)

end Operator

end DotLambda
