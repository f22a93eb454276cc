import DotLambda.Term

/-!
The terms to which the data in a term refer, and copies of terms. A copy refers to copies of these terms,
which lie in cells of their own and so are not equal to the terms they were copied from. What was one cell
before is one cell in the copy. A term that refers to none is its own copy.
-/

namespace DotLambda

namespace Datum

mutual

/-- The cells to which a datum refers, in order. -/
def references : Datum → List Nat
  | list items => referencesAll items
  | term cell => [cell]
  | none | bool _ | int _ | text _ => []

/-- The cells to which several data refer, in order. -/
def referencesAll : List Datum → List Nat
  | [] => []
  | d :: rest => d.references ++ referencesAll rest

end

mutual

/-- A datum that refers to other cells. -/
def redirect (f : Nat → Nat) : Datum → Datum
  | list items => list (redirectAll f items)
  | term cell => term (f cell)
  | none => none
  | bool b => bool b
  | int n => int n
  | text s => text s

/-- Several data that refer to other cells. -/
def redirectAll (f : Nat → Nat) : List Datum → List Datum
  | [] => []
  | d :: rest => d.redirect f :: redirectAll f rest

end

mutual

theorem redirect_eq_self (f : Nat → Nat) :
    (d : Datum) → d.references = [] → d.redirect f = d
  | list items, plain => by
    rw [redirect, redirectAll_eq_self f items plain]
  | term _, plain => nomatch plain
  | none, _ | bool _, _ | int _, _ | text _, _ => rfl

theorem redirectAll_eq_self (f : Nat → Nat) :
    (items : List Datum) → referencesAll items = [] → redirectAll f items = items
  | [], _ => rfl
  | d :: rest, plain => by
    rw [referencesAll, List.append_eq_nil_iff] at plain
    rw [redirectAll, redirect_eq_self f d plain.1, redirectAll_eq_self f rest plain.2]

end

end Datum

namespace Operator

/-- An operator whose sign refers to other cells. -/
def redirect (f : Nat → Nat) : Operator → Operator
  | other sign => other (sign.redirect f)
  | op => op

theorem redirect_eq_self (f : Nat → Nat) (op : Operator) (plain : op.sign.references = []) :
    op.redirect f = op := by
  cases op with
  | other sign => rw [redirect, Datum.redirect_eq_self f sign plain]
  | _ => rfl

end Operator

namespace Term

mutual

/-- The cells to which the data in a term refer, in order. Lists are cells of another sort, and what
stands in them is not looked at. -/
def references : Term → List Nat
  | int value | bool value | string value => value.references
  | nameless id => id.references
  | function parameter body => parameter.references ++ body.references
  | operation lhs operator rhs => lhs.references ++ operator.sign.references ++ rhs.references
  | conditional condition yes no => condition.references ++ yes.references ++ no.references
  | chain items => referencesAll items
  | wrapped inner => inner.references
  | datum d => d.references
  | name _ | list _ | itemless _ _ | unknown _ => []

/-- The cells to which the data in several terms refer, in order. -/
def referencesAll : List Term → List Nat
  | [] => []
  | t :: rest => t.references ++ referencesAll rest

end

mutual

/-- A term whose data refer to other cells. -/
def redirect (f : Nat → Nat) : Term → Term
  | int value => int (value.redirect f)
  | bool value => bool (value.redirect f)
  | string value => string (value.redirect f)
  | name id => name id
  | nameless id => nameless (id.redirect f)
  | function parameter body => function (parameter.redirect f) (body.redirect f)
  | operation lhs operator rhs =>
    operation (lhs.redirect f) (operator.redirect f) (rhs.redirect f)
  | conditional condition yes no =>
    conditional (condition.redirect f) (yes.redirect f) (no.redirect f)
  | chain items => chain (redirectAll f items)
  | list cell => list cell
  | wrapped inner => wrapped (inner.redirect f)
  | itemless kind owner => itemless kind owner
  | unknown kind => unknown kind
  | datum d => datum (d.redirect f)

/-- Several terms whose data refer to other cells. -/
def redirectAll (f : Nat → Nat) : List Term → List Term
  | [] => []
  | t :: rest => t.redirect f :: redirectAll f rest

end

mutual

theorem redirect_eq_self (f : Nat → Nat) : (t : Term) → t.references = [] → t.redirect f = t
  | int value, plain | bool value, plain | string value, plain | nameless value, plain
  | datum value, plain => by
    rw [redirect, Datum.redirect_eq_self f value plain]
  | function parameter body, plain => by
    rw [references, List.append_eq_nil_iff] at plain
    rw [redirect, Datum.redirect_eq_self f parameter plain.1, redirect_eq_self f body plain.2]
  | operation lhs operator rhs, plain => by
    rw [references, List.append_eq_nil_iff, List.append_eq_nil_iff] at plain
    rw [redirect, redirect_eq_self f lhs plain.1.1, operator.redirect_eq_self f plain.1.2,
      redirect_eq_self f rhs plain.2]
  | conditional condition yes no, plain => by
    rw [references, List.append_eq_nil_iff, List.append_eq_nil_iff] at plain
    rw [redirect, redirect_eq_self f condition plain.1.1, redirect_eq_self f yes plain.1.2,
      redirect_eq_self f no plain.2]
  | chain items, plain => by
    rw [redirect, redirectAll_eq_self f items plain]
  | wrapped inner, plain => by
    rw [redirect, redirect_eq_self f inner plain]
  | name _, _ | list _, _ | itemless _ _, _ | unknown _, _ => rfl

theorem redirectAll_eq_self (f : Nat → Nat) :
    (items : List Term) → referencesAll items = [] → redirectAll f items = items
  | [], _ => rfl
  | t :: rest, plain => by
    rw [referencesAll, List.append_eq_nil_iff] at plain
    rw [redirectAll, redirect_eq_self f t plain.1, redirectAll_eq_self f rest plain.2]

end

end Term

namespace Store

/-- A copy of a term, and the store with the copies of the terms to which it refers. -/
def copy (s : Store) (t : Term) : Term × Store :=
  let cells := t.references.eraseDups
  (t.redirect fun cell => s.terms.size + cells.idxOf cell, s.keep (cells.map s.term))

theorem copy_eq_self (s : Store) (t : Term) (plain : t.references = []) : s.copy t = (t, s) := by
  simp [copy, plain, keep, Term.redirect_eq_self]

end Store

end DotLambda
