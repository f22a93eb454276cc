/-!
Bindings of names, in the order in which the names were first bound. Main statements: what a name
stands for after a binding, and that binding a name again keeps its place.
-/

namespace DotLambda

/-- Names and what they stand for, in the order of their first binding. -/
abbrev Bindings (α : Type) : Type := List (String × α)

namespace Bindings

variable {α : Type}

/-- What a name stands for. -/
def find? (bindings : Bindings α) (name : String) : Option α := bindings.lookup name

/-- Binds a name. A name that is bound already keeps its place. -/
def insert (name : String) (a : α) : Bindings α → Bindings α
  | [] => [(name, a)]
  | (bound, b) :: rest =>
    if bound = name then (bound, a) :: rest else (bound, b) :: insert name a rest

/-- The bindings made one after another. -/
def ofList (entries : List (String × α)) : Bindings α :=
  entries.foldl (fun bindings entry => insert entry.1 entry.2 bindings) []

/-- The bound names. -/
def names (bindings : Bindings α) : List String := bindings.map Prod.fst

theorem find?_insert_self (name : String) (a : α) (bindings : Bindings α) :
    find? (insert name a bindings) name = some a := by
  induction bindings with
  | nil => simp [insert, find?]
  | cons entry rest ih =>
    obtain ⟨bound, b⟩ := entry
    simp only [insert, find?] at ih ⊢
    by_cases same : bound = name
    · simp [same]
    · have other : (name == bound) = false := by simpa using Ne.symm same
      simp [same, List.lookup_cons, other, ih]

theorem find?_insert_of_ne {name other : String} (a : α) (bindings : Bindings α)
    (different : other ≠ name) : find? (insert name a bindings) other = find? bindings other := by
  have unequal : (other == name) = false := by simpa using different
  induction bindings with
  | nil => simp [insert, find?, List.lookup_cons, unequal]
  | cons entry rest ih =>
    obtain ⟨bound, b⟩ := entry
    simp only [insert, find?] at ih ⊢
    by_cases same : bound = name
    · simp [same, List.lookup_cons, unequal]
    · simp [same, List.lookup_cons, ih]

/-- A new name comes last; a name that is bound already changes no place. -/
theorem names_insert (name : String) (a : α) (bindings : Bindings α) :
    names (insert name a bindings) =
      if name ∈ names bindings then names bindings else names bindings ++ [name] := by
  induction bindings with
  | nil => simp [insert, names]
  | cons entry rest ih =>
    obtain ⟨bound, b⟩ := entry
    simp only [insert, names] at ih ⊢
    by_cases same : bound = name
    · simp [same]
    · by_cases known : name ∈ rest.map Prod.fst
      · simp [same, ih, known]
      · simp [same, ih, known, Ne.symm same]

end Bindings

end DotLambda
