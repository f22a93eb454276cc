import DotLambda.Text.Decimal
import DotLambda.Text.Quoted

/-!
The ways in which evaluation fails, one constructor for each cause, and the wording of each.
-/

namespace DotLambda

/-- Why an evaluation failed. Shown operands are carried as text, since a failure to show one is a
cause of its own. -/
inductive Error where
  /-- Arithmetic on operands that are neither two integers nor, under `+`, two texts. -/
  | invalidOperands (symbol lhs rhs : String)
  /-- A comparison of data of different types. -/
  | differentTypes (lhs rhs : String)
  /-- An operation on terms that are not two of the same kind among integers, booleans, strings. -/
  | incompatibleKinds (symbol lhs rhs : String)
  /-- A list function applied to a term that is no list. -/
  | notAList (function shown : String)
  | emptyHead
  | unsortable
  | appendToNonList (name : String)
  | undefinedVariable (name : String)
  | divisionByZero
  /-- A run of digits too long to be read. -/
  | numeralTooLong (digits : Nat)
  /-- A number with too many digits to be shown. -/
  | numberTooLong
  /-- A part that the thing at hand does not have. -/
  | noPart (owner part : String)
  /-- A component that a new term needs and was not given. -/
  | noComponent (key : String)
  /-- A result that no case has set. -/
  | unset (name : String)
  /-- Data of types between which there is no order. -/
  | unordered (symbol lhs rhs : String)
  | notIterable (owner : String)
  | noLength (owner : String)
  /-- A thing that cannot be looked up. -/
  | unhashable (owner : String)
  /-- An item of a text that is put together, by its place, which is no text itself. -/
  | notJoined (place : Nat) (owner : String)
  /-- An argument of a function, by its place, which should be a text. -/
  | notAText (function : String) (place : Nat) (owner : String)
  | notAnInteger (owner : String)
  /-- A term of unknown kind where its description is needed. -/
  | noDescription
  /-- Nesting deeper than the depth granted to the evaluation. -/
  | endless
deriving DecidableEq

namespace Error

/-- The rule on long numbers, up to what it says about the number at hand. -/
def digitRule (number : String) : String :=
  "Exceeds the limit (" ++ Nat.repr Text.Decimal.digitLimit ++
    " digits) for integer string conversion" ++ number ++
    "; use sys.set_int_max_str_digits() to increase the limit"

/-- The wording of a failure. -/
def message : Error → String
  | invalidOperands symbol lhs rhs => "Invalid types for '" ++ symbol ++ "': " ++ lhs ++ ", " ++ rhs
  | differentTypes lhs rhs => "Cannot compare values of different types: " ++ lhs ++ ", " ++ rhs
  | incompatibleKinds symbol lhs rhs =>
    "Incompatible types for operation '" ++ symbol ++ "': " ++ lhs ++ " and " ++ rhs
  | notAList function shown => function ++ " applied to non-list: " ++ shown
  | emptyHead => "Can't take the head of empty list"
  | unsortable => "Sorting is only supported for integer lists"
  | appendToNonList name => "Variable '" ++ name ++ "' is not a list"
  | undefinedVariable name => "Undefined variable: " ++ name
  | divisionByZero => "integer division or modulo by zero"
  | numeralTooLong digits => digitRule (": value has " ++ Nat.repr digits ++ " digits")
  | numberTooLong => digitRule ""
  | noPart owner part =>
    "'" ++ owner ++ "' object has no attribute '" ++ part ++ "'"
  | noComponent key => Text.Quoted.quote key
  | unset name =>
    "cannot access local variable '" ++ name ++ "' where it is not associated with a value"
  | unordered symbol lhs rhs =>
    "'" ++ symbol ++ "' not supported between instances of '" ++ lhs ++ "' and '" ++ rhs ++ "'"
  | notIterable owner => "'" ++ owner ++ "' object is not iterable"
  | noLength owner => "object of type '" ++ owner ++ "' has no len()"
  | unhashable owner => "unhashable type: '" ++ owner ++ "'"
  | notJoined place owner =>
    "sequence item " ++ Nat.repr place ++ ": expected str instance, " ++ owner ++ " found"
  | notAText function place owner =>
    function ++ "() argument " ++ Nat.repr place ++ " must be str, not " ++ owner
  | notAnInteger owner => "'" ++ owner ++ "' object cannot be interpreted as an integer"
  | noDescription => "__repr__ returned non-string (type NoneType)"
  | endless => "maximum recursion depth exceeded"

end Error

end DotLambda
