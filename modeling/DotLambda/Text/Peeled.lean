/-!
Peeled text: the outer two characters of a text are dropped as long as it opens and closes in a given
way.
-/

namespace DotLambda.Text.Peeled

/-- Whether a text opens with one word and closes with another. -/
def encloses (opening closing cs : List Char) : Bool :=
  opening.isPrefixOf cs && closing.isSuffixOf cs

/-- Drops the first and the last character at most `layers` times, each time only while the text is
enclosed. -/
def peelUpTo (opening closing : List Char) : (layers : Nat) → List Char → List Char
  | 0, cs => cs
  | layers + 1, cs =>
    if encloses opening closing cs then peelUpTo opening closing layers (cs.drop 1).dropLast else cs

/-- Drops the first and the last character of a text as long as it is enclosed. A layer costs at
least one character, so the length bounds the number of layers. -/
def peel (opening closing : String) (s : String) : String :=
  let cs := s.toList
  String.ofList (peelUpTo opening.toList closing.toList cs.length cs)

end DotLambda.Text.Peeled
