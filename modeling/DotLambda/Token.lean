import DotLambda.Datum

/-!
Tokens: the words of the language, each with the place where it starts.
-/

namespace DotLambda

/-- The kinds of tokens. -/
inductive Kind where
  | number | identifier | string
  | addOp | multOp | assign
  | leftParen | rightParen | dot | arrow | lambda
  | equalOp | compareOp
  | printWord | dumpWord
  | ifWord | thenWord | elseWord | endifWord
  | leftBracket | rightBracket | comma
  | headWord | tailWord | sortWord | appendWord | lengthWord
  | andWord | orWord | notWord
deriving DecidableEq

namespace Kind

/-- The name under which a kind is reported. -/
def name : Kind → String
  | number => "NUMBER"
  | identifier => "ID"
  | string => "STRING"
  | addOp => "ADD_OP"
  | multOp => "MULT_OP"
  | assign => "ASSIGN"
  | leftParen => "LPAREN"
  | rightParen => "RPAREN"
  | dot => "SEP"
  | arrow => "ARROW"
  | lambda => "LAMBDA"
  | equalOp => "EQUAL_OP"
  | compareOp => "COMPARE_OP"
  | printWord => "PRINT"
  | dumpWord => "DUMP"
  | ifWord => "IF"
  | thenWord => "THEN"
  | elseWord => "ELSE"
  | endifWord => "ENDIF"
  | leftBracket => "LBRACKET"
  | rightBracket => "RBRACKET"
  | comma => "COMMA"
  | headWord => "HEAD"
  | tailWord => "TAIL"
  | sortWord => "SORT"
  | appendWord => "APPEND"
  | lengthWord => "LENGTH"
  | andWord => "AND"
  | orWord => "OR"
  | notWord => "NOT"

/-- The words that are no identifiers. -/
def keywords : List (String × Kind) := [
  ("print", printWord), ("dump", dumpWord), ("if", ifWord), ("else", elseWord), ("then", thenWord),
  ("endif", endifWord), ("head", headWord), ("tail", tailWord), ("sort", sortWord),
  ("append", appendWord), ("length", lengthWord), ("and", andWord), ("or", orWord), ("not", notWord)]

/-- The kind of a word: a keyword's own, else that of identifiers. -/
def ofWord (word : String) : Kind := (keywords.lookup word).getD identifier

end Kind

/-- What a token stands for. -/
inductive Content where
  | number (n : Nat)
  | text (s : String)
deriving DecidableEq

/-- A token with the line and the position where it starts. -/
structure Token where
  kind : Kind
  content : Content
  line : Nat
  index : Nat
deriving DecidableEq

namespace Content

/-- What a token stands for, plainly. -/
def plain : Content → Except Error String
  | number n => Datum.decimal n
  | text s => pure s

/-- What a token stands for, a text in quotes. -/
def quoted : Content → Except Error String
  | number n => Datum.decimal n
  | text s => pure (Text.Quoted.quote s)

end Content

namespace Token

/-- What a token stands for, as a datum. -/
def datum (t : Token) : Datum :=
  match t.content with
  | .number n => .int n
  | .text s => .text s

/-- The text of a token: a name, an operator's symbol or what stands between quotes. A number has
none. -/
def text (t : Token) : String :=
  match t.content with
  | .number _ => ""
  | .text s => s

/-- The description of a token. -/
def description (t : Token) : Except Error String := do
  let shown ← t.content.quoted
  pure ("Token(type=" ++ Text.Quoted.quote t.kind.name ++ ", value=" ++ shown ++ ", lineno=" ++
    Nat.repr t.line ++ ", index=" ++ Nat.repr t.index ++ ")")

end Token

end DotLambda
