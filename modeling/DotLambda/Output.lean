/-!
What a run writes, as a list of events. Lines that only tracing writes are events of their own, so
that an output without them is the same list filtered.
-/

namespace DotLambda

/-- The colours in which lines are written. -/
inductive Color where
  | cyan | blue | green | magenta | yellow
deriving DecidableEq

namespace Color

/-- The terminal code that switches a colour on. -/
def code : Color → String
  | cyan => "\x1b[36m"
  | blue => "\x1b[34m"
  | green => "\x1b[32m"
  | magenta => "\x1b[35m"
  | yellow => "\x1b[33m"

/-- The terminal code that switches back to plain writing. -/
def reset : String := "\x1b[0m"

/-- A coloured line: the code, the text, the line end, then the reset. -/
def line (color : Color) (text : String) : String := color.code ++ text ++ "\n" ++ reset

end Color

/-- One piece of output. -/
inductive Event where
  /-- A coloured line that is written only when tracing. -/
  | trace (color : Color) (text : String)
  /-- A coloured line that is always written. -/
  | colored (color : Color) (text : String)
  | line (text : String)
  /-- The mark after which a line of input is typed. -/
  | prompt
  /-- A line on the error stream. -/
  | complaint (text : String)
deriving DecidableEq

namespace Event

/-- What an event adds to the standard output. -/
def out : Event → String
  | trace color text => color.line text
  | colored color text => color.line text
  | line text => text ++ "\n"
  | prompt => ">> "
  | complaint _ => ""

/-- What an event adds to the error stream. -/
def err : Event → String
  | complaint text => text ++ "\n"
  | _ => ""

/-- Whether an event is there only because of tracing. -/
def isTrace : Event → Bool
  | trace _ _ => true
  | _ => false

/-- The standard output of a run. -/
def standardOutput (events : List Event) : String := String.join (events.map out)

/-- The error stream of a run. -/
def errorStream (events : List Event) : String := String.join (events.map err)

end Event

end DotLambda
