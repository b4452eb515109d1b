/-!
# Log lines

An event has a level, a message and fields, and it happens inside some spans of work, each of which
has a level and fields too. Only what the threshold lets through is written.
-/
namespace MapScript

/-- How much a line matters, the most important first. -/
inductive LogLevel where
  | warn
  | info
  | debug
  | trace
deriving DecidableEq, Repr, Inhabited

namespace LogLevel

def rank : LogLevel → Nat
  | warn => 0
  | info => 1
  | debug => 2
  | trace => 3

/-- Whether a threshold lets a level through. -/
def admits (threshold level : LogLevel) : Bool := level.rank ≤ threshold.rank

/-- The name in a line, five characters wide. -/
def label : LogLevel → String
  | warn => " WARN"
  | info => " INFO"
  | debug => "DEBUG"
  | trace => "TRACE"

end LogLevel

abbrev LogFields := List (String × String)

/-- A piece of work that events happen in. -/
structure LogSpan where
  level : LogLevel
  name : String
  fields : LogFields
deriving DecidableEq, Repr

structure LogEvent where
  /-- The spans around the event, the outermost first. -/
  spans : List LogSpan
  level : LogLevel
  message : String
  fields : LogFields
deriving DecidableEq, Repr

def logField (field : String × String) : String := field.1 ++ "=" ++ field.2

namespace LogSpan

def render (span : LogSpan) : String :=
  span.name ++ "\x7b" ++ String.intercalate " " (span.fields.map logField) ++ "\x7d"

end LogSpan

namespace LogEvent

/-- The event inside one more span. -/
def within (span : LogSpan) (event : LogEvent) : LogEvent :=
  { event with spans := span :: event.spans }

/-- The spans that are written before a message. -/
def spanText (threshold : LogLevel) (spans : List LogSpan) : String :=
  match spans.filter (threshold.admits ·.level) with
  | [] => ""
  | spans => String.intercalate ":" (spans.map LogSpan.render) ++ ": "

/-- The line of an event that happens at a time. -/
def line? (threshold : LogLevel) (time : String) (event : LogEvent) : Option String :=
  if threshold.admits event.level then
    some (time ++ " " ++ event.level.label ++ " " ++ spanText threshold event.spans ++
      event.message ++ String.join (event.fields.map (" " ++ logField ·)) ++ "\n")
  else none

end LogEvent

end MapScript
