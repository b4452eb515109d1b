import MapScript.Parser.State

/-!
# Nested places

Nodes are read in three kinds of places: an expression, the statements of a block, and what
follows an `if` or `elseif`. The rules for each place need the others, so they take the reader of
nested places as an argument. A nested place lies further on in the tokens, or it
begins at the same token: statements in a condition that is missing, an expression in a statement.
-/
namespace MapScript

inductive Place where
  /-- An expression, up to one of the stops or to a token that ends every expression. -/
  | expression (stops : List Stop)
  /-- Statements up to one of the stops. -/
  | statements (scope : Scope) (stops : List Stop)
  /-- A condition and its branches, after the keyword at `opener`. -/
  | condition (opener : Span)
deriving DecidableEq, Repr

/-- The nodes of a place, and the stop that ended it if one did. -/
abbrev Reading := List Node × Option Stop

/-- Reads a nested place. -/
abbrev PlaceReader := Place → Parser Reading

namespace Parser

variable (nested : PlaceReader)

/-- The parts of an expression. -/
def expression (stops : List Stop) : Parser (List Node) :=
  return (← nested (.expression stops)).1

/-- The statements of a block, and the stop that closed it, with its span. The closer is
consumed. -/
def block (opener : Span) (scope : Scope) (closers : List Stop) :
    Parser (List Node × Option (Stop × Span)) := do
  modify fun s => { s with openers := opener :: s.openers }
  let (body, closer) ← nested (.statements scope closers)
  modify fun s => { s with openers := s.openers.tail }
  match closer with
  | none => return (body, none)
  | some stop =>
    let span := (← current).span
    advance
    return (body, some (stop, span))

/-- The statements of a block. -/
def blockBody (opener : Span) (scope : Scope) (closers : List Stop) : Parser (List Node) :=
  return (← block nested opener scope closers).1

end Parser

end MapScript
