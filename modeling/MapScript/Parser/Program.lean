import MapScript.Parser.Statement

/-!
# Reading programs

The rules of the three places are tied together here. A parser can read a whole program at once,
or go on from stop to stop, with the state in between in the hands of the caller.
-/
namespace MapScript

/-- The rules of a place, given a reader for the places inside it. -/
def Place.rules (nested : PlaceReader) : Place → Parser Reading
  | .expression stops => Parser.collectExpression nested stops
  | .statements scope stops => Parser.collectStatements nested scope stops
  | .condition opener => Parser.readCondition nested opener

/-- What is left to read in a place. At the same token a condition may hold statements, and those
may hold an expression. -/
def Place.weight (place : Place) (s : ParserState) : Nat :=
  match place with
  | .expression _ => 3 * s.rest.length
  | .statements _ _ => 3 * s.rest.length + 1
  | .condition _ => 3 * s.rest.length + 2

/-- Reads a place. The places inside it weigh less, and one that does not is left empty. -/
def Place.read (place : Place) (s : ParserState) : Reading × ParserState :=
  place.rules (fun inner t =>
    if inner.weight t < place.weight s then inner.read t else (([], none), t)) s
termination_by place.weight s

/-- What a parser found. -/
structure ParseResult where
  tree : Tree
  errors : List ParseError
  /-- The parser gave up and the tree is not complete. -/
  aborted : Bool

def ParseResult.isOk (r : ParseResult) : Bool := r.errors.isEmpty

/-- The tokens with an end of file after them, unless they have one there. -/
def terminated (tokens : List Token) : List Token :=
  match tokens.getLast? with
  | none => [.noMore]
  | some last =>
    if last.kind = .endOfFile then tokens
    else tokens ++ [⟨.endOfFile, none, none, .point last.span.stop⟩]

namespace ParserState

/-- A parser that has no tokens yet. -/
def ofOptions (options : ParseOptions) : ParserState := start options [.noMore]

/-- Starts over with other tokens. -/
def reset (tokens : List Token) (s : ParserState) : ParserState :=
  start s.options (terminated tokens)

/-- The nodes up to a stop, which is consumed, or to the end of file. They are read as the parser
stands, into a target of their own. -/
def readUntil (stop : Option Stop) (s : ParserState) : List Node × ParserState :=
  let (found, t) :=
    Parser.readNodes Place.read (stop.toList ++ [.endOfFile]) true { s with target := [] }
  let last := if found.isSome then t.advance else t
  (last.target, { last with target := s.target })

/-- Packs nodes with the errors found so far, which are then forgotten. -/
def finish (body : List Node) (s : ParserState) : ParseResult × ParserState :=
  let done := if s.errors.isEmpty then s else s.note (.finished s.errors.length s.aborted)
  (⟨⟨body, s.isAsync⟩, s.errors, s.aborted⟩, { done with errors := [] })

/-- Reads all that is left as one program. -/
def readProgram (s : ParserState) : ParseResult × ParserState :=
  let (body, s) := s.readUntil none
  s.finish body

end ParserState

/-- Reads a list of tokens as a program. -/
def parse (options : ParseOptions) (tokens : List Token) : ParseResult :=
  ((ParserState.ofOptions options).reset tokens).readProgram.1

end MapScript
