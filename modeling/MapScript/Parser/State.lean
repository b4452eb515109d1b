import MapScript.Parser.Error
import MapScript.Tree.Node

/-!
# The state of a parser

A parser walks over a list of tokens and never beyond the first end of file. It puts the nodes that
it reads into a target, which is set aside while a part of a node is read and put back afterwards.
It goes on after an error, but every token that it has to skip lowers a budget, and when nothing is
left of that the parser gives up: it builds what it has and reads no more statements.
-/
namespace MapScript

structure ParseOptions where
  /-- Record the type names of declarations and parameters. -/
  types : Bool
  /-- Take instructions of the register machine as statements. -/
  asm : Bool
  /-- How many tokens may be skipped before the parser gives up. -/
  retryBudget : Nat
deriving DecidableEq, Repr

def defaultRetryBudget : Nat := 5

instance : Inhabited ParseOptions := ⟨⟨false, false, defaultRetryBudget⟩⟩

/-- Something that a parser did, for the log. -/
inductive ParseEvent where
  /-- A statement was begun at a keyword. -/
  | statement (word : String)
  /-- A token is skipped while this much of the budget is left. -/
  | skipping (found : Token) (budget : Nat)
  /-- The budget is used up after this many errors. -/
  | exhausted (errors : Nat)
  | finished (errors : Nat) (aborted : Bool)
deriving DecidableEq, Repr

/-- What a bare `name = value` line means where it stands. -/
inductive Scope where
  | block
  | globals
  | struct
deriving DecidableEq, Repr, Inhabited

structure ParserState where
  options : ParseOptions
  /-- The tokens not read yet. -/
  rest : List Token
  /-- Where the next node goes, with those that are there. -/
  target : List Node
  scope : Scope
  /-- Whether parts of an expression are read, and not statements. -/
  inExpression : Bool
  /-- For each function or `do` block that is open, and for the program last, whether it waits for
  something. The innermost stands first. -/
  frames : List Bool
  /-- Where the open blocks begin, the innermost first. -/
  openers : List Span
  budget : Nat
  aborted : Bool
  errors : List ParseError
  /-- What was done so far, the latest first. -/
  trail : List ParseEvent

abbrev Parser := StateM ParserState

/-- Only this many errors are kept, apart from the one that says that the parser gave up. -/
def maxErrors : Nat := 50

namespace ParserState

/-- A parser over tokens, which has read none of them. -/
def start (options : ParseOptions) (tokens : List Token) : ParserState where
  options := options
  rest := tokens
  target := []
  scope := .block
  inExpression := false
  frames := [false]
  openers := []
  budget := options.retryBudget
  aborted := false
  errors := []
  trail := []

/-- The token `n` places ahead; past the list there is only an end of file. -/
def peek (s : ParserState) (n : Nat) : Token := s.rest[n]?.getD .noMore

def current (s : ParserState) : Token := s.peek 0

/-- Moves on by one token, but not beyond the end of file. -/
def advance (s : ParserState) : ParserState :=
  if s.current.kind = .endOfFile then s else { s with rest := s.rest.tail }

def skipLineEnds (s : ParserState) : ParserState :=
  { s with rest := s.rest.dropWhile (·.kind == .endOfLine) }

def note (event : ParseEvent) (s : ParserState) : ParserState :=
  { s with trail := event :: s.trail }

/-- Puts nodes behind those in the target. -/
def push (nodes : List Node) (s : ParserState) : ParserState :=
  { s with target := s.target ++ nodes }

/-- Keeps an error if there is room for it. -/
def record (error : ParseError) (s : ParserState) : ParserState :=
  if s.errors.length < maxErrors then { s with errors := s.errors ++ [error] } else s

/-- Gives up at a token. This error is kept in any case. -/
def abort (last : Token) (s : ParserState) : ParserState :=
  let s := s.note (.exhausted s.errors.length)
  { s with aborted := true, errors := s.errors ++ [.budgetExhausted last] }

/-- Skips the current token at the cost of one from the budget. -/
def reject (s : ParserState) : ParserState :=
  let found := s.current
  let s := (s.advance.note (.skipping found s.budget)).record (.unexpectedToken found)
  let s := { s with budget := s.budget - 1 }
  if s.budget = 0 then s.abort found else s

/-- The innermost open function or `do` block waits for something. -/
def markAsync (s : ParserState) : ParserState :=
  match s.frames with
  | [] => s
  | _ :: outer => { s with frames := true :: outer }

/-- Whether the program itself waits for something. -/
def isAsync (s : ParserState) : Bool := s.frames.getLast?.getD false

end ParserState

namespace Parser

def current : Parser Token := return (← get).current

def advance : Parser Unit := modify ParserState.advance

def isAborted : Parser Bool := return (← get).aborted

def skipLineEnds : Parser Unit := modify ParserState.skipLineEnds

def reject : Parser Unit := modify ParserState.reject

def record (error : ParseError) : Parser Unit := modify (ParserState.record error)

/-- Reports that something else had to stand at the cursor. -/
def expected (wanted : Expectation) : Parser Unit := do
  record (.expected wanted (← current))

/-- Moves past the current token if it satisfies `p`. -/
def eat (p : Token → Bool) : Parser Bool := do
  if p (← current) then
    advance
    return true
  else
    return false

def eatKind (kind : TokenKind) : Parser Bool := eat (·.kind == kind)

def eatKeyword (word : String) : Parser Bool := eat (·.isKeyword word)

def eatOperator (symbol : String) : Parser Bool := eat (·.isOperator symbol)

/-- Moves past a token that has to come next, or reports that it is missing. -/
def eatOr (wanted : Expectation) (p : Token → Bool) : Parser Unit := do
  if !(← eat p) then expected wanted

/-- The name at the cursor. A missing one is reported and stands as `_`. -/
def name : Parser String := do
  let t ← current
  if t.kind = .identifier then
    advance
    return t.word
  else
    expected .name
    return "_"

/-- Runs `body` inside a function or `do` block, and tells whether that waits for something. -/
def framed {α : Type} (body : Parser α) : Parser (α × Bool) := do
  modify fun s => { s with frames := false :: s.frames }
  let a ← body
  let isAsync := (← get).frames.headD false
  modify fun s => { s with frames := s.frames.tail }
  return (a, isAsync)

/-- How a pass of a repetition ends. -/
inductive Pass (α : Type) where
  | again (value : α)
  | done (value : α)

/-- Runs `pass` until it is done. A pass that asks for another one has read a token; one that has
not ends the repetition. -/
def repeated {α : Type} (pass : α → Parser (Pass α)) (a : α) (s : ParserState) :
    α × ParserState :=
  match pass a s with
  | (.done b, next) => (b, next)
  | (.again b, next) =>
    if next.rest.length < s.rest.length then repeated pass b next else (b, next)
termination_by s.rest.length

/-- One token that has no place in a header. -/
def headerPass (_ : Unit) : Parser (Pass Unit) := do
  let s ← get
  if s.aborted || s.current.kind ∈ [.endOfLine, .endOfFile, .comment] then
    return .done ()
  reject
  return .again ()

/-- Skips what is left of a header line. -/
def skipToLineEnd : Parser Unit := repeated headerPass ()

end Parser

end MapScript
