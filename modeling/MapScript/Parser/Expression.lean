import MapScript.Parser.Place

/-!
# Expressions

An expression is a flat list of operands and operators. An operand is a name, a literal, a group,
an array or an object, with calls and links after it.
-/
namespace MapScript

/-- The keywords that can stand in an expression. -/
inductive ExpressionWord where
  /-- `is`, `not`, `and`, `or` -/
  | operator
  /-- `nil`, `null` -/
  | nil
  /-- `true`, `false` -/
  | bool
  | await
  | doBlock
deriving DecidableEq, Repr

def ExpressionWord.ofWord? (word : String) : Option ExpressionWord :=
  if word ∈ ["is", "not", "and", "or"] then some .operator
  else if word ∈ ["nil", "null"] then some .nil
  else if word ∈ ["true", "false"] then some .bool
  else if word = "await" then some .await
  else if word = "do" then some .doBlock
  else none

/-- The tokens that end every expression. -/
def Token.endsExpression (t : Token) : Bool :=
  match t.kind with
  | .endOfLine => true
  | .endOfFile => true
  | .rightParen => true
  | .rightBrace => true
  | .comment => true
  | .keyword => (ExpressionWord.ofWord? t.word).isNone
  | _ => false

/-- The tokens that can name a field of an object. -/
def TokenKind.isFieldName (kind : TokenKind) : Bool :=
  kind ∈ [.identifier, .keyword, .string, .number]

/-- An operand that is never called: a literal, an array or an object by itself. -/
def isUncallable : List Node → Bool
  | [.literal _ _] => true
  | [.array _] => true
  | [.object _] => true
  | _ => false

/-- The nodes of `await` before an operand: a call is marked, and anything else gets an operator
in front. -/
def awaited : List Node → List Node
  | [.call callee _ args] => [.call callee true args]
  | parts => .operator "await" :: parts

/-- A name with the links after it. -/
def Node.ofChain (name : String) : List Node → Node
  | [] => .identifier name
  | chain => .member name chain

/-- A list with the node of an argument at its end. An empty argument leaves none. -/
def addArgument (args parts : List Node) : List Node :=
  if parts.isEmpty then args else args ++ [.ofParts parts]

namespace Parser

variable (nested : PlaceReader)

/-- One `.name`, `->name` or `[index]` at the cursor. -/
def link? : Parser (Option Node) := do
  if ← eat fun t => t.isOperator "." || t.isOperator "->" then
    let t ← current
    if t.kind = .identifier ∨ t.kind = .keyword then
      advance
      return some (.property t.word)
    else
      expected .name
      return none
  else if ← eatOperator "[" then
    let index ← expression nested [.rightBracket]
    eatOr .rightBracket (·.isOperator "]")
    return some (.index index)
  else
    return none

/-- One argument and what comes after it; done at the closer. -/
def argumentPass (stops : List Stop) (closer : Token → Bool) (missing : Expectation)
    (args : List Node) : Parser (Pass (List Node)) := do
  skipLineEnds
  if ← isAborted then return .done args
  if ← eat closer then return .done args
  let args := addArgument args (← expression nested stops)
  skipLineEnds
  if ← eatOperator "," then return .again args
  eatOr missing closer
  return .done args

/-- A call of what stands before it; the cursor is on `(`. -/
def call (callee : List Node) : Parser Node := do
  advance
  let args ← repeated (argumentPass nested [.comma] (·.kind == .rightParen) .rightParen) []
  return .call callee false args

/-- A call takes all that was read so far as its callee; a link is put after it. -/
def postfixPass (parts : List Node) : Parser (Pass (List Node)) := do
  if ← isAborted then return .done parts
  if (← current).kind = .leftParen then
    if isUncallable parts then return .done parts
    return .again [← call nested parts]
  match ← link? nested with
  | some link => return .again (parts ++ [link])
  | none => return .done parts

/-- An operand with the calls and links after it. -/
def operandTail (base : Node) : Parser (List Node) :=
  repeated (postfixPass nested) [base]

def chainPass (chain : List Node) : Parser (Pass (List Node)) := do
  if ← isAborted then return .done chain
  match ← link? nested with
  | some link => return .again (chain ++ [link])
  | none => return .done chain

/-- A name with its links, then the calls and links after those; the cursor is on the name. -/
def reference : Parser (List Node) := do
  let name := (← current).word
  advance
  let chain ← repeated (chainPass nested) []
  operandTail nested (.ofChain name chain)

/-- The cursor is on `(`. -/
def group : Parser Node := do
  advance
  let body ← expression nested []
  eatOr .rightParen (·.kind == .rightParen)
  return .group body

/-- The cursor is on `[`. -/
def array : Parser Node := do
  advance
  let items ← repeated
    (argumentPass nested [.comma, .rightBracket] (·.isOperator "]") .rightBracket) []
  return .array items

/-- One field and the comma after it, if there is one; done at `}`. -/
def fieldPass (fields : List (String × List Node)) :
    Parser (Pass (List (String × List Node))) := do
  skipLineEnds
  if ← isAborted then return .done fields
  if ← eatKind .rightBrace then return .done fields
  let key ← current
  if key.kind.isFieldName then
    advance
    eatOr .colon fun t => t.isOperator ":" || t.isOperator "="
    let value ← expression nested [.comma]
    skipLineEnds
    let _ ← eatOperator ","
    return .again (fields ++ [(key.word, value)])
  else
    expected .fieldName
    return .done fields

/-- The cursor is on `{`. -/
def object : Parser Node := do
  advance
  return .object (← repeated (fieldPass nested) [])

/-- The cursor is on `await`. -/
def await : Parser (List Node) := do
  advance
  modify ParserState.markAsync
  if (← current).kind = .identifier then
    return awaited (← reference nested)
  else
    return [.operator "await"]

/-- The cursor is on `do`. -/
def doBlock : Parser Node := do
  let opener := (← current).span
  advance
  let (body, isAsync) ← framed (blockBody nested opener .block Stop.doEnd)
  return .doBlock isAsync body

/-- A node that is one token. -/
def single (node : Node) : Parser (Option (List Node)) := do
  advance
  return some [node]

/-- The nodes that a keyword begins in an expression. -/
def wordPart? (t : Token) : Parser (Option (List Node)) := do
  match ExpressionWord.ofWord? t.word with
  | some .operator => single (.operator t.word)
  | some .nil => single (.literal .nil "null")
  | some .bool => single (.literal .bool t.word)
  | some .await => return some (← await nested)
  | some .doBlock => return some [← doBlock nested]
  | none => return none

/-- The nodes that an operator begins in an expression. A bracket closes nothing here. -/
def operatorPart? (t : Token) : Parser (Option (List Node)) := do
  if t.word = "]" then return none
  if t.word = "[" then
    let node ← array nested
    return some (← operandTail nested node)
  single (.operator t.word)

/-- The nodes that the current token begins, or none if no rule takes it. -/
def expressionPart? : Parser (Option (List Node)) := do
  let t ← current
  match t.kind with
  | .identifier => return some (← reference nested)
  | .number =>
    advance
    return some (← operandTail nested (.literal .number t.word))
  | .string =>
    advance
    return some (← operandTail nested (.literal .string t.word))
  | .operator => operatorPart? nested t
  | .leftParen =>
    let node ← group nested
    return some (← operandTail nested node)
  | .leftBrace =>
    let node ← object nested
    return some (← operandTail nested node)
  | .keyword => wordPart? nested t
  | _ => return none

end Parser

end MapScript
