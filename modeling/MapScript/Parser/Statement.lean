import MapScript.Builtin.Instruction
import MapScript.Parser.Expression

/-!
# Statements

A statement begins with a keyword, with an instruction of the register machine, with a type, or it
is an expression. Each rule yields the nodes of its statement.
-/
namespace MapScript

/-- The keywords that begin a statement. -/
inductive StatementWord where
  | globals
  | function
  | localDecl
  | constant
  | set
  | returnStmt
  | ifStmt
  | call
  | loop
  | exitWhen
  | forStmt
  | struct
  | expect
  | debug
  /-- A keyword that begins an expression. -/
  | expression
deriving DecidableEq, Repr

def StatementWord.ofWord? (word : String) : Option StatementWord :=
  match word with
  | "globals" => some .globals
  | "function" => some .function
  | "local" => some .localDecl
  | "const" => some .constant
  | "constant" => some .constant
  | "set" => some .set
  | "return" => some .returnStmt
  | "if" => some .ifStmt
  | "call" => some .call
  | "loop" => some .loop
  | "exitwhen" => some .exitWhen
  | "for" => some .forStmt
  | "struct" => some .struct
  | "expect" => some .expect
  | "debug" => some .debug
  | word => if (ExpressionWord.ofWord? word).isSome then some .expression else none

def assignmentOperators : List String := ["=", "+=", "-=", "*=", "/=", "%="]

/-- The first assignment operator of an expression, with what stands before and after it. -/
def splitAssignment? : List Node → Option (List Node × String × List Node)
  | [] => none
  | node :: nodes =>
    match node.symbol?.filter (· ∈ assignmentOperators) with
    | some op => some ([], op, nodes)
    | none => (splitAssignment? nodes).map fun (target, op, value) => (node :: target, op, value)

/-- A variable that is declared by its name alone. -/
def Node.bareVariable (name : String) (init : List Node) : Node :=
  .varDecl name none true false init

/-- Outside a block, `name = value` declares a variable. -/
def Node.ofAssignment (scope : Scope) (target : List Node) (op : String) (value : List Node) :
    Node :=
  match target with
  | [.identifier name] =>
    if op = "=" ∧ scope ≠ .block then .bareVariable name value else .assign target op value
  | _ => .assign target op value

/-- The statement of an expression without an assignment. Outside a block, a name declares a
variable. -/
def Node.ofExpression (scope : Scope) (parts : List Node) : Node :=
  match parts with
  | [.identifier name] => if scope ≠ .block then .bareVariable name [] else .exprStmt parts
  | [.call callee isAsync args] => .call callee isAsync args
  | [.doBlock isAsync body] => .doBlock isAsync body
  | _ => .exprStmt parts

/-- The statement that the parts of an expression make. -/
def Node.ofStatementParts (scope : Scope) (parts : List Node) : Node :=
  match splitAssignment? parts with
  | some (target, op, value) => .ofAssignment scope target op value
  | none => .ofExpression scope parts

/-- A loop; a condition that stands first in the body moves to its head. -/
def Node.ofLoopBody : List Node → Node
  | .exitWhen condition :: body => .loop (some condition) body
  | body => .loop none body

/-- The operators that can stand before an operand of an instruction. -/
def operandSigns : List String := ["-", "+", "!", "~"]

namespace ParserState

/-- Whether a name is an instruction with an operand after it. A bracket or a sign counts as the
start of an operand only when it stands apart from the name, and a sign has to touch what follows:
`add(1, 2)` stays a call and `sub - 1` stays arithmetic. -/
def atInstruction (s : ParserState) : Bool :=
  let word := s.current
  let next := s.peek 1
  let apart := word.span.stop < next.span.start
  s.options.asm && (Instruction.find? word.word).isSome &&
    match next.kind with
    | .identifier => true
    | .number => true
    | .string => true
    | .leftParen => apart
    | .operator =>
      apart && (next.word == "[" ||
        (next.word ∈ operandSigns && next.span.stop == (s.peek 2).span.start))
    | _ => false

/-- Whether a name or the word `array` comes next, so that the current name is a type. -/
def beforeName (s : ParserState) : Bool :=
  (s.peek 1).kind == .identifier || (s.peek 1).isKeyword "array"

end ParserState

/-- `[type] [array] name` -/
structure TypedName where
  type : Option String
  name : String
  isArray : Bool
deriving DecidableEq, Repr

namespace Parser

/-- A name with its type. Of two names in a row the first is the type, which is recorded only when
types are. -/
def typedName : Parser TypedName := do
  let s ← get
  let hasType := s.current.kind == .identifier && s.beforeName
  if hasType then advance
  let isArray ← eatKeyword "array"
  let name ← name
  return ⟨if hasType && s.options.types then some s.current.word else none, name, isArray⟩

def paramPass (params : List Param) : Parser (Pass (List Param)) := do
  if ← isAborted then return .done params
  if (← current).kind = .identifier then
    let typed ← typedName
    let params := params ++ [⟨typed.name, typed.type⟩]
    if ← eatOperator "," then return .again params else return .done params
  else
    return .done params

def params : Parser (List Param) := do
  if ← eatKeyword "nothing" then return [] else repeated paramPass []

/-- The parameters of a function, in parentheses or after `takes`. -/
def paramList : Parser (List Param) := do
  if ← eatKind .leftParen then
    let list ← params
    eatOr .rightParen (·.kind == .rightParen)
    return list
  else if ← eatKeyword "takes" then
    params
  else
    return []

/-- What stands after `returns`. -/
def returnType : Parser (Option String) := do
  if ← eatKeyword "returns" then
    let s ← get
    if s.current.kind = .identifier then
      advance
      return if s.options.types then some s.current.word else none
    else
      eatOr .typeName (·.isKeyword "nothing")
      return none
  else
    return none

variable (nested : PlaceReader)

/-- The cursor is on `function`. -/
def function : Parser Node := do
  let opener := (← current).span
  advance
  let name ← name
  let params ← paramList
  let returnType ← returnType
  skipToLineEnd
  let (body, isAsync) ← framed (blockBody nested opener .block Stop.functionEnd)
  return .function name params returnType isAsync body

/-- The value after a `=`, if there is one. -/
def initializer : Parser (List Node) := do
  if ← eatOperator "=" then expression nested [] else return []

/-- A variable; the cursor is on its type or name. -/
def variableDecl : Parser Node := do
  let typed ← typedName
  let init ← initializer nested
  return .varDecl typed.name typed.type true typed.isArray init

/-- A constant has to have a value; `constant function` is a function. The cursor is on the
keyword. -/
def constant : Parser Node := do
  advance
  if (← current).isKeyword "function" then
    function nested
  else
    let typed ← typedName
    if !(← current).isOperator "=" then expected .equals
    let init ← initializer nested
    return .varDecl typed.name typed.type false typed.isArray init

/-- The statement that an expression makes. -/
def expressionStatement (scope : Scope) : Parser (List Node) := do
  let parts ← expression nested []
  if parts.isEmpty then
    expected .expression
    return []
  else
    return [.ofStatementParts scope parts]

/-- An assignment; the cursor is on `set`. -/
def assignment : Parser (List Node) := do
  advance
  let parts ← expression nested []
  match splitAssignment? parts with
  | some (target, op, value) => return [.assign target op value]
  | none =>
    expected .equals
    return if parts.isEmpty then [] else [.exprStmt parts]

/-- What follows the condition of a branch and its statements. -/
def otherwise (closer : Option (Stop × Span)) : Parser (Option (List Node)) := do
  match closer with
  | none => return none
  | some (stop, span) =>
    if stop = Stop.otherwise then
      return some (← blockBody nested span .block Stop.ifEnd)
    else if stop = Stop.otherwiseIf then
      return some (← nested (.condition span)).1
    else
      return none

/-- A condition and its branches, after `if` or `elseif`. -/
def readCondition (opener : Span) : Parser Reading := do
  let test ← expression nested []
  eatOr .thenWord (·.isKeyword "then")
  let (body, closer) ← block nested opener .block Stop.branchEnd
  let rest ← otherwise nested closer
  return ([.ifStmt test body rest], none)

/-- The cursor is on `for`. -/
def forStmt : Parser Node := do
  let opener := (← current).span
  advance
  let indexVar ← name
  let _ ← eatOperator "="
  let first ← expression nested []
  eatOr .toWord (·.isKeyword "to")
  let last ← expression nested []
  let body ← blockBody nested opener .block Stop.forEnd
  return .forStmt indexVar first last body

/-- The cursor is on `struct`. -/
def struct : Parser Node := do
  let opener := (← current).span
  advance
  let name ← name
  skipToLineEnd
  return .struct name (← blockBody nested opener .struct Stop.structEnd)

/-- One operand and the comma after it. -/
def operandPass (operands : List Node) : Parser (Pass (List Node)) := do
  if ← isAborted then return .done operands
  let parts ← expression nested [.comma]
  if parts.isEmpty then return .done operands
  let operands := operands ++ [.ofParts parts]
  if ← eatOperator "," then return .again operands else return .done operands

/-- The cursor is on the name of an instruction. -/
def instruction : Parser Node := do
  let op := lowerWord (← current).word
  advance
  return .instruction op (← repeated (operandPass nested) [])

/-- A block that its keyword opens at once. -/
def openBlock (scope : Scope) (closers : List Stop) : Parser (List Node) := do
  let opener := (← current).span
  advance
  blockBody nested opener scope closers

/-- A keyword and the expression after it. -/
def afterKeyword : Parser (List Node) := do
  advance
  expression nested []

/-- The nodes of a statement that begins with a keyword. -/
def wordStatement (scope : Scope) : StatementWord → Parser (List Node)
  | .globals => return [.globals (← openBlock nested .globals Stop.globalsEnd)]
  | .function => return [← function nested]
  | .localDecl => do
    advance
    return [← variableDecl nested]
  | .constant => return [← constant nested]
  | .set => assignment nested
  | .returnStmt => return [.returnStmt (← afterKeyword nested)]
  | .ifStmt => do
    let opener := (← current).span
    advance
    return (← nested (.condition opener)).1
  | .call => do
    advance
    expressionStatement nested scope
  | .loop => return [.ofLoopBody (← openBlock nested .block Stop.loopEnd)]
  | .exitWhen => return [.exitWhen (← afterKeyword nested)]
  | .forStmt => return [← forStmt nested]
  | .struct => return [← struct nested]
  | .expect => return [.expect (← afterKeyword nested)]
  | .debug => do
    advance
    return [.debug]
  | .expression => expressionStatement nested scope

/-- The nodes of a statement that begins with a name. -/
def nameStatement (scope : Scope) : Parser (List Node) := do
  let s ← get
  if s.atInstruction then return [← instruction nested]
  if s.beforeName then return [← variableDecl nested]
  expressionStatement nested scope

/-- The nodes of the statement at the cursor, or none if no rule takes its first token. -/
def statement? (scope : Scope) : Parser (Option (List Node)) := do
  let t ← current
  match t.kind with
  | .keyword =>
    modify (ParserState.note (.statement t.word))
    match StatementWord.ofWord? t.word with
    | some word => return some (← wordStatement nested scope word)
    | none => return none
  | .comment =>
    advance
    return some [.comment t.word]
  | .identifier => return some (← nameStatement nested scope)
  | .number => return some (← expressionStatement nested scope)
  | .string => return some (← expressionStatement nested scope)
  | .operator => return some (← expressionStatement nested scope)
  | .leftParen => return some (← expressionStatement nested scope)
  | .leftBrace => return some (← expressionStatement nested scope)
  | _ => return none

/-- The nodes that the current token begins in the mode that the parser is in, or none if no rule
takes it. -/
def nodes? : Parser (Option (List Node)) := do
  let s ← get
  if s.inExpression then expressionPart? nested else statement? nested s.scope

/-- The nodes at the cursor are read into the target, or one line end is passed over if
`acrossLines`. Done at a stop, and in an expression at a token that ends every expression. -/
def nodePass (stops : List Stop) (acrossLines : Bool) (_ : Option Stop) :
    Parser (Pass (Option Stop)) := do
  let s ← get
  if s.aborted then return .done none
  match stops.find? (·.accepts s.current) with
  | some stop => return .done (some stop)
  | none =>
    if s.inExpression && s.current.endsExpression then
      return .done (some ⟨s.current.kind, none⟩)
    if acrossLines && s.current.kind == .endOfLine then
      advance
      return .again none
    if s.current.kind = .endOfFile then
      record (.unexpectedEnd s.current stops.head? s.openers.head?)
      return .done none
    match ← nodes? nested with
    | some nodes =>
      modify (ParserState.push nodes)
      return .again none
    | none =>
      reject
      return .again none

/-- Reads nodes into the target up to one of the stops, which is not consumed. A token that no rule
takes is skipped. -/
def readNodes (stops : List Stop) (acrossLines : Bool) : Parser (Option Stop) :=
  repeated (nodePass nested stops acrossLines) none

/-- The parts of an expression, read into a target of their own. -/
def collectExpression (stops : List Stop) : Parser Reading := do
  let outer ← get
  set { outer with target := [], inExpression := true }
  let _ ← readNodes nested stops false
  let nodes := (← get).target
  modify fun s => { s with target := outer.target, inExpression := outer.inExpression }
  return (nodes, none)

/-- The statements of a block, read into a target of their own. -/
def collectStatements (scope : Scope) (stops : List Stop) : Parser Reading := do
  let outer ← get
  set { outer with target := [], scope := scope, inExpression := false }
  let stop ← readNodes nested stops true
  let nodes := (← get).target
  modify fun s => { s with
    target := outer.target, scope := outer.scope, inExpression := outer.inExpression }
  return (nodes, stop)

end Parser

end MapScript
