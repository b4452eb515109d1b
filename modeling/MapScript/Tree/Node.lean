import MapScript.Text.Word

/-!
# Syntax trees

Expressions are kept flat: `x + 1` is the list of an identifier, an operator and a literal. Only
calls, member chains, groups and literals nest. Statements and expressions share one type, since a
tree may also be given by hand and then any node can stand anywhere.
-/
namespace MapScript

inductive LiteralKind where
  | number
  | string
  | bool
  | nil
deriving DecidableEq, Repr, Inhabited

/-- A parameter of a function, with its type if that was recorded. -/
structure Param where
  name : String
  type : Option String
deriving DecidableEq, Repr, Inhabited

inductive Node where
  /-- Declarations shared by the whole program. -/
  | globals (body : List Node)
  | varDecl (name : String) (type : Option String) (mutable isArray : Bool) (init : List Node)
  | assign (target : List Node) (op : String) (value : List Node)
  | function (name : String) (params : List Param) (returnType : Option String) (isAsync : Bool)
      (body : List Node)
  /-- Statements that stand as a value of their own. -/
  | doBlock (isAsync : Bool) (body : List Node)
  | returnStmt (value : List Node)
  /-- A chain of conditions nests in the last branch. -/
  | ifStmt (test body : List Node) (otherwise : Option (List Node))
  | call (callee : List Node) (isAsync : Bool) (args : List Node)
  /-- A name with links after it, each a property or an index. -/
  | member (object : String) (chain : List Node)
  | property (name : String)
  | index (index : List Node)
  | forStmt (indexVar : String) (first last body : List Node)
  /-- A loop, with the condition that ends it when that stands first in its body. -/
  | loop (exit : Option (List Node)) (body : List Node)
  | exitWhen (condition : List Node)
  | struct (name : String) (body : List Node)
  | expect (condition : List Node)
  | exprStmt (expr : List Node)
  | expr (parts : List Node)
  | group (body : List Node)
  | array (items : List Node)
  | object (fields : List (String × List Node))
  | literal (kind : LiteralKind) (value : String)
  | identifier (name : String)
  | operator (symbol : String)
  | comment (text : String)
  /-- An instruction of the register machine. -/
  | instruction (op : String) (operands : List Node)
  | debug
deriving Inhabited

/-- A program. It is asynchronous when it waits outside all functions. -/
structure Tree where
  body : List Node
  isAsync : Bool
deriving Inhabited

namespace Node

/-- The dotted name of a chain of properties; a chain with an index in it has none. -/
def chainName? (name : String) : List Node → Option String
  | [] => some name
  | .property p :: links => chainName? (name ++ "." ++ p) links
  | _ :: _ => none

/-- The name that a node spells, dots included. -/
def flatName? : Node → Option String
  | .identifier name => some name
  | .member name chain => chainName? name chain
  | _ => none

/-- A single part stands for itself. -/
def ofParts : List Node → Node
  | [part] => part
  | parts => .expr parts

/-- The symbol of an operator. -/
def symbol? : Node → Option String
  | .operator symbol => some symbol
  | _ => none

/-- Whether a node is the operator with this symbol, in any letter case. -/
def isOperator (symbol : String) (node : Node) : Bool :=
  node.symbol?.any (sameWord · symbol)

end Node

end MapScript
