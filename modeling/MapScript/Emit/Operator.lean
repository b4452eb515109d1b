import MapScript.Tree.Node

/-!
# Operators in the output

The operators spelt as words and the loose comparisons have other symbols in the output. Which
symbol an operator gets, and whether a blank may stand beside it, depends on its neighbours.
-/
namespace MapScript

/-- The symbol of an operator that has no special neighbours. -/
def outputSymbol (symbol : String) : String :=
  match lowerWord symbol with
  | "is" => "==="
  | "==" => "==="
  | "not" => "!=="
  | "!=" => "!=="
  | "and" => "&&"
  | "or" => "||"
  | "." => "."
  | "->" => "."
  | _ => symbol

/-- The operators that bind to the operand after them when nothing stands before them. -/
def signOperators : List String := ["-", "+", "!", "~", "++", "--", "not"]

namespace Node

def isAnyOperator (node : Node) : Bool := node.symbol?.isSome

/-- An operator with nothing but an operator before it can only be a sign. -/
def inSignPosition (before : Option Node) : Bool := before.all isAnyOperator

/-- The text of an operator: `is not` is one comparison, and `not` with no operand before it is a
negation. -/
def operatorText (symbol : String) (before after : Option Node) : String :=
  if sameWord symbol "is" && after.any (isOperator "not") then "!=="
  else if sameWord symbol "not" && before.any (isOperator "is") then ""
  else if sameWord symbol "not" && inSignPosition before then "!"
  else outputSymbol symbol

def isSign (node : Node) (before : Option Node) : Bool :=
  node.symbol?.any (fun symbol => signOperators.any (sameWord · symbol)) && inSignPosition before

def isMemberOperator (node : Node) : Bool := node.isOperator "." || node.isOperator "->"

/-- A member operator, or a link that stands after an operand. -/
def isMemberAccess (node : Node) : Bool :=
  node.isMemberOperator ||
    match node with
    | .property _ => true
    | .index _ => true
    | _ => false

/-- `++` or `--` after an operand. -/
def isTrailing (node : Node) (before : Option Node) : Bool :=
  (node.isOperator "++" || node.isOperator "--") && !inSignPosition before

end Node

end MapScript
