import MapScript.Json.Basic
import MapScript.Tree.Node

/-!
# Trees as JSON

A node is an object whose field `type` names its form; all its other fields are always written.
-/
namespace MapScript

namespace LiteralKind

def tag : LiteralKind → String
  | number => "Number"
  | string => "String"
  | bool => "Bool"
  | nil => "Nil"

def ofTag? (tag : String) : Option LiteralKind :=
  [number, string, bool, nil].find? (·.tag == tag)

end LiteralKind

namespace Param

def toJson (p : Param) : Json :=
  .object [("name", .string p.name), ("param_type", .ofOption .string p.type)]

def ofJson? (value : Json) : Option Param := do
  return ⟨← (value.field "name").string?, ← (value.field "param_type").optional? Json.string?⟩

end Param

namespace Node

/-- The object of a node of a given form. -/
def tagged (type : String) (fields : List (String × Json)) : Json :=
  .object (("type", .string type) :: fields)

mutual

def toJson : Node → Json
  | .globals body => tagged "GlobalsBlock" [("body", .array (listToJson body))]
  | .varDecl name type mutable isArray init =>
    tagged "VarDecl"
      [("name", .string name), ("var_type", .ofOption .string type), ("mutable", .bool mutable),
       ("is_array", .bool isArray), ("init", .array (listToJson init))]
  | .assign target op value =>
    tagged "Assign"
      [("target", .array (listToJson target)), ("op", .string op),
       ("value", .array (listToJson value))]
  | .function name params returnType isAsync body =>
    tagged "FuncDecl"
      [("name", .string name), ("params", .ofList Param.toJson params),
       ("return_type", .ofOption .string returnType), ("is_async", .bool isAsync),
       ("body", .array (listToJson body))]
  | .doBlock isAsync body =>
    tagged "DoBlock" [("is_async", .bool isAsync), ("body", .array (listToJson body))]
  | .returnStmt value => tagged "Return" [("value", .array (listToJson value))]
  | .ifStmt test body otherwise =>
    tagged "IfStmt"
      [("test", .object [("parts", .array (listToJson test))]),
       ("then", .array (listToJson body)), ("else_", optionToJson otherwise)]
  | .call callee isAsync args =>
    tagged "CallExpr"
      [("callee", .array (listToJson callee)), ("is_async", .bool isAsync),
       ("args", .array (listToJson args))]
  | .member name chain =>
    tagged "MemberExpr" [("object", .string name), ("chain", .array (listToJson chain))]
  | .property name => tagged "Property" [("name", .string name)]
  | .index parts => tagged "Index" [("index", .array (listToJson parts))]
  | .forStmt indexVar first last body =>
    tagged "ForStmt"
      [("index_var", .string indexVar), ("from", .array (listToJson first)),
       ("to", .array (listToJson last)), ("body", .array (listToJson body))]
  | .loop exit body =>
    tagged "LoopStmt" [("exit_when", optionToJson exit), ("body", .array (listToJson body))]
  | .exitWhen condition => tagged "ExitWhen" [("condition", .array (listToJson condition))]
  | .struct name body =>
    tagged "StructDecl" [("name", .string name), ("body", .array (listToJson body))]
  | .expect condition => tagged "Expect" [("condition", .array (listToJson condition))]
  | .exprStmt parts => tagged "ExprStmt" [("expr", .array (listToJson parts))]
  | .expr parts => tagged "Expr" [("parts", .array (listToJson parts))]
  | .group body => tagged "Group" [("body", .array (listToJson body))]
  | .array items => tagged "ArrayLiteral" [("items", .array (listToJson items))]
  | .object fields => tagged "ObjectLiteral" [("fields", .array (fieldsToJson fields))]
  | .literal kind value =>
    tagged "Literal" [("kind", .string kind.tag), ("value", .string value)]
  | .identifier name => tagged "Identifier" [("name", .string name)]
  | .operator symbol => tagged "Operator" [("symbol", .string symbol)]
  | .comment text => tagged "Comment" [("text", .string text)]
  | .instruction op operands =>
    tagged "Mnemonic" [("op", .string op), ("operands", .array (listToJson operands))]
  | .debug => tagged "DebugStmt" []

def listToJson : List Node → List Json
  | [] => []
  | node :: nodes => node.toJson :: listToJson nodes

def optionToJson : Option (List Node) → Json
  | none => .null
  | some nodes => .array (listToJson nodes)

def fieldsToJson : List (String × List Node) → List Json
  | [] => []
  | (key, value) :: fields =>
    .object [("key", .string key), ("value", .array (listToJson value))] :: fieldsToJson fields

end

mutual

def ofJson? (value : Json) : Option Node :=
  match value with
  | .object fields => do
    let field (name : String) : Json := Json.lookup name fields
    let text (name : String) : Option String := (field name).string?
    let flag (name : String) : Option Bool := (field name).bool?
    let optText (name : String) : Option (Option String) := (field name).optional? Json.string?
    let nodes (name : String) : Option (List Node) := arrayOfJson? (Json.lookup name fields)
    let optNodes (name : String) : Option (Option (List Node)) :=
      if (field name).isNull then some none
      else (arrayOfJson? (Json.lookup name fields)).map some
    match ← text "type" with
    | "GlobalsBlock" => return .globals (← nodes "body")
    | "VarDecl" =>
      return .varDecl (← text "name") (← optText "var_type") (← flag "mutable") (← flag "is_array")
        (← nodes "init")
    | "Assign" => return .assign (← nodes "target") (← text "op") (← nodes "value")
    | "FuncDecl" =>
      return .function (← text "name") (← (field "params").list? Param.ofJson?)
        (← optText "return_type") (← flag "is_async") (← nodes "body")
    | "DoBlock" => return .doBlock (← flag "is_async") (← nodes "body")
    | "Return" => return .returnStmt (← nodes "value")
    | "IfStmt" =>
      return .ifStmt (← arrayOfJson? ((Json.lookup "test" fields).field "parts")) (← nodes "then")
        (← optNodes "else_")
    | "CallExpr" => return .call (← nodes "callee") (← flag "is_async") (← nodes "args")
    | "MemberExpr" => return .member (← text "object") (← nodes "chain")
    | "Property" => return .property (← text "name")
    | "Index" => return .index (← nodes "index")
    | "ForStmt" =>
      return .forStmt (← text "index_var") (← nodes "from") (← nodes "to") (← nodes "body")
    | "LoopStmt" => return .loop (← optNodes "exit_when") (← nodes "body")
    | "ExitWhen" => return .exitWhen (← nodes "condition")
    | "StructDecl" => return .struct (← text "name") (← nodes "body")
    | "Expect" => return .expect (← nodes "condition")
    | "ExprStmt" => return .exprStmt (← nodes "expr")
    | "Expr" => return .expr (← nodes "parts")
    | "Group" => return .group (← nodes "body")
    | "ArrayLiteral" => return .array (← nodes "items")
    | "ObjectLiteral" => return .object (← fieldArrayOfJson? (Json.lookup "fields" fields))
    | "Literal" => return .literal (← LiteralKind.ofTag? (← text "kind")) (← text "value")
    | "Identifier" => return .identifier (← text "name")
    | "Operator" => return .operator (← text "symbol")
    | "Comment" => return .comment (← text "text")
    | "Mnemonic" => return .instruction (← text "op") (← nodes "operands")
    | "DebugStmt" => return .debug
    | _ => none
  | _ => none
termination_by sizeOf value
decreasing_by
  all_goals
    simp only [Json.object.sizeOf_spec]
    grind [Json.sizeOf_lookup_le, Json.sizeOf_field_le]

def arrayOfJson? (value : Json) : Option (List Node) :=
  match value with
  | .array items => listOfJson? items
  | _ => none
termination_by sizeOf value

def listOfJson? (items : List Json) : Option (List Node) :=
  match items with
  | [] => some []
  | item :: items => do return (← ofJson? item) :: (← listOfJson? items)
termination_by sizeOf items

def fieldArrayOfJson? (value : Json) : Option (List (String × List Node)) :=
  match value with
  | .array items => fieldsOfJson? items
  | _ => none
termination_by sizeOf value

def fieldsOfJson? (items : List Json) : Option (List (String × List Node)) :=
  match items with
  | [] => some []
  | item :: items => do
    return (← (item.field "key").string?, ← arrayOfJson? (item.field "value")) ::
      (← fieldsOfJson? items)
termination_by sizeOf items
decreasing_by
  all_goals
    simp only [List.cons.sizeOf_spec]
    grind [Json.sizeOf_field_le]

end

end Node

namespace Tree

def toJson (t : Tree) : Json :=
  .object [("body", .array (Node.listToJson t.body)), ("is_async", .bool t.isAsync)]

def ofJson? (value : Json) : Option Tree := do
  return ⟨← Node.arrayOfJson? (value.field "body"), ← (value.field "is_async").bool?⟩

end Tree

end MapScript
