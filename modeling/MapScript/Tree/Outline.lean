import MapScript.Text.Quoted
import MapScript.Tree.Json

/-!
# Trees as outlines

An outline shows a tree for reading: each field and each item on a line of its own, four blanks
deeper than what it belongs to.
-/
namespace MapScript

inductive Outline where
  /-- A word that stands for itself. -/
  | word (text : String)
  | text (text : String)
  | list (items : List Outline)
  | record (name : String) (fields : List (String × Outline))
  /-- A value that could be missing and is not. -/
  | present (value : Outline)
deriving Inhabited

namespace Outline

/-- A new line at a depth. -/
def newline (depth : Nat) : String :=
  "\n" ++ String.ofList (List.replicate (4 * depth) ' ')

mutual

/-- The text of an outline that begins at a depth. -/
def renderAt (depth : Nat) : Outline → String
  | .word w => w
  | .text t => quotedText t
  | .list [] => "[]"
  | .list (item :: items) =>
    "[" ++ renderItems (depth + 1) (item :: items) ++ newline depth ++ "]"
  | .record name fields =>
    name ++ " \x7b" ++ renderFields (depth + 1) fields ++ newline depth ++ "\x7d"
  | .present value =>
    "Some(" ++ newline (depth + 1) ++ renderAt (depth + 1) value ++ "," ++ newline depth ++ ")"

def renderItems (depth : Nat) : List Outline → String
  | [] => ""
  | item :: items => newline depth ++ renderAt depth item ++ "," ++ renderItems depth items

def renderFields (depth : Nat) : List (String × Outline) → String
  | [] => ""
  | (name, value) :: fields =>
    newline depth ++ name ++ ": " ++ renderAt depth value ++ "," ++ renderFields depth fields

end

def render (outline : Outline) : String := outline.renderAt 0

def flag (value : Bool) : Outline := .word (if value then "true" else "false")

def option : Option Outline → Outline
  | none => .word "None"
  | some value => .present value

def optionText (value : Option String) : Outline := option (value.map .text)

end Outline

def Param.outline (p : Param) : Outline :=
  .record "Param" [("name", .text p.name), ("param_type", .optionText p.type)]

namespace Node

mutual

def outline : Node → Outline
  | .globals body => .record "GlobalsBlock" [("body", .list (outlineList body))]
  | .varDecl name type mutable isArray init =>
    .record "VarDecl"
      [("name", .text name), ("var_type", .optionText type), ("mutable", .flag mutable),
       ("is_array", .flag isArray), ("init", .list (outlineList init))]
  | .assign target op value =>
    .record "Assign"
      [("target", .list (outlineList target)), ("op", .text op),
       ("value", .list (outlineList value))]
  | .function name params returnType isAsync body =>
    .record "FuncDecl"
      [("name", .text name), ("params", .list (params.map Param.outline)),
       ("return_type", .optionText returnType), ("is_async", .flag isAsync),
       ("body", .list (outlineList body))]
  | .doBlock isAsync body =>
    .record "DoBlock" [("is_async", .flag isAsync), ("body", .list (outlineList body))]
  | .returnStmt value => .record "Return" [("value", .list (outlineList value))]
  | .ifStmt test body otherwise =>
    .record "IfStmt"
      [("test", .record "Comparison" [("parts", .list (outlineList test))]),
       ("then", .list (outlineList body)), ("else_", outlineOption otherwise)]
  | .call callee isAsync args =>
    .record "CallExpr"
      [("callee", .list (outlineList callee)), ("is_async", .flag isAsync),
       ("args", .list (outlineList args))]
  | .member name chain =>
    .record "MemberExpr" [("object", .text name), ("chain", .list (outlineList chain))]
  | .property name => .record "Property" [("name", .text name)]
  | .index parts => .record "Index" [("index", .list (outlineList parts))]
  | .forStmt indexVar first last body =>
    .record "ForStmt"
      [("index_var", .text indexVar), ("from", .list (outlineList first)),
       ("to", .list (outlineList last)), ("body", .list (outlineList body))]
  | .loop exit body =>
    .record "LoopStmt" [("exit_when", outlineOption exit), ("body", .list (outlineList body))]
  | .exitWhen condition => .record "ExitWhen" [("condition", .list (outlineList condition))]
  | .struct name body =>
    .record "StructDecl" [("name", .text name), ("body", .list (outlineList body))]
  | .expect condition => .record "Expect" [("condition", .list (outlineList condition))]
  | .exprStmt parts => .record "ExprStmt" [("expr", .list (outlineList parts))]
  | .expr parts => .record "Expr" [("parts", .list (outlineList parts))]
  | .group body => .record "Group" [("body", .list (outlineList body))]
  | .array items => .record "ArrayLiteral" [("items", .list (outlineList items))]
  | .object fields => .record "ObjectLiteral" [("fields", .list (outlineFields fields))]
  | .literal kind value => .record "Literal" [("kind", .word kind.tag), ("value", .text value)]
  | .identifier name => .record "Identifier" [("name", .text name)]
  | .operator symbol => .record "Operator" [("symbol", .text symbol)]
  | .comment text => .record "Comment" [("text", .text text)]
  | .instruction op operands =>
    .record "Mnemonic" [("op", .text op), ("operands", .list (outlineList operands))]
  | .debug => .word "DebugStmt"

def outlineList : List Node → List Outline
  | [] => []
  | node :: nodes => node.outline :: outlineList nodes

def outlineOption : Option (List Node) → Outline
  | none => .option none
  | some nodes => .option (some (.list (outlineList nodes)))

def outlineFields : List (String × List Node) → List Outline
  | [] => []
  | (key, value) :: fields =>
    .record "ObjectField" [("key", .text key), ("value", .list (outlineList value))] ::
      outlineFields fields

end

end Node

def Tree.outline (t : Tree) : Outline :=
  .record "Ast" [("body", .list (Node.outlineList t.body)), ("is_async", .flag t.isAsync)]

end MapScript
