import MapScript.Builtin.Instruction
import MapScript.Emit.Context
import MapScript.Emit.Operator
import MapScript.Emit.Piece

/-!
# Nodes as script text

A tree is written in one pass from left to right. Each node sees its neighbours and the context it
stands in, and every shape of tree has a text, also those that no source gives.
-/
namespace MapScript

structure EmitOptions where
  /-- Write the recorded types as comments. -/
  types : Bool
  /-- Take register names as reads of the register file. -/
  asm : Bool
  indentWidth : Nat
  /-- Wrap the program in a function that is called at once. -/
  wrap : Bool
deriving DecidableEq, Repr

instance : Inhabited EmitOptions := ⟨⟨false, false, 4, true⟩⟩

namespace Emit

/-- The type that a comment gives for a declared type. -/
def docType (type : String) : String :=
  match lowerWord type with
  | "integer" => "number"
  | "real" => "number"
  | "boolean" => "boolean"
  | "string" => "string"
  | "code" => "Function"
  | _ => type

/-- The text between braces. -/
def braced (text : String) : String := "\x7b" ++ text ++ "\x7d"

/-- The name after a leading `#`, which asks for a length. -/
def counted? (name : String) : Option String :=
  match name.toList with
  | '#' :: c :: cs => some (String.ofList (c :: cs))
  | _ => none

def propertyText (name : String) : String :=
  match counted? name with
  | some rest => "." ++ rest ++ ".length"
  | none => "." ++ name

variable (o : EmitOptions)

def pad (c : EmitContext) : String :=
  String.ofList (List.replicate (c.indent * o.indentWidth) ' ')

/-- A name: `#x` is a length, and a register is read from the register file. -/
def name (name : String) : Piece :=
  match counted? name with
  | some rest => rest ++ ".length"
  | none =>
    if o.asm && isRegister name then ⟨"__regs." ++ lowerWord name, [.register]⟩ else name

/-- The comment over a declaration with a type. -/
def typeComment (type : Option String) (c : EmitContext) : String :=
  match type with
  | some type => if o.types then pad o c ++ "/** @type " ++ braced (docType type) ++ " */\n" else ""
  | none => ""

def paramComment (c : EmitContext) (p : Param) : String :=
  pad o c ++ " * @param " ++ braced ((p.type.map docType).getD "*") ++ " " ++ p.name ++ "\n"

/-- The comment over a function of which at least one type is known. -/
def functionComment (params : List Param) (returnType : Option String) (c : EmitContext) :
    String :=
  if o.types && (params.any (·.type.isSome) || returnType.isSome) then
    pad o c ++ "/**\n" ++ String.join (params.map (paramComment o c)) ++
      (match returnType with
        | some type => pad o c ++ " * @returns " ++ braced (docType type) ++ "\n"
        | none => "") ++
      pad o c ++ " */\n"
  else ""

/-- A function, or a method when it stands among fields. -/
def function (name : String) (params : List Param) (returnType : Option String) (isAsync : Bool)
    (body : Piece) (c : EmitContext) : Piece :=
  let head := (if isAsync then "async " else "") ++ (if c.inObject then "" else "function ")
  let names := String.intercalate ", " (params.map (·.name))
  functionComment o params returnType c ++ pad o c ++ head ++ name ++ "(" ++ names ++ ") \x7b\n" ++
    body ++ pad o c ++ (if c.inObject then "\x7d,\n" else "\x7d\n")

/-- A declaration; among fields it always has a value. -/
def varDecl (name : String) (type : Option String) (mutable : Bool) (value : Option Piece)
    (c : EmitContext) : Piece :=
  typeComment o type c ++ pad o c ++
    if c.inObject then name ++ ": " ++ value.getD "null" ++ ",\n"
    else
      (if mutable then "let " else "const ") ++ name ++
        (match value with
          | some value => " = " ++ value
          | none => "") ++
        ";\n"

def assign (target : Piece) (op : String) (value : Piece) (c : EmitContext) : Piece :=
  if c.inObject then pad o c ++ target ++ ": " ++ value ++ ",\n"
  else pad o c ++ target ++ " " ++ op ++ " " ++ value ++ ";\n"

/-- A value that can also be a statement. -/
def valueOrStatement (value : Piece) (c : EmitContext) : Piece :=
  if c.atStatementLevel then pad o c ++ value ++ ";\n" else value

/-- `head {`, a body and `}` -/
def bracedBlock (head body : Piece) (c : EmitContext) : Piece :=
  head ++ " \x7b\n" ++ body ++ pad o c ++ "\x7d"

/-- The helper that a call resolves to. After a member operator a name is a method. -/
def calledHelper? (callee : List Node) (before : Option Node) : Option Helper :=
  match callee with
  | [node] => if before.any Node.isMemberOperator then none else node.flatName?.bind Helper.find?
  | _ => none

/-- An instruction is a call of its function; one that does not exist is only recorded. -/
def instruction (op : String) (operands : List Piece) (c : EmitContext) : Piece :=
  match Instruction.find? op with
  | some i =>
    pad o c ++ (⟨i.target, [.instruction i.name, .register]⟩ : Piece) ++ "(" ++
      Piece.joined ", " operands ++ ");\n"
  | none => ⟨"", [.unknownInstruction op]⟩ ++ Piece.joined ", " operands

/-- Whether a blank must not follow a node. -/
def isTight (node : Node) (before : Option Node) (c : EmitContext) : Bool :=
  !c.allowSemicolons && c.separator.isNone && (node.isSign before || node.isMemberOperator)

/-- What is written between a node and what stands before it. -/
def gap (node : Node) (before : Option Node) (tight : Bool) (c : EmitContext) : String :=
  if c.allowSemicolons || tight || node.isTrailing before || node.isMemberAccess then ""
  else c.separatorText

mutual

/-- The text of a node between its neighbours. -/
def node (c : EmitContext) (before after : Option Node) : Node → Piece
  | .globals body => nodes c none true body
  | .varDecl name type mutable isArray [] =>
    varDecl o name type mutable (if isArray then some "[]" else none) c
  | .varDecl name type mutable _ (part :: parts) =>
    varDecl o name type mutable (some (nodes c.inline none true (part :: parts))) c
  | .assign target op value =>
    assign o (nodes c.inline none true target) op (nodes c.inline none true value) c
  | .function name params returnType isAsync body =>
    function o name params returnType isAsync (nodes c.block none true body) c
  | .doBlock isAsync body =>
    let head := (if isAsync then "(async () =>" else "(() =>" : String)
    valueOrStatement o (bracedBlock o head (nodes c.block none true body) c ++ ")()") c
  | .returnStmt [] => pad o c ++ "return;\n"
  | .returnStmt (part :: parts) =>
    pad o c ++ "return " ++ nodes c.inline none true (part :: parts) ++ ";\n"
  | .ifStmt test body otherwise =>
    pad o c ++
      bracedBlock o ("if (" ++ nodes c.inline none true test ++ ")") (nodes c.block none true body)
        c ++
      branch c otherwise ++ "\n"
  | .call callee isAsync args =>
    let target : Piece :=
      match calledHelper? callee before with
      | some helper => ⟨helper.target, [.helper helper.name]⟩
      | none => nodes c.inline none true callee
    let head : String := if isAsync then "await " else ""
    valueOrStatement o (head ++ target ++ "(" ++ nodes c.callArgs none true args ++ ")") c
  | .member object chain => name o object ++ links c.inline chain
  | .property name => propertyText name
  | .index index => "[" ++ nodes c.inline none true index ++ "]"
  | .forStmt i first last body =>
    let head :=
      "for (let " ++ i ++ " = " ++ nodes c.inline none true first ++ "; " ++ i ++ " <= " ++
        nodes c.inline none true last ++ "; " ++ i ++ "++)"
    pad o c ++ bracedBlock o head (nodes c.block none true body) c ++ "\n"
  | .loop none body =>
    pad o c ++ bracedBlock o "while (true)" (nodes c.block none true body) c ++ "\n"
  | .loop (some exit) body =>
    let head := "while (!(" ++ nodes c.inline none true exit ++ "))"
    pad o c ++ bracedBlock o head (nodes c.block none true body) c ++ "\n"
  | .exitWhen condition =>
    pad o c ++ "if (" ++ nodes c.inline none true condition ++ ") \x7b break; \x7d\n"
  | .struct name body =>
    pad o c ++ bracedBlock o ("const " ++ name ++ " =") (nodes c.object none true body) c ++ ";\n"
  | .expect condition =>
    pad o c ++ "if (!(" ++ nodes c.inline none true condition ++ ")) \x7b return; \x7d\n"
  | .exprStmt expr =>
    if c.allowSemicolons then pad o c ++ nodes c.inline none true expr ++ ";\n"
    else nodes c.inline none true expr
  | .expr parts => nodes c.inline none true parts
  | .group body => "(" ++ nodes c.inline none true body ++ ")"
  | .array items => "[" ++ nodes (c.separated ", ") none true items ++ "]"
  | .object [] => "\x7b\x7d"
  | .object (field :: fields) =>
    "\x7b " ++ Piece.joined ", " (fieldList c.inline (field :: fields)) ++ " \x7d"
  | .literal .nil _ => "null"
  | .literal _ value => value
  | .identifier id => name o id
  | .operator symbol => Node.operatorText symbol before after
  | .comment text => pad o c ++ "// " ++ text ++ "\n"
  | .instruction op operands =>
    instruction o op
      (operandList c.inline (((Instruction.find? op).map (·.destinations)).getD 0) operands) c
  | .debug => pad o c ++ "debugger;\n"

/-- The text of neighbours. Nodes that write nothing leave no gap. -/
def nodes (c : EmitContext) (before : Option Node) (tight : Bool) : List Node → Piece
  | [] => ""
  | n :: ns =>
    let piece := node c before ns.head? n
    if piece.isEmpty then piece ++ nodes c (some n) tight ns
    else gap n before tight c ++ piece ++ nodes c (some n) (isTight n before c) ns

/-- Links one after the other, without regard to their neighbours. -/
def links (c : EmitContext) : List Node → Piece
  | [] => ""
  | n :: ns => node c none none n ++ links c ns

/-- The branches after the first one. A condition that is all of a branch goes on the same line. -/
def branch (c : EmitContext) : Option (List Node) → Piece
  | none => ""
  | some [.ifStmt test body otherwise] =>
    " else " ++
      bracedBlock o ("if (" ++ nodes c.inline none true test ++ ")") (nodes c.block none true body)
        c ++
      branch c otherwise
  | some body => bracedBlock o " else" (nodes c.block none true body) c

/-- The fields of an object. -/
def fieldList (c : EmitContext) : List (String × List Node) → List Piece
  | [] => []
  | (key, value) :: fields => (key ++ ": " ++ nodes c none true value) :: fieldList c fields

/-- The operands of an instruction; a register that is written to is passed by name. -/
def operandList (c : EmitContext) (destinations : Nat) : List Node → List Piece
  | [] => []
  | n :: ns =>
    (match n, destinations with
      | .identifier name, _ + 1 => ("\"" ++ lowerWord name ++ "\"" : String)
      | n, _ => node c none none n) :: operandList c (destinations - 1) ns

end

end Emit

end MapScript
