/-!
# Where a node is written

The layout of a node depends on where it stands: as a statement or inside an expression, in the
arguments of a call, or among the fields of an object.
-/
namespace MapScript

structure EmitContext where
  indent : Nat
  /-- Put a blank between the parts of an expression when there is no other separator. -/
  allowSpaces : Bool
  /-- Nodes are statements, which have an indent and an end of their own. -/
  allowSemicolons : Bool
  /-- What stands between neighbours, as in the arguments of a call. -/
  separator : Option String
  /-- In how many lists of arguments a node stands. -/
  callDepth : Nat
  /-- Declarations are written as fields. -/
  inObject : Bool
deriving DecidableEq, Repr

namespace EmitContext

/-- The statements of a program. -/
def root : EmitContext := ⟨0, true, true, none, 0, false⟩

instance : Inhabited EmitContext := ⟨root⟩

/-- An expression in the same place. -/
def inline (c : EmitContext) : EmitContext :=
  { c with allowSemicolons := false, separator := none }

/-- Statements one level deeper. -/
def block (c : EmitContext) : EmitContext :=
  { c with
    indent := c.indent + 1
    allowSemicolons := true
    separator := none
    callDepth := 0
    inObject := false }

/-- Fields one level deeper. -/
def object (c : EmitContext) : EmitContext := { c.block with inObject := true }

/-- Neighbours with a separator between them. -/
def separated (separator : String) (c : EmitContext) : EmitContext :=
  { c with allowSemicolons := false, separator := some separator }

/-- The arguments of a call. -/
def callArgs (c : EmitContext) : EmitContext :=
  { c.separated ", " with callDepth := c.callDepth + 1 }

/-- A statement outside all arguments. -/
def atStatementLevel (c : EmitContext) : Bool := c.allowSemicolons && c.callDepth == 0

def separatorText (c : EmitContext) : String :=
  match c.separator with
  | some separator => separator
  | none => if c.allowSpaces then " " else ""

end EmitContext

end MapScript
