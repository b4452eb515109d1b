import MapScript.Emit.Node

/-!
# Programs as script text

The output begins with the definitions that the program relies on, and only those, in the order of
their tables. An instruction that is in no table cannot be written.
-/
namespace MapScript

/-- Why a tree has no output. -/
inductive EmitError where
  | unknownInstruction (op : String)
deriving DecidableEq, Repr

def EmitError.message : EmitError → String
  | unknownInstruction op => "unknown mnemonic `" ++ op ++ "` in tree"

structure Script where
  code : String
  /-- The helpers that the output defines, in order. -/
  helpers : List String
  /-- The instructions that the output defines, in order. -/
  instructions : List String
deriving DecidableEq, Repr

namespace Emit

/-- The first instruction that does not exist. -/
def unknown? (uses : List Use) : Option String :=
  uses.findSome? fun
    | .unknownInstruction op => some op
    | _ => none

def usedHelpers (uses : List Use) : List Helper :=
  Helper.all.filter fun h => .helper h.name ∈ uses

def usedInstructions (uses : List Use) : List Instruction :=
  Instruction.all.filter fun i => .instruction i.name ∈ uses

/-- The definitions before the program: the register file if anything needs it, then the
instructions and the helpers. -/
def prologue (uses : List Use) : String :=
  let registers :=
    if .register ∈ uses ∨ usedInstructions uses ≠ [] then registerPrelude ++ "\n" else ""
  registers ++ String.join ((usedInstructions uses).map (·.definition ++ "\n")) ++
    String.join ((usedHelpers uses).map (·.definition ++ "\n"))

/-- A function around the program that is called at once. -/
def wrapped (isAsync : Bool) (code : String) : String :=
  (if isAsync then "(async () => \x7b\n" else "(() => \x7b\n") ++ code ++ "\x7d)();\n"

end Emit

/-- The output of a tree. -/
def generate (o : EmitOptions) (tree : Tree) : Except EmitError Script :=
  let body := Emit.nodes o .root none true tree.body
  match Emit.unknown? body.uses with
  | some op => .error (.unknownInstruction op)
  | none =>
    let code := Emit.prologue body.uses ++ body.text
    .ok {
      code := if o.wrap then Emit.wrapped tree.isAsync code else code
      helpers := (Emit.usedHelpers body.uses).map (·.name)
      instructions := (Emit.usedInstructions body.uses).map (·.name) }

end MapScript
