import MapScript.Builtin.Helper
import MapScript.Text.Word

/-!
# The register machine

Registers are the fields of one object of the output and the stack is an array beside it. An
instruction is a private function that takes its destination register by name.
-/
namespace MapScript

def registers : List String := ["ax", "bx", "cx", "dx"]

def isRegister (name : String) : Bool := registers.any (sameWord · name)

/-- The declarations of the registers and the stack. -/
def registerPrelude : String :=
  "const __regs = \x7b " ++ String.intercalate ", " (registers.map (· ++ ": 0")) ++
    " \x7d;\nconst __stack = [];"

structure Instruction where
  name : String
  /-- How many operands, counted from the first, name a destination register. -/
  destinations : Nat
  params : String
  action : String
deriving DecidableEq, Repr, Inhabited

namespace Instruction

/-- The name that the output calls. -/
def target (i : Instruction) : String := privateName i.name

def definition (i : Instruction) : String := functionText i.name i.params i.action

/-- All instructions, in the order in which they are defined. -/
def all : List Instruction :=
  [⟨"mov", 1, "r, v", "__regs[r] = v;"⟩,
   ⟨"add", 1, "r, v", "__regs[r] += v;"⟩,
   ⟨"sub", 1, "r, v", "__regs[r] -= v;"⟩,
   ⟨"mul", 1, "r, v", "__regs[r] *= v;"⟩,
   ⟨"div", 1, "r, v", "__regs[r] = Math.trunc(__regs[r] / v);"⟩,
   ⟨"inc", 1, "r", "__regs[r] += 1;"⟩,
   ⟨"dec", 1, "r", "__regs[r] -= 1;"⟩,
   ⟨"push", 0, "v", "__stack.push(v);"⟩,
   ⟨"pop", 1, "r", "__regs[r] = __stack.pop();"⟩,
   ⟨"out", 0, "v", "console.log(v);"⟩]

/-- The instruction of a name in any letter case. -/
def find? (name : String) : Option Instruction := all.find? (sameWord ·.name name)

end Instruction

end MapScript
