import MapScript.Diagnostic.Basic
import MapScript.Emit.Program
import MapScript.Parser.Program

/-!
# Compilation

From a source to the text of a script, with all that was found wrong on the way.
-/
namespace MapScript

structure CompileOptions where
  types : Bool
  asm : Bool
  /-- Carry the line comments over to the output. -/
  keepComments : Bool
  wrap : Bool
  retryBudget : Nat
deriving DecidableEq, Repr

instance : Inhabited CompileOptions := ⟨⟨false, false, false, true, defaultRetryBudget⟩⟩

namespace CompileOptions

def parseOptions (o : CompileOptions) : ParseOptions := ⟨o.types, o.asm, o.retryBudget⟩

def emitOptions (o : CompileOptions) : EmitOptions :=
  { (default : EmitOptions) with types := o.types, asm := o.asm, wrap := o.wrap }

end CompileOptions

structure Compilation where
  script : Script
  /-- The warnings on the source and then the errors of the parser, each in order. -/
  diagnostics : List Diagnostic
  /-- The parser gave up, so the script covers only what stands before. -/
  aborted : Bool

def Compilation.hasErrors (c : Compilation) : Bool := c.diagnostics.any (·.isError)

/-- Compiles a source. -/
def compile (o : CompileOptions) (source : String) : Except EmitError Compilation := do
  let lexed := tokenize o.keepComments source
  let parsed := parse o.parseOptions lexed.tokens
  let script ← generate o.emitOptions parsed.tree
  return {
    script
    diagnostics :=
      lexed.reported.map (·.toDiagnostic) ++ parsed.errors.map (·.toDiagnostic)
    aborted := parsed.aborted }

end MapScript
