import MapScript.Text.Word

/-!
# Keywords
-/
namespace MapScript

/-- The words that are never names: blocks, declarations, statements, then the operators and
constants that are spelt as words. -/
def keywords : List String :=
  ["globals", "endglobals", "function", "endfunction", "takes", "returns", "nothing", "do", "end",
   "local", "const", "constant", "array",
   "set", "return", "if", "then", "else", "elseif", "endif", "call", "await", "loop", "exitwhen",
   "endloop", "for", "to", "endfor", "struct", "endstruct", "debug", "expect",
   "is", "not", "and", "or", "nil", "null", "true", "false"]

def isKeyword (word : String) : Bool :=
  keywords.any (sameWord · word)

end MapScript
