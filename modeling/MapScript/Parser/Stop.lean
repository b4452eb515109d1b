import MapScript.Token.Basic

/-!
# Where a sequence of nodes stops

A stop is a kind of token, or only the tokens of that kind with a given text.
-/
namespace MapScript

structure Stop where
  kind : TokenKind
  word : Option String
deriving DecidableEq, Repr, Inhabited

namespace Stop

def keyword (word : String) : Stop := ⟨.keyword, some word⟩

def operator (symbol : String) : Stop := ⟨.operator, some symbol⟩

def endOfFile : Stop := ⟨.endOfFile, none⟩

/-- Letter case does not matter. -/
def accepts (stop : Stop) (t : Token) : Bool :=
  t.kind == stop.kind && stop.word.all (sameWord t.word ·)

def describe (stop : Stop) : String :=
  match stop.word with
  | some word => "'" ++ word ++ "'"
  | none => stop.kind.displayName

def comma : Stop := operator ","

def rightBracket : Stop := operator "]"

/-- Every block can be closed by `end`. -/
def plainEnd : Stop := keyword "end"

def globalsEnd : List Stop := [plainEnd, keyword "endglobals"]

def functionEnd : List Stop := [plainEnd, keyword "endfunction"]

def doEnd : List Stop := [plainEnd]

def otherwise : Stop := keyword "else"

def otherwiseIf : Stop := keyword "elseif"

def branchEnd : List Stop := [otherwise, otherwiseIf, plainEnd, keyword "endif"]

def ifEnd : List Stop := [plainEnd, keyword "endif"]

def loopEnd : List Stop := [plainEnd, keyword "endloop"]

def forEnd : List Stop := [plainEnd, keyword "endfor"]

def structEnd : List Stop := [plainEnd, keyword "endstruct"]

end Stop

end MapScript
