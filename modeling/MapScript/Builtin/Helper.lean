/-!
# Helper functions

A program may call a helper by its name or by one of its aliases. The output then calls a private
function instead, and only the helpers that a program calls are defined in its output.
-/
namespace MapScript

/-- The name under which the output defines a helper or an instruction. -/
def privateName (name : String) : String := "__" ++ name

/-- A function of the output, on one line. -/
def functionText (name params action : String) : String :=
  "function " ++ privateName name ++ "(" ++ params ++ ") \x7b " ++ action ++ " \x7d"

structure Helper where
  name : String
  /-- Other names that a program may use. -/
  aliases : List String
  params : String
  action : String
deriving DecidableEq, Repr, Inhabited

namespace Helper

/-- The name that the output calls. -/
def target (h : Helper) : String := privateName h.name

def definition (h : Helper) : String := functionText h.name h.params h.action

def answersTo (h : Helper) (name : String) : Bool :=
  h.name == name || h.aliases.contains name

/-- All helpers, in the order in which they are defined: strings and conversion, arithmetic,
arrays, then output and timing. -/
def all : List Helper :=
  [⟨"len", ["StringLength"], "v", "return v == null ? 0 : v.length;"⟩,
   ⟨"str", ["I2S", "R2S"], "v", "return String(v);"⟩,
   ⟨"num", ["S2R", "I2R"], "v", "const n = Number(v); return Number.isNaN(n) ? 0 : n;"⟩,
   ⟨"int", ["S2I", "R2I"], "v", "const n = parseInt(v, 10); return Number.isNaN(n) ? 0 : n;"⟩,
   ⟨"upper", [], "s", "return String(s).toUpperCase();"⟩,
   ⟨"lower", [], "s", "return String(s).toLowerCase();"⟩,
   ⟨"substr", ["SubString"], "s, start, end", "return String(s).substring(start, end);"⟩,
   ⟨"split", [], "s, sep", "return String(s).split(sep);"⟩,
   ⟨"join", [], "xs, sep", "return xs.join(sep === undefined ? \",\" : sep);"⟩,
   ⟨"floor", [], "x", "return Math.floor(x);"⟩,
   ⟨"ceil", [], "x", "return Math.ceil(x);"⟩,
   ⟨"round", [], "x", "return Math.round(x);"⟩,
   ⟨"abs", ["RAbsBJ", "IAbsBJ"], "x", "return Math.abs(x);"⟩,
   ⟨"min", ["RMinBJ", "IMinBJ"], "a, b", "return Math.min(a, b);"⟩,
   ⟨"max", ["RMaxBJ", "IMaxBJ"], "a, b", "return Math.max(a, b);"⟩,
   ⟨"sqrt", ["SquareRoot"], "x", "return Math.sqrt(x);"⟩,
   ⟨"pow", ["Pow"], "x, y", "return Math.pow(x, y);"⟩,
   ⟨"random", ["GetRandomInt"], "lo, hi",
     "return Math.floor(Math.random() * (hi - lo + 1)) + lo;"⟩,
   ⟨"append", [], "xs, v", "xs.push(v); return xs.length;"⟩,
   ⟨"remove", [], "xs, i", "return xs.splice(i, 1)[0];"⟩,
   ⟨"print", ["BJDebugMsg", "DisplayTextToPlayer"], "...args", "console.log(...args);"⟩,
   ⟨"sleep", ["TriggerSleepAction", "PolledWait"], "seconds",
     "return new Promise((resolve) => setTimeout(resolve, seconds * 1000));"⟩]

/-- The helper that a name calls. Letter case matters. -/
def find? (name : String) : Option Helper := all.find? (·.answersTo name)

end Helper

end MapScript
