import MapScript.Parser.Stop

/-!
# What can be wrong with a list of tokens

An error holds its cause: the token that was found and what should have stood there. Its place,
its message and the advice that goes with it are read off the cause.
-/
namespace MapScript

/-- Something that had to come next. -/
inductive Expectation where
  | name
  | fieldName
  | expression
  | typeName
  | thenWord
  | toWord
  | equals
  | colon
  | rightParen
  | rightBracket
deriving DecidableEq, Repr, Inhabited

namespace Expectation

def describe : Expectation → String
  | name => "a name"
  | fieldName => "a field name"
  | expression => "an expression"
  | typeName => "a type"
  | thenWord => "'then'"
  | toWord => "'to'"
  | equals => "'='"
  | colon => "':'"
  | rightParen => "')'"
  | rightBracket => "']'"

/-- Advice on a missing part, which may depend on what stands in its place. -/
def hint? (wanted : Expectation) (found : TokenKind) : Option String :=
  match wanted, found with
  | thenWord, .endOfLine => some "conditions end with 'then' on the same line"
  | thenWord, _ => some "syntax: if <condition> then"
  | toWord, _ => some "syntax: for i 0 to 10"
  | equals, _ => some "syntax: set <name> = <value>"
  | rightParen, .endOfLine => some "add ')' to close the parenthesis"
  | rightParen, .endOfFile => some "add ')' to close the parenthesis"
  | rightBracket, _ => some "add ']' to close the index"
  | name, .number => some "names can't start with a number"
  | name, .keyword => some "keywords can't be used as names"
  | name, _ => some "names start with a letter, '_', '$' or '#'"
  | fieldName, _ => some "object fields look like name: value"
  | _, _ => none

end Expectation

/-- Advice on a keyword that no rule takes. -/
def strayKeywordHint? (word : String) : Option String :=
  if word ∈ ["end", "endif", "endloop", "endfunction", "endglobals", "endstruct", "endfor"] then
    some "this closes a block that was never opened"
  else if word ∈ ["else", "elseif"] then some "'else' must follow an 'if' block"
  else if word = "then" then some "'then' must follow an 'if' condition"
  else if word = "to" then some "'to' belongs to a 'for' header"
  else if word ∈ ["takes", "returns"] then
    some "'takes' and 'returns' belong to a function header"
  else none

/-- Advice on a token that no rule takes. -/
def strayHint? (t : Token) : Option String :=
  match t.kind with
  | .keyword => strayKeywordHint? t.word
  | .rightParen => some "unbalanced ')'"
  | .rightBrace => some "unbalanced '\x7d'"
  | _ => none

inductive ParseError where
  /-- No rule takes the token, which was skipped. -/
  | unexpectedToken (found : Token)
  /-- The tokens end inside a block; the innermost one was opened at `opener`. -/
  | unexpectedEnd (found : Token) (closer : Option Stop) (opener : Option Span)
  | expected (wanted : Expectation) (found : Token)
  /-- Too many tokens were skipped; `last` was one too many. -/
  | budgetExhausted (last : Token)
deriving DecidableEq, Repr, Inhabited

namespace ParseError

def token : ParseError → Token
  | unexpectedToken found => found
  | unexpectedEnd found _ _ => found
  | expected _ found => found
  | budgetExhausted last => last

def span (e : ParseError) : Span := e.token.span

/-- Where the block was opened that the error leaves open. -/
def opener? : ParseError → Option Span
  | unexpectedEnd _ _ opener => opener
  | _ => none

def message : ParseError → String
  | unexpectedToken found => "unexpected " ++ found.describe
  | unexpectedEnd _ closer _ =>
    "unexpected end of input, expected " ++ (closer.map Stop.describe).getD "more input"
  | expected wanted found => "expected " ++ wanted.describe ++ ", found " ++ found.describe
  | budgetExhausted _ => "too many unrecognized tokens, parsing stopped"

def hint? : ParseError → Option String
  | unexpectedToken found => strayHint? found
  | unexpectedEnd _ _ _ => none
  | expected wanted found => wanted.hint? found.kind
  | budgetExhausted _ => some "fix the errors above and parse again"

end ParseError

end MapScript
