import MapScript.Source.Span
import MapScript.Text.Word

/-!
# Tokens

A token is a kind, the text it stands for, and where it was found. A list of tokens can also be
given by hand, so nothing here asks that the text fit the kind.
-/
namespace MapScript

inductive TokenKind where
  | endOfLine
  | endOfFile
  | keyword
  | identifier
  | number
  | string
  | operator
  | leftParen
  | rightParen
  | leftBrace
  | rightBrace
  | comment
deriving DecidableEq, Repr, Inhabited

namespace TokenKind

/-- The kind as a message calls it. -/
def displayName : TokenKind → String
  | endOfLine => "end of line"
  | endOfFile => "end of file"
  | keyword => "keyword"
  | identifier => "identifier"
  | number => "number"
  | string => "string"
  | operator => "operator"
  | leftParen => "'('"
  | rightParen => "')'"
  | leftBrace => "'\x7b'"
  | rightBrace => "'\x7d'"
  | comment => "comment"

/-- The tag of the kind in listings and in JSON. -/
def tag : TokenKind → String
  | endOfLine => "Eol"
  | endOfFile => "Eof"
  | keyword => "Keyword"
  | identifier => "Identifier"
  | number => "Number"
  | string => "String"
  | operator => "Operator"
  | leftParen => "LParen"
  | rightParen => "RParen"
  | leftBrace => "LBrace"
  | rightBrace => "RBrace"
  | comment => "Comment"

def all : List TokenKind :=
  [endOfLine, endOfFile, keyword, identifier, number, string, operator, leftParen, rightParen,
   leftBrace, rightBrace, comment]

def ofTag? (tag : String) : Option TokenKind :=
  all.find? (·.tag == tag)

end TokenKind

structure Token where
  kind : TokenKind
  text : Option String
  line : Option Nat
  span : Span
deriving DecidableEq, Repr, Inhabited

namespace Token

/-- An end of file that no source put there. -/
def noMore : Token := ⟨.endOfFile, none, none, .point 0⟩

/-- The text, empty when there is none. -/
def word (t : Token) : String := t.text.getD ""

def isA (t : Token) (kind : TokenKind) (word : String) : Bool :=
  t.kind == kind && sameWord t.word word

def isKeyword (t : Token) (word : String) : Bool := t.isA .keyword word

def isOperator (t : Token) (symbol : String) : Bool := t.isA .operator symbol

def withLine (t : Token) (line : Nat) : Token := { t with line := some line }

/-- The token as a message calls it. -/
def describe (t : Token) : String :=
  match t.kind with
  | .keyword => "keyword '" ++ t.word ++ "'"
  | .identifier => "name '" ++ t.word ++ "'"
  | .number => "number " ++ t.word
  | .string => "string literal"
  | .operator => "'" ++ t.word ++ "'"
  | kind => kind.displayName

end Token

end MapScript
