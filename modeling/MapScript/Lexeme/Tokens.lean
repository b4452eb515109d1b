import MapScript.Lexeme.Basic
import MapScript.Source.LineMap
import MapScript.Token.Basic
import MapScript.Token.Keyword

/-!
# From source text to tokens

Every lexeme gets its span and line; then it becomes a token, or is dropped, and it may leave an
anomaly behind. Anomalies never stop the reading of a source. The list of tokens always ends in
one end of file.
-/
namespace MapScript

inductive AnomalyKind where
  | unexpectedChar (c : Char)
  | unterminatedString
  | unterminatedComment
deriving DecidableEq, Repr

/-- Something in the source that is no part of the language. -/
structure Anomaly where
  kind : AnomalyKind
  span : Span
deriving DecidableEq, Repr

namespace Anomaly

def message (a : Anomaly) : String :=
  match a.kind with
  | .unexpectedChar c => "unexpected character '" ++ String.singleton c ++ "'"
  | .unterminatedString => "unterminated string literal"
  | .unterminatedComment => "unterminated block comment"

def hint (a : Anomaly) : String :=
  match a.kind with
  | .unexpectedChar _ => "the character was skipped"
  | .unterminatedString => "add the closing quote"
  | .unterminatedComment => "close the comment with '*/'"

end Anomaly

/-- A lexeme with its place in the source. -/
structure PlacedLexeme where
  lexeme : Lexeme
  span : Span
  line : UInt32
deriving DecidableEq, Repr

/-- Lays lexemes end to end, the first one at byte `offset` of a source with these lines. -/
def placeLexemes (lines : LineMap) (offset : Nat) : List Lexeme → List PlacedLexeme
  | [] => []
  | lexeme :: lexemes =>
    let stop := offset + byteLength lexeme.text
    ⟨lexeme, ⟨offset, stop⟩, lines.lineWord offset⟩ :: placeLexemes lines stop lexemes

namespace Lexeme

/-- The text of a comment: without the slashes in front and the white space around it. -/
def commentText (text : List Char) : String :=
  String.ofList (trimBlank (text.dropWhile (· == '/')))

/-- The kind and text of the token that a lexeme becomes. White space and block comments are
dropped, line comments too unless they are kept, and so is a `#` with no name after it. -/
def content? (keepComments : Bool) (lexeme : Lexeme) : Option (TokenKind × Option String) :=
  let text := String.ofList lexeme.text
  match lexeme.kind with
  | .blank => none
  | .lineEnd => some (.endOfLine, none)
  | .lineComment =>
    if keepComments then some (.comment, some (commentText lexeme.text)) else none
  | .blockComment _ => none
  | .quoted _ => some (.string, some text)
  | .number => some (.number, some text)
  | .leftParen => some (.leftParen, some text)
  | .rightParen => some (.rightParen, some text)
  | .leftBrace => some (.leftBrace, some text)
  | .rightBrace => some (.rightBrace, some text)
  | .word =>
    if text = "#" then none
    else if isKeyword text then some (.keyword, some (lowerWord text))
    else some (.identifier, some text)
  | .symbol => some (.operator, some text)
  | .stray => none

def anomalyKind? (lexeme : Lexeme) : Option AnomalyKind :=
  match lexeme.kind with
  | .blockComment false => some .unterminatedComment
  | .quoted false => some .unterminatedString
  | .word => if lexeme.text = ['#'] then some (.unexpectedChar '#') else none
  | .stray => lexeme.text.head?.map .unexpectedChar
  | _ => none

end Lexeme

namespace PlacedLexeme

def token? (keepComments : Bool) (p : PlacedLexeme) : Option Token :=
  (p.lexeme.content? keepComments).map fun (kind, text) => ⟨kind, text, some p.line.toNat, p.span⟩

def anomaly? (p : PlacedLexeme) : Option Anomaly :=
  p.lexeme.anomalyKind?.map fun kind => ⟨kind, p.span⟩

end PlacedLexeme

/-- The end of a source, on its last line. -/
def endToken (source : List Char) : Token :=
  let stop := byteLength source
  ⟨.endOfFile, none, some ((LineMap.ofChars source).lineWord stop).toNat, .point stop⟩

/-- The tokens of a source and all that is wrong with it. -/
structure Tokens where
  tokens : List Token
  anomalies : List Anomaly
deriving DecidableEq, Repr

/-- Only this many anomalies are reported. -/
def maxAnomalies : Nat := 50

/-- The anomalies that are reported. -/
def Tokens.reported (t : Tokens) : List Anomaly := t.anomalies.take maxAnomalies

def Tokens.isClean (t : Tokens) : Bool := t.reported.isEmpty

/-- Reads a source; line comments become tokens when they are kept. -/
def tokenize (keepComments : Bool) (source : String) : Tokens :=
  let placed := placeLexemes (.ofSource source) 0 (Lexeme.scan source.toList)
  { tokens := placed.filterMap (·.token? keepComments) ++ [endToken source.toList]
    anomalies := placed.filterMap (·.anomaly?) }

end MapScript
