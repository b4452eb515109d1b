/-!
# Lexemes

A source is cut into lexemes from left to right; nothing is left out, so the texts of the lexemes
joined together are the source again. Each class of lexemes has a rule of its own, which looks at
the first character and what follows, and the rules never compete: only one can take a given start.
-/
namespace MapScript

inductive LexemeKind where
  | blank
  | lineEnd
  | lineComment
  | blockComment (closed : Bool)
  | quoted (closed : Bool)
  | number
  | leftParen
  | rightParen
  | leftBrace
  | rightBrace
  | word
  | symbol
  | stray
deriving DecidableEq, Repr, Inhabited

structure Lexeme where
  kind : LexemeKind
  text : List Char
deriving DecidableEq, Repr, Inhabited

namespace Lexeme

def isBlankChar (c : Char) : Bool := c == ' ' || c == '\t' || c == '\r' || c == '\x0c'

def isWordStart (c : Char) : Bool := c.isAlpha || c == '_' || c == '$' || c == '#'

def isWordChar (c : Char) : Bool := isWordStart c || c.isDigit

def isQuote (c : Char) : Bool := c == '"' || c == '\'' || c == '\x60'

/-- The characters that are an operator or a separator by themselves. -/
def singleSymbols : List Char :=
  ['[', ']', ',', '.', '-', '+', '*', '/', '%', '=', '<', '>', '!', '&', '|', '^', '~', ':', '?',
   '@']

/-- The operators of two characters; each wins over its first character. -/
def doubleSymbols : List (Char × Char) :=
  [('=', '='), ('!', '='), ('<', '='), ('>', '='), ('&', '&'), ('|', '|'), ('-', '>'),
   ('+', '='), ('-', '='), ('*', '='), ('/', '='), ('%', '='), ('+', '+'), ('-', '-'),
   ('*', '*'), ('<', '<'), ('>', '>')]

/-- What a rule took after the first character, and what it left. -/
structure Cut where
  kind : LexemeKind
  taken : List Char
  rest : List Char
deriving DecidableEq, Repr

/-- The first character by itself. -/
def Cut.one (kind : LexemeKind) (cs : List Char) : Cut := ⟨kind, [], cs⟩

/-- The first character and the longest run of `p` after it. -/
def Cut.run (kind : LexemeKind) (p : Char → Bool) (cs : List Char) : Cut :=
  ⟨kind, cs.takeWhile p, cs.dropWhile p⟩

def blank? (c : Char) (cs : List Char) : Option Cut :=
  if isBlankChar c then some (.run .blank isBlankChar cs) else none

def lineEnd? (c : Char) (cs : List Char) : Option Cut :=
  if c = '\n' ∨ c = ';' then some (.one .lineEnd cs) else none

def lineComment? (c : Char) (cs : List Char) : Option Cut :=
  match c, cs with
  | '/', '/' :: _ => some (.run .lineComment (· != '\n') cs)
  | _, _ => none

/-- The text up to and with the first `*/`, and what follows it. -/
def throughCommentEnd? : List Char → Option (List Char × List Char)
  | '*' :: '/' :: cs => some (['*', '/'], cs)
  | c :: cs => (throughCommentEnd? cs).map fun (taken, rest) => (c :: taken, rest)
  | [] => none

/-- A comment that is never closed runs to the end of the source. -/
def blockComment? (c : Char) (cs : List Char) : Option Cut :=
  match c, cs with
  | '/', '*' :: body =>
    match throughCommentEnd? body with
    | some (taken, rest) => some ⟨.blockComment true, '*' :: taken, rest⟩
    | none => some ⟨.blockComment false, cs, []⟩
  | _, _ => none

/-- The text up to and with the closing quote, and what follows it. A backslash keeps the
character after it inside. -/
def throughQuote? (quote : Char) : List Char → Option (List Char × List Char)
  | [] => none
  | ['\\'] => none
  | '\\' :: c :: cs => (throughQuote? quote cs).map fun (taken, rest) => ('\\' :: c :: taken, rest)
  | c :: cs =>
    if c = quote then some ([c], cs)
    else (throughQuote? quote cs).map fun (taken, rest) => (c :: taken, rest)

/-- A text that is never closed runs to the end of the source. -/
def quoted? (c : Char) (cs : List Char) : Option Cut :=
  if isQuote c then
    match throughQuote? c cs with
    | some (taken, rest) => some ⟨.quoted true, taken, rest⟩
    | none => some ⟨.quoted false, cs, []⟩
  else none

/-- Digits, then a point with digits after it if there is one. -/
def number? (c : Char) (cs : List Char) : Option Cut :=
  if c.isDigit then
    let whole := Cut.run .number Char.isDigit cs
    match whole.rest with
    | '.' :: d :: rest =>
      if d.isDigit then
        some ⟨.number, whole.taken ++ '.' :: d :: rest.takeWhile Char.isDigit,
          rest.dropWhile Char.isDigit⟩
      else some whole
    | _ => some whole
  else none

def bracket? (c : Char) (cs : List Char) : Option Cut :=
  match c with
  | '(' => some (.one .leftParen cs)
  | ')' => some (.one .rightParen cs)
  | '{' => some (.one .leftBrace cs)
  | '}' => some (.one .rightBrace cs)
  | _ => none

def word? (c : Char) (cs : List Char) : Option Cut :=
  if isWordStart c then some (.run .word isWordChar cs) else none

def symbol? (c : Char) (cs : List Char) : Option Cut :=
  match cs with
  | d :: rest =>
    if (c, d) ∈ doubleSymbols then some ⟨.symbol, [d], rest⟩
    else if c ∈ singleSymbols then some (.one .symbol cs) else none
  | [] => if c ∈ singleSymbols then some (.one .symbol []) else none

/-- The comments stand before the symbols, since a slash begins both. -/
def rules : List (Char → List Char → Option Cut) :=
  [blank?, lineEnd?, lineComment?, blockComment?, quoted?, number?, bracket?, word?, symbol?]

/-- A character that no rule takes is a lexeme by itself. -/
def cut (c : Char) (cs : List Char) : Cut :=
  (rules.findSome? fun rule => rule c cs).getD (.one .stray cs)

/-- The lexemes of a text that is no longer than `bound`. -/
def scanUpTo : Nat → List Char → List Lexeme
  | 0, _ => []
  | _ + 1, [] => []
  | bound + 1, c :: cs =>
    let cut := cut c cs
    ⟨cut.kind, c :: cut.taken⟩ :: scanUpTo bound cut.rest

/-- The lexemes of a source, from left to right. -/
def scan (source : List Char) : List Lexeme :=
  scanUpTo source.length source

end Lexeme

end MapScript
