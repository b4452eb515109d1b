import MapScript.Lexeme.Tokens
import MapScript.Parser.Error

/-!
# Diagnostics

A diagnostic is a message with the spans it is about. Anomalies of the source are warnings, since
they never stop a compilation; the errors of the parser are errors.
-/
namespace MapScript

inductive Severity where
  | error
  | warning
deriving DecidableEq, Repr, Inhabited

def Severity.name : Severity → String
  | error => "error"
  | warning => "warning"

inductive LabelStyle where
  | primary
  | secondary
deriving DecidableEq, Repr, Inhabited

def LabelStyle.name : LabelStyle → String
  | primary => "primary"
  | secondary => "secondary"

/-- A span with a remark on it. -/
structure Label where
  span : Span
  style : LabelStyle
  message : Option String
deriving DecidableEq, Repr, Inhabited

structure Diagnostic where
  severity : Severity
  code : Option String
  message : String
  labels : List Label
  notes : List String
  help : Option String
deriving DecidableEq, Repr, Inhabited

namespace Diagnostic

def isError (d : Diagnostic) : Bool := d.severity == .error

/-- The span that the diagnostic is about: the first primary one, or else the first. -/
def primarySpan? (d : Diagnostic) : Option Span :=
  ((d.labels.find? (·.style == .primary)).or d.labels.head?).map (·.span)

def errorCount (ds : List Diagnostic) : Nat := ds.countP (·.isError)

def warningCount (ds : List Diagnostic) : Nat := ds.countP (!·.isError)

end Diagnostic

inductive CodeCategory where
  | lexical
  | syntactic
deriving DecidableEq, Repr, Inhabited

def CodeCategory.name : CodeCategory → String
  | lexical => "Lexical"
  | syntactic => "Syntax"

structure DiagnosticCode where
  code : String
  title : String
  category : CodeCategory
deriving DecidableEq, Repr, Inhabited

namespace DiagnosticCode

def all : List DiagnosticCode :=
  [⟨"E0001", "unexpected character", .lexical⟩,
   ⟨"E0002", "unterminated string literal", .lexical⟩,
   ⟨"E0003", "unterminated block comment", .lexical⟩,
   ⟨"E0100", "unexpected token", .syntactic⟩,
   ⟨"E0101", "unexpected end of input", .syntactic⟩,
   ⟨"E0102", "missing expected token", .syntactic⟩,
   ⟨"E0103", "retry budget exhausted", .syntactic⟩]

def find? (code : String) : Option DiagnosticCode := all.find? (·.code == code)

end DiagnosticCode

namespace Anomaly

def code (a : Anomaly) : String :=
  match a.kind with
  | .unexpectedChar _ => "E0001"
  | .unterminatedString => "E0002"
  | .unterminatedComment => "E0003"

def remark (a : Anomaly) : String :=
  match a.kind with
  | .unexpectedChar _ => "not part of the language"
  | .unterminatedString => "string starts here"
  | .unterminatedComment => "comment starts here"

def toDiagnostic (a : Anomaly) : Diagnostic where
  severity := .warning
  code := some a.code
  message := a.message
  labels := [⟨a.span, .primary, some a.remark⟩]
  notes := []
  help := some a.hint

end Anomaly

namespace ParseError

def code : ParseError → String
  | unexpectedToken _ => "E0100"
  | unexpectedEnd _ _ _ => "E0101"
  | expected _ _ => "E0102"
  | budgetExhausted _ => "E0103"

def remark : ParseError → String
  | unexpectedToken _ => "skipped"
  | unexpectedEnd _ _ _ => "input ends here"
  | expected _ _ => "here"
  | budgetExhausted _ => "parsing stopped here"

def notes : ParseError → List String
  | budgetExhausted _ => ["the output only covers the part of the file before this point"]
  | _ => []

def toDiagnostic (e : ParseError) : Diagnostic where
  severity := .error
  code := some e.code
  message := e.message
  labels :=
    ⟨e.span, .primary, some e.remark⟩ ::
      (e.opener?.map fun span => ⟨span, .secondary, some "block opened here"⟩).toList
  notes := e.notes
  help := e.hint?

end ParseError

end MapScript
