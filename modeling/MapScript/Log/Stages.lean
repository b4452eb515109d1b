import MapScript.Compile
import MapScript.Log.Basic
import MapScript.Text.Quoted

/-!
# What the stages of a compilation log
-/
namespace MapScript

def flagText (value : Bool) : String := if value then "true" else "false"

/-- Names in a log field. -/
def namesText (names : List String) : String :=
  "[" ++ String.intercalate ", " (names.map quotedText) ++ "]"

/-- The events of reading a source: each anomaly, also those that are not reported, and the end. -/
def Tokens.logEvents (source : String) (t : Tokens) : List LogEvent :=
  let span : LogSpan := ⟨.debug, "tokenize", [("len", toString source.utf8ByteSize)]⟩
  t.anomalies.map (fun a =>
    ⟨[span], .debug, "lexical anomaly",
      [("error", a.message), ("start", toString a.span.start)]⟩) ++
  [⟨[span], .debug, "lexed source",
    [("tokens", toString t.tokens.length), ("errors", toString t.reported.length)]⟩]

def ParseEvent.logEvent (spans : List LogSpan) : ParseEvent → LogEvent
  | statement word => ⟨spans, .trace, "statement", [("keyword", word)]⟩
  | skipping found budget =>
    ⟨spans, .debug, "skipping unexpected token",
      [("token", found.describe), ("budget", toString budget)]⟩
  | exhausted errors =>
    ⟨spans, .warn, "retry budget exhausted, returning partial tree",
      [("errors", toString errors)]⟩
  | finished errors aborted =>
    ⟨spans, .debug, "parse finished with errors",
      [("errors", toString errors), ("aborted", flagText aborted)]⟩

/-- A program with all that its parser did. -/
structure TracedParse where
  result : ParseResult
  events : List LogEvent

/-- Reads tokens as a program and keeps what there is to log. -/
def tracedParse (options : ParseOptions) (tokens : List Token) : TracedParse :=
  let start := (ParserState.ofOptions options).reset tokens
  let (result, done) := start.readProgram
  let span : LogSpan := ⟨.debug, "parse", [("tokens", toString start.rest.length)]⟩
  ⟨result, done.trail.reverse.map (·.logEvent [span])⟩

def Script.logEvents (tree : Tree) (s : Script) : List LogEvent :=
  let span : LogSpan :=
    ⟨.debug, "generate",
      [("nodes", toString tree.body.length), ("is_async", flagText tree.isAsync)]⟩
  [⟨[span], .debug, "selected prologue",
    [("helpers", namesText s.helpers), ("mnemonics", namesText s.instructions)]⟩]

/-- The events of a compilation. -/
def compileEvents (o : CompileOptions) (source : String) (c : Compilation) : List LogEvent :=
  let lexed := tokenize o.keepComments source
  let parsed := tracedParse o.parseOptions lexed.tokens
  let span : LogSpan := ⟨.info, "compile", [("len", toString source.utf8ByteSize)]⟩
  let aborted : List LogEvent :=
    if c.aborted then [⟨[], .warn, "parse aborted, generating partial output", []⟩] else []
  let finished : LogEvent :=
    ⟨[], .info, "compiled",
      [("bytes", toString c.script.code.utf8ByteSize),
       ("helpers", toString c.script.helpers.length),
       ("diagnostics", toString c.diagnostics.length)]⟩
  (lexed.logEvents source ++ parsed.events ++ aborted ++ c.script.logEvents parsed.result.tree ++
    [finished]).map (·.within span)

end MapScript
