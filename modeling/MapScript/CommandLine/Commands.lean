import MapScript.CommandLine.Arguments
import MapScript.CommandLine.Job
import MapScript.Diagnostic.Excerpt
import MapScript.Diagnostic.Report
import MapScript.Log.Stages
import MapScript.Token.Json
import MapScript.Tree.Outline

/-!
# Commands

Each command reads a source, prints what it found wrong to the error output, and what it was asked
for to the output or to a file.
-/
namespace MapScript

/-- How a command prints. -/
structure Console where
  color : Bool
  format : DiagnosticFormat
  /-- The time that log lines carry; without one there are none. -/
  time : Option String
  threshold : LogLevel
deriving DecidableEq, Repr

namespace Console

variable (console : Console)

def log (events : List LogEvent) : String :=
  match console.time with
  | none => ""
  | some time => String.join (events.filterMap (·.line? console.threshold time))

/-- Text that is printed only when people read it. -/
def forPeople (text : String) : String :=
  match console.format with
  | .human => text
  | .json => ""

/-- All diagnostics on a file. -/
def diagnostics (ds : List Diagnostic) (source file phase : String) : String :=
  match console.format with
  | .human =>
    let map := LineMap.ofSource source
    String.join (ds.map fun d => d.excerpt console.color map (some file) ++ "\n")
  | .json => (Diagnostic.report ds source file phase).pretty ++ "\n"

def failure (action path : String) (fault : FileFault) : String :=
  styled console.color [.bold, .red] "error" ++ ": " ++ action ++ " " ++ path ++ ": " ++
    fault.message ++ "\n"

def rule : String := styled console.color [.dimmed] "==="

def okBanner (what : String) : String :=
  console.rule ++ " " ++ styled console.color [.bold, .green] (what ++ " OK") ++ " " ++
    console.rule ++ "\n"

/-- A number with its noun. -/
def plural (n : Nat) (noun : String) : String :=
  toString n ++ " " ++ noun ++ if n = 1 then "" else "s"

def failBanner (what : String) (errors : Nat) : String :=
  let text := what ++ " FAILED: " ++ plural errors "error"
  console.rule ++ " " ++ styled console.color [.bold, .red] text ++ " " ++ console.rule ++ "\n"

/-- `Compiled map.j -> out.js (1 error, 2 warnings)` -/
def compiledLine (input output : String) (errors warnings : Nat) : String :=
  let found :=
    (if errors = 0 then [] else [styled console.color [.red] (plural errors "error")]) ++
    (if warnings = 0 then [] else [styled console.color [.yellow] (plural warnings "warning")])
  styled console.color [.bold, .green] "Compiled" ++ " " ++ input ++ " -> " ++
    styled console.color [.underline] output ++
    (if found.isEmpty then "" else " (" ++ String.intercalate ", " found ++ ")") ++ "\n"

/-- Reads a source and goes on with it, or says why it cannot be read. -/
def withSource (path : String) (next : String → Job) : Job :=
  .read path fun
    | .error fault => .finish ⟨1, "", console.failure "reading" path fault⟩
    | .ok source => next source

def optionsText (o : CompileOptions) : String :=
  "CompileOptions \x7b types_enabled: " ++ flagText o.types ++ ", asm_enabled: " ++
    flagText o.asm ++ ", keep_comments: " ++ flagText o.keepComments ++ ", wrap_in_closure: " ++
    flagText o.wrap ++ ", retry_budget: " ++ toString o.retryBudget ++ " \x7d"

/-- A script is written unless the parser gave up. -/
def build (file output : String) (o : CompileOptions) : Job :=
  console.withSource file fun source =>
    let begun := console.log [⟨[], .debug, "building", [("options", optionsText o)]⟩]
    match compile o source with
    | .error e => .finish ⟨1, "", begun ++ e.message ++ "\n"⟩
    | .ok c =>
      let shown :=
        begun ++ console.log (compileEvents o source c) ++
          console.diagnostics c.diagnostics source file "generate"
      let errors := Diagnostic.errorCount c.diagnostics
      if c.aborted then
        .finish ⟨1, "", shown ++
          console.log [⟨[], .warn, "parse aborted, nothing written", [("file", file)]⟩] ++
          console.forPeople (console.failBanner "Build" errors)⟩
      else
        .write output c.script.code fun
          | some fault => .finish ⟨1, "", shown ++ console.failure "writing" output fault⟩
          | none =>
            .finish ⟨0, "", shown ++ console.forPeople
              (console.compiledLine file output errors (Diagnostic.warningCount c.diagnostics))⟩

/-- A text with blanks before it up to a width. -/
def padLeft (width : Nat) (text : String) : String := blanks (width - text.length) ++ text

/-- A text with blanks after it up to a width. -/
def padRight (width : Nat) (text : String) : String := text ++ blanks (width - text.length)

def tokenLine (t : Token) : String :=
  padLeft 4 (toString t.span.start) ++ ":" ++ padRight 4 (toString t.span.stop) ++ " " ++
    padRight 10 t.kind.tag ++ " " ++ t.word ++ "\n"

/-- The tokens of a source, without the line ends. -/
def tokenListing (tokens : List Token) : String :=
  let count := toString tokens.length
  console.rule ++ " Tokens (" ++ count ++ ") " ++ console.rule ++ "\n\n" ++
    String.join ((tokens.filter (·.kind != .endOfLine)).map tokenLine) ++ "\n" ++
    console.okBanner ("Lex: " ++ count ++ " tokens")

/-- Diagnostics, if there are any. -/
def foundDiagnostics (ds : List Diagnostic) (source file phase : String) : String :=
  if ds.isEmpty then "" else console.diagnostics ds source file phase

def lex (file : String) (keepComments : Bool) : Job :=
  console.withSource file fun source =>
    let lexed := tokenize keepComments source
    let output :=
      match console.format with
      | .json => (Json.ofList Token.toJson lexed.tokens).pretty ++ "\n"
      | .human => console.tokenListing lexed.tokens
    .finish ⟨0, output, console.log (lexed.logEvents source) ++
      console.foundDiagnostics (lexed.reported.map (·.toDiagnostic)) source file "lex"⟩

def parse (file : String) (json types asm : Bool) : Job :=
  console.withSource file fun source =>
    let lexed := tokenize false source
    let parsed := tracedParse ⟨types, asm, defaultRetryBudget⟩ lexed.tokens
    let result := parsed.result
    let ds := lexed.reported.map (·.toDiagnostic) ++ result.errors.map (·.toDiagnostic)
    let shown :=
      console.log (lexed.logEvents source ++ parsed.events) ++
        console.foundDiagnostics ds source file "parse"
    let output := (if json then result.tree.toJson.pretty else result.tree.outline.render) ++ "\n"
    if result.aborted then
      .finish ⟨1, output,
        shown ++ console.forPeople (console.failBanner "Parse" result.errors.length)⟩
    else .finish ⟨0, output, shown⟩

def run : Command → Job
  | .build file output options => console.build file output options
  | .lex file keepComments => console.lex file keepComments
  | .parse file json types asm => console.parse file json types asm

end Console

/-- What the program is told by its surroundings. -/
structure Surroundings where
  color : Bool
  /-- The time for log lines; without one nothing is logged. -/
  time : Option String
deriving DecidableEq, Repr

def LogLevel.ofVerbosity : Nat → LogLevel
  | 0 => .warn
  | 1 => .debug
  | _ => .trace

def versionText : String := "jassc 0.1.0\n"

def helpText : String :=
  "Usage: jassc [OPTIONS] <COMMAND>\n\n" ++
  "Commands:\n" ++
  "  build  Compile a script to JavaScript\n" ++
  "  lex    Print the token stream\n" ++
  "  parse  Parse a script and print its tree\n" ++
  "  help   Print this message or the help of the given subcommand(s)\n\n" ++
  "Options:\n" ++
  "  -v, --verbose...       Log compiler stages (-v for debug, -vv for trace)\n" ++
  "      --format <FORMAT>  How diagnostics are printed [default: human] " ++
  "[possible values: human, json]\n" ++
  "  -h, --help             Print help\n" ++
  "  -V, --version          Print version\n"

/-- What the program does when it is given some arguments. -/
def program (around : Surroundings) (args : List String) : Job :=
  match readArguments args with
  | .error .help => .finish ⟨0, helpText, ""⟩
  | .error .version => .finish ⟨0, versionText, ""⟩
  | .error .usage => .finish ⟨2, "", helpText⟩
  | .ok invocation =>
    let console : Console :=
      ⟨around.color, invocation.format, around.time, .ofVerbosity invocation.verbosity⟩
    console.run invocation.command

end MapScript
