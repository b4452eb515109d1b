import MapScript.Compile

/-!
# Command line arguments

The program has some options and a subcommand with options of its own. Two options can be given in
either place, and then the place after the subcommand counts. Arguments are read from left to
right, and the first one that is wrong, or that asks for help or the version, settles the matter.
-/
namespace MapScript

/-- How diagnostics are printed. -/
inductive DiagnosticFormat where
  | human
  | json
deriving DecidableEq, Repr, Inhabited

def DiagnosticFormat.ofName? : String → Option DiagnosticFormat
  | "human" => some .human
  | "json" => some .json
  | _ => none

inductive Command where
  | build (file output : String) (options : CompileOptions)
  | lex (file : String) (keepComments : Bool)
  | parse (file : String) (json types asm : Bool)
deriving DecidableEq, Repr

structure Invocation where
  command : Command
  /-- How often the program was asked to say more. -/
  verbosity : Nat
  format : DiagnosticFormat
deriving DecidableEq, Repr

/-- Why there is nothing to run. -/
inductive Halt where
  | help
  | version
  | usage
deriving DecidableEq, Repr

/-- What an option takes. -/
inductive OptionKind where
  | halt (reason : Halt)
  /-- Given at most once. -/
  | flag
  /-- Given any number of times. -/
  | count
  /-- Given at most once, with a value that passes the test. -/
  | value (test : String → Bool)

structure OptionSpec where
  long : String
  short : Option Char
  kind : OptionKind

/-- The options and words read so far. -/
structure Taken where
  /-- Each option by its long name, with its value if it has one. -/
  options : List (String × String)
  words : List String
deriving DecidableEq, Repr

namespace Taken

def nothing : Taken := ⟨[], []⟩

def count (t : Taken) (name : String) : Nat := t.options.countP (·.1 == name)

def has (t : Taken) (name : String) : Bool := t.options.any (·.1 == name)

def value? (t : Taken) (name : String) : Option String := t.options.lookup name

def add (t : Taken) (name value : String) : Taken :=
  { t with options := t.options ++ [(name, value)] }

def addOnce (t : Taken) (name value : String) : Except Halt Taken :=
  if t.has name then .error .usage else .ok (t.add name value)

/-- Takes an option that was given without a value. -/
def addBare (t : Taken) (spec : OptionSpec) : Except Halt Taken :=
  match spec.kind with
  | .halt reason => .error reason
  | .flag => t.addOnce spec.long ""
  | .count => .ok (t.add spec.long "")
  | .value _ => .error .usage

/-- Takes an option that was given with a value. -/
def addValue (t : Taken) (spec : OptionSpec) (value : String) : Except Halt Taken :=
  match spec.kind with
  | .value test => if test value then t.addOnce spec.long value else .error .usage
  | _ => .error .usage

end Taken

/-- An argument by its form. -/
inductive Argument where
  | endOfOptions
  | long (name : String) (value : Option String)
  | short (letters : List Char)
  | word (text : String)
deriving DecidableEq, Repr

def Argument.ofString (text : String) : Argument :=
  match text.toList with
  | ['-', '-'] => .endOfOptions
  | '-' :: '-' :: rest =>
    match rest.dropWhile (· != '=') with
    | [] => .long (String.ofList rest) none
    | _ :: value =>
      .long (String.ofList (rest.takeWhile (· != '='))) (some (String.ofList value))
  | '-' :: c :: cs => .short (c :: cs)
  | _ => .word text

/-- Whether an argument is neither an option nor the end of them. -/
def Argument.isWord (text : String) : Bool :=
  match ofString text with
  | .word _ => true
  | _ => false

/-- Options taken from an argument; an option may still lack its value. -/
abbrev Pending := Taken × Option OptionSpec

namespace OptionSpec

def takesValue (spec : OptionSpec) : Bool :=
  match spec.kind with
  | .value _ => true
  | _ => false

/-- Takes one option, with what is attached to it. -/
def take (spec : OptionSpec) (attached : Option String) (t : Taken) : Except Halt Pending :=
  match attached with
  | some value => return (← t.addValue spec value, none)
  | none => if spec.takesValue then .ok (t, some spec) else return (← t.addBare spec, none)

end OptionSpec

/-- Takes the options of a run of letters. The first one that takes a value takes the rest, after a
`=` if there is one. -/
def takeLetters (specs : List OptionSpec) : List Char → Taken → Except Halt Pending
  | [], t => .ok (t, none)
  | c :: cs, t =>
    match specs.find? (·.short == some c) with
    | none => .error .usage
    | some spec =>
      if spec.takesValue then
        match cs with
        | [] => .ok (t, some spec)
        | '=' :: value => spec.take (some (String.ofList value)) t
        | value => spec.take (some (String.ofList value)) t
      else do takeLetters specs cs (← t.addBare spec)

def takeLong (specs : List OptionSpec) (name : String) (value : Option String) (t : Taken) :
    Except Halt Pending :=
  match specs.find? (·.long == name) with
  | none => .error .usage
  | some spec => spec.take value t

/-- What a place for arguments takes. -/
structure Level where
  specs : List OptionSpec
  /-- The first word is a subcommand; the arguments after it belong to that. -/
  endsAtWord : Bool

/-- A word that is a file name. There can be one, and not the empty one. -/
def takeWord (t : Taken) (word : String) : Except Halt Taken :=
  if t.words.isEmpty && word != "" then .ok { t with words := [word] } else .error .usage

/-- A value that is taken only after the arguments that follow it. -/
abbrev LateValue := OptionSpec × String

def Taken.addLate (t : Taken) : Option LateValue → Except Halt Taken
  | none => .ok t
  | some (spec, value) => t.addValue spec value

/-- What was read of a place. -/
structure LevelReading where
  taken : Taken
  late : Option LateValue
  /-- What is left over; it begins with the subcommand. -/
  rest : List String

/-- Reads the arguments of a place. -/
def Level.read (level : Level) : List String → Taken → Except Halt LevelReading
  | [], t => .ok ⟨t, none, []⟩
  | arg :: args, t =>
    match Argument.ofString arg with
    | .endOfOptions =>
      if level.endsAtWord then
        if args.isEmpty then .ok ⟨t, none, []⟩ else .error .usage
      else return ⟨← args.foldlM takeWord t, none, []⟩
    | .word word =>
      if level.endsAtWord then .ok ⟨t, none, word :: args⟩
      else do level.read args (← takeWord t word)
    | .long name value => do
      match ← takeLong level.specs name value t, args with
      | (t, none), args => level.read args t
      | (_, some _), [] => .error .usage
      | (t, some spec), arg :: args => withValue spec arg args t
    | .short letters => do
      match ← takeLetters level.specs letters t, args with
      | (t, none), args => level.read args t
      | (_, some _), [] => .error .usage
      | (t, some spec), arg :: args => withValue spec arg args t
where
  /-- The argument after an option is its value, unless it looks like an option itself. It is taken
  when the next option comes, so before a subcommand it is late. -/
  withValue (spec : OptionSpec) (arg : String) (args : List String) (t : Taken) :
      Except Halt LevelReading :=
    match Argument.ofString arg with
    | .word value =>
      if level.endsAtWord && args.head?.any Argument.isWord then .ok ⟨t, some (spec, value), args⟩
      else do level.read args (← t.addValue spec value)
    | _ => .error .usage

/-- A whole number in decimal digits, with a sign or without. -/
def decimal? (text : String) : Option Int :=
  let digits? (cs : List Char) : Option Nat :=
    if cs ≠ [] ∧ cs.all Char.isDigit then some (cs.foldl (fun n c => 10 * n + (c.toNat - 48)) 0)
    else none
  match text.toList with
  | '-' :: cs => (digits? cs).map fun n => -(n : Int)
  | '+' :: cs => (digits? cs).map fun n => (n : Int)
  | cs => (digits? cs).map fun n => (n : Int)

/-- A budget is a 32-bit word. -/
def budget? (text : String) : Option Nat :=
  (decimal? text).bind fun n => if 0 ≤ n ∧ n < 0x100000000 then some n.toNat else none

def commonSpecs : List OptionSpec :=
  [⟨"verbose", some 'v', .count⟩,
   ⟨"format", none, .value fun name => (DiagnosticFormat.ofName? name).isSome⟩,
   ⟨"help", some 'h', .halt .help⟩]

def flagSpec (name : String) : OptionSpec := ⟨name, none, .flag⟩

def programLevel : Level where
  specs := commonSpecs ++ [⟨"version", some 'V', .halt .version⟩]
  endsAtWord := true

def buildLevel : Level where
  specs := commonSpecs ++
    [⟨"output", some 'o', .value (· != "")⟩, flagSpec "types", flagSpec "asm",
     flagSpec "keep-comments", flagSpec "no-wrap",
     ⟨"retry-budget", none, .value fun text => (budget? text).isSome⟩]
  endsAtWord := false

def lexLevel : Level where
  specs := commonSpecs ++ [flagSpec "keep-comments"]
  endsAtWord := false

def parseLevel : Level where
  specs := commonSpecs ++ [flagSpec "json", flagSpec "types", flagSpec "asm"]
  endsAtWord := false

def buildCommand (file : String) (t : Taken) : Command :=
  .build file ((t.value? "output").getD "out.js")
    { types := t.has "types"
      asm := t.has "asm"
      keepComments := t.has "keep-comments"
      wrap := !t.has "no-wrap"
      retryBudget := ((t.value? "retry-budget").bind budget?).getD defaultRetryBudget }

def lexCommand (file : String) (t : Taken) : Command := .lex file (t.has "keep-comments")

def parseCommand (file : String) (t : Taken) : Command :=
  .parse file (t.has "json") (t.has "types") (t.has "asm")

/-- Puts the options before and after the subcommand together. -/
def invocation (command : Command) (before after : Taken) : Invocation where
  command := command
  verbosity :=
    if after.has "verbose" then after.count "verbose" else before.count "verbose"
  format :=
    (((after.value? "format").or (before.value? "format")).bind
      DiagnosticFormat.ofName?).getD .human

/-- Reads the arguments of a subcommand, which needs one file. -/
def subcommand (level : Level) (command : String → Taken → Command) (before : LevelReading)
    (args : List String) : Except Halt Invocation := do
  let after := (← level.read args .nothing).taken
  let before ← before.taken.addLate before.late
  match after.words with
  | file :: _ => return invocation (command file after) before after
  | [] => throw .usage

/-- The names that help can be asked for. -/
def helpTopics : List String := ["build", "lex", "parse", "help"]

/-- All words after `help` are names, and the names have none of their own. -/
def helpHalt : List String → Halt
  | [] => .help
  | [topic] => if topic ∈ helpTopics then .help else .usage
  | _ => .usage

/-- What the arguments of the program ask for. -/
def readArguments (args : List String) : Except Halt Invocation := do
  let before ← programLevel.read args .nothing
  match before.rest with
  | "build" :: args => subcommand buildLevel buildCommand before args
  | "lex" :: args => subcommand lexLevel lexCommand before args
  | "parse" :: args => subcommand parseLevel parseCommand before args
  | "help" :: topics => throw (helpHalt topics)
  | _ => throw .usage

end MapScript
