import MapScript.Diagnostic.Basic
import MapScript.Source.LineMap
import MapScript.Text.Style

/-!
# Diagnostics as terminal text

```text
error[E0102]: expected 'then', found end of line
  --> map.j:3:13
    |
  3 |     if x > 5
    |             ^ here
    |
    = help: conditions end with 'then' on the same line
```

The lines that the labels are on are shown in order, with the labels underlined below each. Columns
count bytes.
-/
namespace MapScript

/-- A part of a line that is underlined, from column `start` up to column `stop`. -/
structure Mark where
  start : Nat
  stop : Nat
  style : LabelStyle
  message : Option String
deriving DecidableEq, Repr

/-- A line with the marks on it. -/
structure MarkedLine where
  number : Nat
  text : String
  marks : List Mark
deriving DecidableEq, Repr

namespace Mark

def symbol (m : Mark) : Char :=
  match m.style with
  | .primary => '^'
  | .secondary => '-'

/-- The mark of a label with the line it begins on. A label that goes on after that line is marked
to the end of it, and every mark has at least one column. -/
def ofLabel? (map : LineMap) (label : Label) : Option (Nat × String × Mark) :=
  let first := map.position label.span.start
  let last := map.position label.span.stop
  (map.lineText? first.line).map fun text =>
    let stop := if last.line = first.line then last.column else text.utf8ByteSize + 1
    (first.line, text, ⟨first.column, max stop (first.column + 1), label.style, label.message⟩)

/-- Secondary marks come first, so that a primary one covers them; those of one kind go by
column. -/
def order (a b : Mark) : Bool :=
  if a.style = b.style then a.start ≤ b.start else b.style = .primary

/-- A row of characters with a mark drawn on it. -/
def draw (row : List Char) (m : Mark) : List Char :=
  row.mapIdx fun i c => if m.start ≤ i + 1 ∧ i + 1 < m.stop then m.symbol else c

end Mark

/-- A mark joins the others on its line; lines stay in order. -/
def addMark (number : Nat) (text : String) (mark : Mark) : List MarkedLine → List MarkedLine
  | [] => [⟨number, text, [mark]⟩]
  | line :: lines =>
    if number < line.number then ⟨number, text, [mark]⟩ :: line :: lines
    else if number = line.number then { line with marks := line.marks ++ [mark] } :: lines
    else line :: addMark number text mark lines

/-- The lines that labels are on, in order. -/
def markedLines (map : LineMap) (labels : List Label) : List MarkedLine :=
  (labels.filterMap (Mark.ofLabel? map)).foldl
    (fun lines (number, text, mark) => addMark number text mark lines) []

/-- The underline of a row of marks. -/
def underline (marks : List Mark) : List Char :=
  let width := marks.foldl (fun width m => max width m.stop) 0
  dropEnd (· == ' ') (marks.foldl Mark.draw (List.replicate width ' '))

/-- A run of `n` blanks. -/
def blanks (n : Nat) : String := String.ofList (List.replicate n ' ')

namespace Excerpt

variable (color : Bool)

def bar : String := styled color [.blue] "|"

/-- A text in the color of a label. -/
def inLabelStyle (style : LabelStyle) (text : String) : String :=
  match style with
  | .primary => styled color [.bold, .red] text
  | .secondary => styled color [.blue] text

/-- A run of equal characters of an underline. -/
def underlineRun (run : List Char) : String :=
  match run with
  | '^' :: _ => styled color [.bold, .red] (String.ofList run)
  | '-' :: _ => styled color [.blue] (String.ofList run)
  | _ => String.ofList run

def coloredUnderline (row : List Char) : String :=
  String.join ((row.splitBy (· == ·)).map (underlineRun color))

def header (d : Diagnostic) : String :=
  let severity :=
    match d.severity with
    | .error => styled color [.bold, .red] "error"
    | .warning => styled color [.bold, .yellow] "warning"
  let code := (d.code.map fun code => "[" ++ code ++ "]").getD ""
  severity ++ code ++ ": " ++ styled color [.bold] d.message ++ "\n"

def location (map : LineMap) (file : Option String) (d : Diagnostic) : String :=
  match d.primarySpan? with
  | none => ""
  | some span =>
    let position := map.position span.start
    "  " ++ styled color [.blue] "-->" ++ " " ++ file.getD "<source>" ++ ":" ++
      toString position.line ++ ":" ++ toString position.column ++ "\n"

/-- The underline of a line and the remarks on it. A single remark goes beside the underline;
several go below it, the last one first. -/
def remarks (gutter : String) (marks : List Mark) : String :=
  let marks := marks.mergeSort Mark.order
  let left := gutter ++ " " ++ bar color ++ " "
  let row := coloredUnderline color (underline marks)
  match marks.filterMap fun m => m.message.map fun text => (m, text) with
  | [] => left ++ row ++ "\n"
  | [(m, text)] => left ++ row ++ " " ++ inLabelStyle color m.style text ++ "\n"
  | many =>
    left ++ row ++ "\n" ++ String.join (many.reverse.map fun (m, text) =>
      left ++ blanks (m.start - 1) ++ inLabelStyle color m.style "|" ++ " " ++
        inLabelStyle color m.style text ++ "\n")

def numbered (width : Nat) (gutter : String) (line : MarkedLine) : String :=
  let number := toString line.number
  styled color [.bold, .blue] (blanks (width + 1 - number.length) ++ number) ++ " " ++ bar color ++
    " " ++ line.text ++ "\n" ++ remarks color gutter line.marks

/-- The lines after line `previous`; dots stand for the lines that are left out. -/
def body (width : Nat) (gutter : String) (previous : Option Nat) : List MarkedLine → String
  | [] => ""
  | line :: lines =>
    let dots :=
      if previous.any (· + 1 < line.number) then
        blanks width ++ " " ++ styled color [.blue] "..." ++ "\n"
      else ""
    dots ++ numbered color width gutter line ++ body width gutter (some line.number) lines

def remark (gutter name text : String) : String :=
  gutter ++ " " ++ styled color [.cyan] "=" ++ " " ++ styled color [.bold, .cyan] name ++ ": " ++
    text ++ "\n"

def footer (gutter : String) (d : Diagnostic) : String :=
  if d.notes.isEmpty && d.help.isNone then ""
  else
    (if d.labels.isEmpty then "" else gutter ++ " " ++ bar color ++ "\n") ++
      String.join (d.notes.map (remark color gutter "note")) ++
      (d.help.map (remark color gutter "help")).getD ""

end Excerpt

open Excerpt in
/-- The terminal text of a diagnostic on a source. -/
def Diagnostic.excerpt (color : Bool) (map : LineMap) (file : Option String) (d : Diagnostic) :
    String :=
  let lines := markedLines map d.labels
  let width := max 2 ((lines.getLast?.map fun line => (toString line.number).length).getD 1)
  let gutter := blanks (width + 1)
  header color d ++ location color map file d ++
    (if lines.isEmpty then "" else gutter ++ " " ++ bar color ++ "\n") ++
    body color width gutter none lines ++ footer color gutter d

end MapScript
