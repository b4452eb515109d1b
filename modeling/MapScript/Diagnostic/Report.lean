import MapScript.Diagnostic.Basic
import MapScript.Json.Pretty
import MapScript.Source.LineMap

/-!
# Reports

All diagnostics of one file as a JSON document. Fields that have nothing to say are left out.
-/
namespace MapScript

namespace Diagnostic

/-- A field that is written only when there is a value for it. -/
def presentField (name : String) (value : Option Json) : List (String × Json) :=
  (value.map fun value => (name, value)).toList

def positionFields (map : LineMap) (offset : Nat) : List (String × Json) :=
  let position := map.position offset
  [("line", .ofNat position.line), ("column", .ofNat position.column),
   ("byte_offset", .ofNat offset)]

def labelJson (map : LineMap) (label : Label) : Json :=
  .object <|
    [("role", .string label.style.name)] ++ presentField "message" (label.message.map .string) ++
    [("start", .object (positionFields map label.span.start)),
     ("end", .object (positionFields map label.span.stop))]

/-- The place of a diagnostic, with the line that it is on. -/
def locationJson (map : LineMap) (span : Span) : Json :=
  .object <| positionFields map span.start ++
    [("source_line", .string ((map.lineText? (map.lineOf span.start)).getD ""))]

def toJson (map : LineMap) (d : Diagnostic) : Json :=
  .object <|
    [("severity", .string d.severity.name)] ++ presentField "code" (d.code.map .string) ++
    presentField "category"
      ((d.code.bind DiagnosticCode.find?).map fun code => .string code.category.name) ++
    [("message", .string d.message)] ++
    presentField "location" (d.primarySpan?.map (locationJson map)) ++
    [("labels", .ofList (labelJson map) d.labels)] ++
    presentField "notes" (if d.notes.isEmpty then none else some (.ofList .string d.notes)) ++
    presentField "help" (d.help.map .string)

/-- The report on a file, of which `phase` was the last stage to run. -/
def report (ds : List Diagnostic) (source file phase : String) : Json :=
  .object
    [("version", .ofNat 1), ("file", .string file), ("success", .bool (errorCount ds == 0)),
     ("phase", .string phase), ("diagnostics", .ofList (toJson (.ofSource source)) ds),
     ("error_count", .ofNat (errorCount ds)), ("warning_count", .ofNat (warningCount ds))]

end Diagnostic

end MapScript
