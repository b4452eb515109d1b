import MapScript.Text.Word

/-!
# Lines of a source

A source is cut at its newlines. Each line keeps the byte offset of its first character, so that
an offset turns into a line number and a column, both counted from one.
-/
namespace MapScript

/-- A line without its newline. -/
structure SourceLine where
  start : Nat
  text : List Char
deriving DecidableEq, Repr, Inhabited

/-- The lines of a text that starts at byte `start`. There is always at least one. -/
def splitLines (start : Nat) : List Char → List SourceLine
  | [] => [⟨start, []⟩]
  | c :: cs =>
    if c = '\n' then ⟨start, []⟩ :: splitLines (start + 1) cs
    else
      match splitLines (start + c.utf8Size) cs with
      | [] => [⟨start, [c]⟩]
      | line :: lines => ⟨start, c :: line.text⟩ :: lines

structure LineMap where
  lines : List SourceLine
deriving DecidableEq, Repr

/-- A line and a column, both counted from one. -/
structure Position where
  line : Nat
  column : Nat
deriving DecidableEq, Repr, Inhabited

namespace LineMap

def ofChars (source : List Char) : LineMap := ⟨splitLines 0 source⟩

def ofSource (source : String) : LineMap := ofChars source.toList

def lineCount (m : LineMap) : Nat := m.lines.length

/-- The line of an offset: how many lines start at or before it. An offset past the end is on the
last line. -/
def lineOf (m : LineMap) (offset : Nat) : Nat :=
  max 1 (m.lines.countP fun line => line.start ≤ offset)

/-- Tokens keep their line as a 32-bit word. -/
def lineWord (m : LineMap) (offset : Nat) : UInt32 := (m.lineOf offset).toUInt32

/-- Columns are 32-bit words. -/
def columnOf (lineStart offset : Nat) : Nat :=
  ((offset - lineStart).toUInt32 + 1).toNat

def position (m : LineMap) (offset : Nat) : Position :=
  let line := m.lineOf offset
  ⟨line, columnOf ((m.lines[line - 1]?.map SourceLine.start).getD 0) offset⟩

/-- The text of a line without the carriage returns at its end, if there is such a line. -/
def lineText? (m : LineMap) (line : Nat) : Option String :=
  match line with
  | 0 => none
  | n + 1 => m.lines[n]?.map fun l => String.ofList (dropEnd (· == '\r') l.text)

end LineMap

end MapScript
