import MapScript.Json.Basic

/-!
# JSON text

Every item and every field has a line of its own, two blanks deeper than its container; empty
containers stay on one line.
-/
namespace MapScript.Json

/-- The digits of a character code in small hexadecimal letters, at least `width` of them. -/
def hexDigits (width code : Nat) : String :=
  let digits := Nat.toDigits 16 code
  String.ofList (List.replicate (width - digits.length) '0' ++ digits)

/-- Quotes, backslashes and control characters are escaped; all else is written as it is. -/
def escapeChar (c : Char) : String :=
  match c with
  | '"' => "\\\""
  | '\\' => "\\\\"
  | '\n' => "\\n"
  | '\r' => "\\r"
  | '\t' => "\\t"
  | '\x08' => "\\b"
  | '\x0c' => "\\f"
  | c => if c.toNat < 0x20 then "\\u" ++ hexDigits 4 c.toNat else String.singleton c

def quote (text : String) : String :=
  "\"" ++ String.join (text.toList.map escapeChar) ++ "\""

/-- A new line at a depth. -/
def newline (depth : Nat) : String :=
  "\n" ++ String.ofList (List.replicate (2 * depth) ' ')

mutual

/-- The text of a value that begins at a depth. -/
def prettyAt (depth : Nat) : Json → String
  | .null => "null"
  | .bool value => if value then "true" else "false"
  | .number value => toString value
  | .string value => quote value
  | .array [] => "[]"
  | .array (item :: items) =>
    "[" ++ newline (depth + 1) ++ prettyAt (depth + 1) item ++ prettyItems (depth + 1) items ++
      newline depth ++ "]"
  | .object [] => "\x7b\x7d"
  | .object ((key, value) :: fields) =>
    "\x7b" ++ newline (depth + 1) ++ quote key ++ ": " ++ prettyAt (depth + 1) value ++
      prettyFields (depth + 1) fields ++ newline depth ++ "\x7d"

/-- The items after the first one. -/
def prettyItems (depth : Nat) : List Json → String
  | [] => ""
  | item :: items => "," ++ newline depth ++ prettyAt depth item ++ prettyItems depth items

/-- The fields after the first one. -/
def prettyFields (depth : Nat) : List (String × Json) → String
  | [] => ""
  | (key, value) :: fields =>
    "," ++ newline depth ++ quote key ++ ": " ++ prettyAt depth value ++ prettyFields depth fields

end

def pretty (value : Json) : String := prettyAt 0 value

end MapScript.Json
