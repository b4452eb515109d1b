import MapScript.Json.Basic
import MapScript.Token.Basic

/-!
# Tokens as JSON
-/
namespace MapScript

namespace Span

def toJson (s : Span) : Json :=
  .object [("start", .ofNat s.start), ("end", .ofNat s.stop)]

/-- Offsets are 64-bit words. -/
def ofJson? (value : Json) : Option Span := do
  return ⟨← (value.field "start").nat? 0x10000000000000000,
    ← (value.field "end").nat? 0x10000000000000000⟩

end Span

namespace TokenKind

def toJson (kind : TokenKind) : Json := .string kind.tag

def ofJson? (value : Json) : Option TokenKind := do
  ofTag? (← value.string?)

end TokenKind

namespace Token

def toJson (t : Token) : Json :=
  .object
    [("kind", t.kind.toJson), ("text", .ofOption .string t.text), ("line", .ofOption .ofNat t.line),
     ("span", t.span.toJson)]

/-- Line numbers are 32-bit words. -/
def ofJson? (value : Json) : Option Token := do
  return {
    kind := ← TokenKind.ofJson? (value.field "kind")
    text := ← (value.field "text").optional? Json.string?
    line := ← (value.field "line").optional? (Json.nat? 0x100000000)
    span := ← Span.ofJson? (value.field "span") }

end Token

end MapScript
