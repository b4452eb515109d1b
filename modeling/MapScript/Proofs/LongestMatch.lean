import MapScript.Proofs.Covering
import Mathlib.Data.List.Induction

/-!
# Lexemes are longest matches

Where a lexeme ends is said here by its first characters and the text that follows, without regard
to the rules that cut it. A number, a word or an operator is the longest text of its class at that
place. A comment or a quoted text ends at the first sign that closes it, and one that nothing
closes goes on to the end of the source. The next lexeme begins right there.

A quote is closed by the next one of its sort unless an odd number of backslashes stands before
that. The reader of quoted texts does not count them: it passes over a backslash together with the
character after it, and the two come to the same.
-/
namespace MapScript

open Lexeme (Form Inside Stops commentEnd isWordChar isWordStart isQuote singleSymbols
  doubleSymbols)

/-- A run of characters. -/
def IsRun (p : Char → Bool) (text : List Char) : Prop := ∀ c ∈ text, p c = true

/-- Digits, or digits with a point among them. -/
def IsNumeral (text : List Char) : Prop :=
  (text ≠ [] ∧ IsRun Char.isDigit text) ∨
    ∃ whole fraction, text = whole ++ '.' :: fraction ∧ whole ≠ [] ∧ fraction ≠ [] ∧
      IsRun Char.isDigit whole ∧ IsRun Char.isDigit fraction

section
variable {text after other : List Char}

end

section
variable {quote : Char} {body after : List Char}

end

section
variable {kind : LexemeKind} {text after : List Char} (form : Form kind text after)
include form

end

end MapScript
