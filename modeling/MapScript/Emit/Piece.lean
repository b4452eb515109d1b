/-!
# Pieces of output

A piece is text of the output together with what that text relies on. Pieces are put one after the
other, and what they rely on is then listed in the same order.
-/
namespace MapScript

/-- Something of the prologue that the text relies on, or an instruction that does not exist. -/
inductive Use where
  | helper (name : String)
  | instruction (name : String)
  | register
  | unknownInstruction (op : String)
deriving DecidableEq, Repr

structure Piece where
  text : String
  uses : List Use
deriving DecidableEq, Repr, Inhabited

namespace Piece

/-- Text that relies on nothing. -/
def ofText (text : String) : Piece := ⟨text, []⟩

instance : Coe String Piece := ⟨ofText⟩

instance : Append Piece := ⟨fun a b => ⟨a.text ++ b.text, a.uses ++ b.uses⟩⟩

def isEmpty (p : Piece) : Bool := p.text.isEmpty

/-- Pieces with a separator between neighbours. -/
def joined (separator : String) : List Piece → Piece
  | [] => ""
  | [p] => p
  | p :: ps => p ++ separator ++ joined separator ps

end Piece

end MapScript
