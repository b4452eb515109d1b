/-!
# Words up to letter case

Keywords, register names and instruction names are written in any case. Only the ASCII letters
have a case here: every other character stands for itself alone.
-/
namespace MapScript

/-- The word with its ASCII capitals made small. -/
def lowerWord (word : String) : String :=
  String.ofList (word.toList.map Char.toLower)

/-- Two words are the same word when they differ only in the case of ASCII letters. -/
def sameWord (a b : String) : Bool :=
  a.toList.map Char.toLower == b.toList.map Char.toLower

/-- The characters that are white space in Unicode. -/
def isBlank (c : Char) : Bool :=
  let n := c.toNat
  (0x09 ≤ n && n ≤ 0x0d) || n == 0x20 || n == 0x85 || n == 0xa0 || n == 0x1680 ||
    (0x2000 ≤ n && n ≤ 0x200a) || n == 0x2028 || n == 0x2029 || n == 0x202f ||
    n == 0x205f || n == 0x3000

/-- A text without the characters at its end that satisfy `p`. -/
def dropEnd (p : Char → Bool) (text : List Char) : List Char :=
  (text.reverse.dropWhile p).reverse

/-- A text without the white space around it. -/
def trimBlank (text : List Char) : List Char :=
  dropEnd isBlank (text.dropWhile isBlank)

/-- The bytes that a text takes in UTF-8. -/
def byteLength (text : List Char) : Nat :=
  text.foldr (fun c bytes => c.utf8Size + bytes) 0

end MapScript
