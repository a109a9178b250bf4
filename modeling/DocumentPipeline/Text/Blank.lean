/-! # Blank characters

The characters with the Unicode property `White_Space`, and trimming by them.
-/
namespace DocumentPipeline

/-- Whether a character is white space anywhere in Unicode. -/
def isBlank (c : Char) : Bool :=
  let n := c.toNat
  (9 ≤ n && n ≤ 13) || n = 0x20 || n = 0x85 || n = 0xA0 || n = 0x1680 ||
    (0x2000 ≤ n && n ≤ 0x200A) || n = 0x2028 || n = 0x2029 || n = 0x202F || n = 0x205F ||
    n = 0x3000

/-- Drops leading blanks. -/
def trimStart (cs : List Char) : List Char := cs.dropWhile isBlank

/-- Drops blanks on both sides. -/
def trim (cs : List Char) : List Char := (trimStart (trimStart cs).reverse).reverse

end DocumentPipeline
