/-! # White space

The characters with the Unicode property White_Space, and texts trimmed of them.
-/
namespace Stencil

/-- A white space character. -/
def isBlank (c : Char) : Bool :=
  let n := c.toNat
  (9 ≤ n && n ≤ 13) || n == 0x20 || n == 0x85 || n == 0xa0 || n == 0x1680 ||
    (0x2000 ≤ n && n ≤ 0x200a) || n == 0x2028 || n == 0x2029 || n == 0x202f || n == 0x205f ||
    n == 0x3000

/-- The text without white space at its end. -/
def trimCharsEnd (cs : List Char) : List Char :=
  (cs.reverse.dropWhile isBlank).reverse

/-- The text without white space at either end. -/
def trimChars (cs : List Char) : List Char :=
  trimCharsEnd (cs.dropWhile isBlank)

/-- The text without white space at either end. -/
def trimText (s : String) : String :=
  String.ofList (trimChars s.toList)

end Stencil
