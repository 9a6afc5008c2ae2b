import Stencil.Text.Blank

/-! # Reading decimal numbers

The nearest double of a decimal text. A text of digits has at most one point and at least one
digit beside it; an exponent has digits; infinity and not-a-number have names in any case.
-/
namespace Stencil

/-- The value of a row of digits in a base. Characters that are no digits count for nothing. -/
def digitsValue (base : Nat) (cs : List Char) : Nat :=
  cs.foldl (fun n c =>
    let v := c.toNat
    if 0x30 ≤ v && v ≤ 0x39 then n * base + (v - 0x30)
    else if 0x61 ≤ v && v ≤ 0x66 then n * base + (v - 0x57)
    else if 0x41 ≤ v && v ≤ 0x46 then n * base + (v - 0x37)
    else n) 0

/-- The double nearest to `digits * 10 ^ power`. Numbers that are out of reach become zero or
infinity without being computed. -/
def nearestDouble (digits : Nat) (power : Int) : Float :=
  if digits == 0 then 0.0
  else
    let size : Int := (Nat.log2 digits : Int) * 30103 / 100000 + power
    if 400 < size then 1.0 / 0.0
    else if size < -400 then 0.0
    else Float.ofScientific digits (power < 0) power.natAbs

/-- The whole number among those that are doubles which is nearest to `n`; of two the one with the
even significand. -/
def roundToDouble (n : Nat) : Nat :=
  if n < Nat.pow 2 53 then n
  else
    let unit := Nat.pow 2 (Nat.log2 n - 52)
    let significand := n / unit
    let rest := n % unit
    let up := unit < 2 * rest || (2 * rest == unit && significand % 2 == 1)
    (if up then significand + 1 else significand) * unit

/-- The digits at the start of a text, and the rest. -/
def spanDigits (cs : List Char) : List Char × List Char :=
  cs.span Char.isDigit

/-- The exponent `e`, an optional sign and digits, which is the whole text; zero for no text. -/
def readExponent? : List Char → Option Int
  | [] => some 0
  | e :: cs =>
    if e == 'e' || e == 'E' then
      let (negative, rest) := match cs with
        | '-' :: rest => (true, rest)
        | '+' :: rest => (false, rest)
        | rest => (false, rest)
      if rest.isEmpty || !rest.all Char.isDigit then none
      else
        let n : Int := digitsValue 10 rest
        some (if negative then -n else n)
    else none

/-- Reads a number without sign. -/
def readUnsigned? (cs : List Char) : Option Float :=
  let name := String.ofList (cs.map Char.toLower)
  if name == "inf" || name == "infinity" then some (1.0 / 0.0)
  else if name == "nan" then some (0.0 / 0.0)
  else
    let (whole, rest) := spanDigits cs
    let (fraction, rest) := match rest with
      | '.' :: rest => spanDigits rest
      | rest => ([], rest)
    if whole.isEmpty && fraction.isEmpty then none
    else (readExponent? rest).map fun e =>
      nearestDouble (digitsValue 10 (whole ++ fraction)) (e - fraction.length)

/-- Reads a number with an optional sign. -/
def readDouble? : List Char → Option Float
  | '-' :: cs => (readUnsigned? cs).map (-·)
  | '+' :: cs => readUnsigned? cs
  | cs => readUnsigned? cs

/-- The number that a text stands for: white space around it is ignored, the empty text is zero
and a text that is no number is not-a-number. -/
def textNumber (s : String) : Float :=
  let cs := trimChars s.toList
  if cs.isEmpty then 0.0 else (readDouble? cs).getD (0.0 / 0.0)

/-- The natural number written by a text as an index: digits with an optional plus sign, below
`2 ^ 64`. -/
def readIndex? (s : String) : Option Nat :=
  let digits := match s.toList with
    | '+' :: cs => cs
    | cs => cs
  if digits.isEmpty || !digits.all Char.isDigit then none
  else
    let n := digitsValue 10 digits
    if n < Nat.pow 2 64 then some n else none

end Stencil
