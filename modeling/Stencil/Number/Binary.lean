/-! # Binary fractions

A number of the script language is a double. Its bits spell a sign, a whole significand and a
power of two; rounding to whole numbers, wrapping to words and printing are exact arithmetic on
these three.
-/
namespace Stencil

/-- What the bits of a double spell. -/
inductive Binary
  | nan
  | infinite (negative : Bool)
  /-- The number `± significand * 2 ^ exponent`. -/
  | finite (negative : Bool) (significand : Nat) (exponent : Int)
  deriving DecidableEq, Repr, Inhabited

namespace Binary

/-- Reads the bits of a double. -/
def ofFloat (x : Float) : Binary :=
  let bits := x.toBits.toNat
  let negative := bits / Nat.pow 2 63 == 1
  let exponent : Nat := bits / Nat.pow 2 52 % Nat.pow 2 11
  let fraction : Nat := bits % Nat.pow 2 52
  if exponent == 2047 then
    if fraction == 0 then infinite negative else nan
  else if exponent == 0 then finite negative fraction (-1074)
  else finite negative (fraction + Nat.pow 2 52) ((exponent : Int) - 1075)

/-- Whether the number is whole. -/
def isWhole : Binary → Bool
  | finite _ m q => 0 ≤ q || m % Nat.pow 2 (-q).toNat == 0
  | _ => false

/-- The absolute value without its fraction; zero for what is not finite. -/
def wholePart : Binary → Nat
  | finite _ m q => if 0 ≤ q then m * Nat.pow 2 q.toNat else m / Nat.pow 2 (-q).toNat
  | _ => 0

/-- Whether the number carries a minus sign. -/
def isNegative : Binary → Bool
  | nan => false
  | infinite negative => negative
  | finite negative _ _ => negative

/-- The number without its fraction; zero for what is not finite. -/
def truncated (b : Binary) : Int :=
  if b.isNegative then -(b.wholePart : Int) else b.wholePart

end Binary

/-- A whole number with the sign that zero is to carry. -/
def signedWhole (negative : Bool) (n : Nat) : Float :=
  if negative then -(Float.ofNat n) else Float.ofNat n

/-- The double `± m * 2 ^ q` for a value that is a double. -/
def doubleOf (negative : Bool) (m : Nat) (q : Int) : Float :=
  if m == 0 then signedWhole negative 0
  else
    -- the significand is brought to 53 bits, or to fewer when the exponent is the least
    let shift : Int := max ((Nat.log2 m : Int) - 52) (-1074 - q)
    let significand := if 0 ≤ shift then m / Nat.pow 2 shift.toNat else m * Nat.pow 2 (-shift).toNat
    let exponent := q + shift
    let field := if significand < Nat.pow 2 52 then 0 else (exponent + 1075).toNat
    let sign := if negative then Nat.pow 2 63 else 0
    Float.ofBits (UInt64.ofNat (sign + field * Nat.pow 2 52 + significand % Nat.pow 2 52))

end Stencil
