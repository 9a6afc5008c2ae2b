import Stencil.Number.Binary

/-! # Whole numbers from doubles

Rounding down, up and toward zero, the remainder of a division, and the 32-bit words that the
bit operators work on. Every function is exact.
-/
namespace Stencil

/-- The greatest whole number that is not above `x`. -/
def floorDouble (x : Float) : Float :=
  let b := Binary.ofFloat x
  match b with
  | .finite negative _ _ =>
    if b.isWhole then x
    else if negative then signedWhole true (b.wholePart + 1)
    else signedWhole false b.wholePart
  | _ => x

/-- The least whole number that is not below `x`. -/
def ceilDouble (x : Float) : Float :=
  let b := Binary.ofFloat x
  match b with
  | .finite negative _ _ =>
    if b.isWhole then x
    else if negative then signedWhole true b.wholePart
    else signedWhole false (b.wholePart + 1)
  | _ => x

/-- The remainder of `x` by `y` with the sign of `x`. -/
def remainderDouble (x y : Float) : Float :=
  match Binary.ofFloat x, Binary.ofFloat y with
  | .finite negative m q, .finite _ n r =>
    if n == 0 then 0.0 / 0.0
    else
      let least := min q r
      let a := m * Nat.pow 2 (q - least).toNat
      let b := n * Nat.pow 2 (r - least).toNat
      doubleOf negative (a % b) least
  | .finite _ _ _, .infinite _ => x
  | _, _ => 0.0 / 0.0

/-- The 32-bit word that is congruent to the number without its fraction; zero for what is not
finite. -/
def wordOf (x : Float) : BitVec 32 :=
  BitVec.ofInt 32 (Binary.ofFloat x).truncated

/-- A word as a number with sign. -/
def signedWord (w : BitVec 32) : Float := Float.ofInt w.toInt

/-- A word as a number without sign. -/
def unsignedWord (w : BitVec 32) : Float := Float.ofNat w.toNat

/-- How far a word shifts another: its five lowest bits. -/
def shiftAmount (w : BitVec 32) : Nat := w.toNat % 32

end Stencil
