import Stencil.Number.Binary

/-! # Decimal texts of doubles

The fewest decimal digits that read back as a double, and the ways to write them: in full without
an exponent, as a number of a data format, and with a fixed count of decimal places.
-/
namespace Stencil

/-- The digits `d` and power `k` of a decimal number `d * 10 ^ k`. -/
structure Decimal where
  digits : Nat
  power : Int
  deriving DecidableEq, Repr, Inhabited

/-- The fraction `num / den` with positive `den`. -/
structure Ratio where
  num : Nat
  den : Nat
  deriving Repr, Inhabited

namespace Ratio

/-- The number `m * 2 ^ q`. -/
def ofBinary (m : Nat) (q : Int) : Ratio :=
  if 0 ≤ q then ⟨m * Nat.pow 2 q.toNat, 1⟩ else ⟨m, Nat.pow 2 (-q).toNat⟩

/-- The number divided by `10 ^ k`. -/
def unscale (r : Ratio) (k : Int) : Ratio :=
  if 0 ≤ k then ⟨r.num, r.den * Nat.pow 10 k.toNat⟩
  else ⟨r.num * Nat.pow 10 (-k).toNat, r.den⟩

/-- Whether the number is below `d`. -/
def below (r : Ratio) (d : Nat) : Bool := r.num < d * r.den

/-- Whether the number is above `d`. -/
def above (r : Ratio) (d : Nat) : Bool := d * r.den < r.num

/-- Moves an estimate of the decimal exponent up while the number is at least ten times larger. -/
def raiseExponent (r : Ratio) : Nat → Int → Int
  | 0, e => e
  | n + 1, e => if (r.unscale (e + 1)).below 1 then e else raiseExponent r n (e + 1)

/-- Moves an estimate of the decimal exponent down while the number is smaller. -/
def lowerExponent (r : Ratio) : Nat → Int → Int
  | 0, e => e
  | n + 1, e => if (r.unscale e).below 1 then lowerExponent r n (e - 1) else e

/-- The exponent of the first decimal digit of a positive number. The estimate by binary logarithms
is off by less than two. -/
def exponent (r : Ratio) : Int :=
  let estimate := ((Nat.log2 r.num : Int) - Nat.log2 r.den) * 30103 / 100000
  raiseExponent r 3 (lowerExponent r 3 estimate)

end Ratio

/-- The numbers that read back as one double: all between the two ends, and the ends themselves if
`closed`. -/
structure Neighbourhood where
  low : Ratio
  high : Ratio
  closed : Bool

namespace Neighbourhood

/-- The numbers that round to `m * 2 ^ q`. The gap below a power of two is half as wide. -/
def ofBinary (m : Nat) (q : Int) : Neighbourhood :=
  let low := if m == Nat.pow 2 52 && -1074 < q then Ratio.ofBinary (4 * m - 1) (q - 2)
    else Ratio.ofBinary (2 * m - 1) (q - 1)
  ⟨low, Ratio.ofBinary (2 * m + 1) (q - 1), m % 2 == 0⟩

/-- Whether `d * 10 ^ k` lies in the neighbourhood. -/
def holds (n : Neighbourhood) (d : Nat) (k : Int) : Bool :=
  let low := n.low.unscale k
  let high := n.high.unscale k
  if n.closed then !low.above d && !high.below d else low.below d && high.above d

end Neighbourhood

/-- The decimal nearest to `r` among the two neighbours of `r` that are multiples of `10 ^ k` and
lie in `n`. A tie goes up. -/
def nearestOnGrid? (r : Ratio) (n : Neighbourhood) (k : Int) : Option Decimal :=
  let scaled := r.unscale k
  let d := scaled.num / scaled.den
  let rest := scaled.num % scaled.den
  match n.holds d k && d != 0, n.holds (d + 1) k with
  | true, true => some ⟨if 2 * rest < scaled.den then d else d + 1, k⟩
  | true, false => some ⟨d, k⟩
  | false, true => some ⟨d + 1, k⟩
  | false, false => none

/-- The first hit among grids with `count` digits and more. -/
def shortestFrom (r : Ratio) (n : Neighbourhood) (e : Int) : Nat → Nat → Decimal
  | 0, count =>
    let k := e + 1 - count
    ⟨(r.unscale k).num / (r.unscale k).den, k⟩
  | fuel + 1, count =>
    match nearestOnGrid? r n (e + 1 - count) with
    | some d => d
    | none => shortestFrom r n e fuel (count + 1)

/-- Takes the zeros at the end of the digits into the power. -/
def Decimal.normalizeFrom : Nat → Nat → Int → Decimal
  | 0, d, k => ⟨d, k⟩
  | fuel + 1, d, k => if d % 10 == 0 && d != 0 then normalizeFrom fuel (d / 10) (k + 1) else ⟨d, k⟩

/-- The decimal with the fewest digits that reads back as `m * 2 ^ q`, and of those the nearest.
Seventeen digits always suffice. -/
def shortestDecimal (m : Nat) (q : Int) : Decimal :=
  let r := Ratio.ofBinary m q
  let d := shortestFrom r (Neighbourhood.ofBinary m q) r.exponent 17 1
  Decimal.normalizeFrom 18 d.digits d.power

/-- A row of zeros. -/
def zeros (n : Nat) : String := "".pushn '0' n

/-- Digits with a point before the last `places` of them, and a zero before the point if nothing
else stands there. -/
def withPoint (digits : String) (places : Nat) : String :=
  let padded := zeros (places + 1 - digits.length) ++ digits
  let whole := padded.length - places
  String.ofList (padded.toList.take whole) ++ "." ++ String.ofList (padded.toList.drop whole)

namespace Decimal

/-- The number in full, without an exponent. -/
def plain (d : Decimal) : String :=
  let digits := toString d.digits
  if 0 ≤ d.power then digits ++ zeros d.power.toNat else withPoint digits (-d.power).toNat

/-- The number in full with a point, or with an exponent when its first digit stands further than
five places behind or sixteen before the point. -/
def scientific (d : Decimal) : String :=
  let digits := toString d.digits
  let e := d.power + digits.length - 1
  if -5 ≤ e && e < 16 then
    if 0 ≤ d.power then d.plain ++ ".0" else d.plain
  else
    let head := String.ofList (digits.toList.take 1)
    let tail := String.ofList (digits.toList.drop 1)
    let fraction := if tail.isEmpty then "" else "." ++ tail
    let sign := if 0 ≤ e then "+" else "-"
    head ++ fraction ++ "e" ++ sign ++ toString e.natAbs

end Decimal

/-- A minus sign for negative numbers. -/
def signText (negative : Bool) : String := if negative then "-" else ""

/-- The nearest whole number to `num / den`; halves go to the even neighbour. -/
def roundHalfEven (num den : Nat) : Nat :=
  let d := num / den
  let rest := num % den
  if 2 * rest < den then d
  else if den < 2 * rest then d + 1
  else if d % 2 == 0 then d else d + 1

/-- A number with exactly `places` digits behind the point. -/
def fixedText (x : Float) (places : Nat) : String :=
  match Binary.ofFloat x with
  | .nan => "NaN"
  | .infinite negative => signText negative ++ "inf"
  | .finite negative m q =>
    let r := Ratio.ofBinary m q
    let digits := toString (roundHalfEven (r.num * Nat.pow 10 places) r.den)
    signText negative ++ if places == 0 then digits else withPoint digits places

/-- The largest and least numbers of 64 bits with sign stand for all beyond them. -/
def clampInt64 (n : Int) : Int := max (-9223372036854775808) (min 9223372036854775807 n)

/-- The text of a script number: whole numbers below `10 ^ 21` as integers of 64 bits, all others
with the fewest digits that read back, never with an exponent. -/
def numberText (x : Float) : String :=
  let b := Binary.ofFloat x
  match b with
  | .nan => "NaN"
  | .infinite negative => signText negative ++ "Infinity"
  | .finite negative m q =>
    if m == 0 then "0"
    else if b.isWhole && b.wholePart < Nat.pow 10 21 then toString (clampInt64 b.truncated)
    else signText negative ++ (shortestDecimal m q).plain

end Stencil
