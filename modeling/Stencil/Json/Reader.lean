import Stencil.Json.Value
import Stencil.Json.Outline

/-! # Reading data

The values of outlines. A text is one value with white space around it. Values nest less than 128
deep. A number without fraction and exponent that fits 64 bits is whole, every other number is a
double.
-/
namespace Stencil
namespace Json

/-! ## Strings -/

/-- The character behind `\u`: four digits, or two units of four digits that belong together. -/
def readUnicodeEscape (cs : List Char) : Read Char :=
  match readHex4 cs with
  | none => none
  | some (n, rest) =>
    if 0xd800 ≤ n && n < 0xdc00 then
      match rest with
      | '\\' :: 'u' :: rest =>
        match readHex4 rest with
        | some (m, rest) =>
          if 0xdc00 ≤ m && m < 0xe000 then
            some (Char.ofNat (0x10000 + (n - 0xd800) * 0x400 + (m - 0xdc00)), rest)
          else none
        | none => none
      | _ => none
    else if 0xdc00 ≤ n && n < 0xe000 then none
    else some (Char.ofNat n, rest)

/-- The character behind a backslash. -/
def readEscape : List Char → Read Char
  | '"' :: cs => some ('"', cs)
  | '\\' :: cs => some ('\\', cs)
  | '/' :: cs => some ('/', cs)
  | 'b' :: cs => some ('\x08', cs)
  | 'f' :: cs => some ('\x0c', cs)
  | 'n' :: cs => some ('\n', cs)
  | 'r' :: cs => some ('\r', cs)
  | 't' :: cs => some ('\t', cs)
  | 'u' :: cs => readUnicodeEscape cs
  | _ => none

/-- What the characters between quotes stand for; `done` holds the characters so far, last
first. -/
def decodeFrom (done : List Char) : Nat → List Char → Option String
  | _, [] => some (String.ofList done.reverse)
  | 0, _ => none
  | fuel + 1, '\\' :: cs =>
    match readEscape cs with
    | some (e, rest) => decodeFrom (e :: done) fuel rest
    | none => none
  | fuel + 1, c :: cs => decodeFrom (c :: done) fuel cs

/-- What the characters between quotes stand for, unless half of a pair of units stands alone. -/
def decode? (written : List Char) : Option String := decodeFrom [] written.length written

/-! ## Numbers -/

/-- Appends digits to a number while it stays below `2 ^ 64`, and returns the digits left over. -/
def gatherDigits (n : Nat) : List Char → Nat × List Char
  | [] => (n, [])
  | d :: ds =>
    let next := n * 10 + (d.toNat - 0x30)
    if next < Nat.pow 2 64 then gatherDigits next ds else (n, d :: ds)

/-- The power of ten nearest to `10 ^ n`. -/
def powerOfTen (n : Nat) : Float := Float.ofScientific 1 false n

/-- A double divided by powers of ten until all of `10 ^ n` is used up. Four steps take every
double to zero. -/
def divideByPower (x : Float) : Nat → Nat → Float
  | 0, _ => 0.0
  | fuel + 1, n => if n ≤ 308 then x / powerOfTen n else divideByPower (x / 1e308) fuel (n - 308)

/-- The double of `n`, multiplied or divided by a power of ten. The result need not be the double
nearest to the exact product. A result that is too large is refused. -/
def scaleDouble (n : Nat) (power : Int) : Option Float :=
  let x := Float.ofNat n
  if n == 0 then some 0.0
  else if power < 0 then some (divideByPower x 4 power.natAbs)
  else if 308 < power then none
  else
    let y := x * powerOfTen power.toNat
    if y.isFinite then some y else none

/-- A double with a sign. -/
def signed (negative : Bool) (x : Float) : Float := if negative then -x else x

/-- The value of a number, unless it is too large for a double. Digits that do not fit 64 bits only
count for the magnitude when they stand before the point, and for nothing behind it. -/
def Numeral.value? (numeral : Numeral) : Option Json :=
  let (n, dropped) := gatherDigits 0 numeral.whole
  if numeral.fraction.isNone && numeral.power.isNone && dropped.isEmpty then
    if !numeral.negative then some (int n)
    else if n == 0 || Nat.pow 2 63 < n then some (float (-Float.ofNat n))
    else some (int (-n))
  else
    let digits := numeral.fraction.getD []
    let (n, ignored) := gatherDigits n digits
    let shift : Int := (dropped.length : Int) - (digits.length - ignored.length : Nat)
    (scaleDouble n (shift + numeral.power.getD 0)).map fun x => float (signed numeral.negative x)

/-! ## Values -/

mutual

/-- The value of an outline that nests less than `depth` deep. -/
def Outline.value? (depth : Nat) : Outline → Option Json
  | .null => some .null
  | .bool b => some (.bool b)
  | .number numeral => numeral.value?
  | .string written => (decode? written).map Json.string
  | .array items =>
    match depth with
    | 0 => none
    | depth + 1 => (itemValues? depth items).map Json.array
  | .object fields =>
    match depth with
    | 0 => none
    | depth + 1 => (fieldValues? depth fields).map Json.object

/-- The values of the items of an array. -/
def itemValues? (depth : Nat) : List Outline → Option (List Json)
  | [] => some []
  | item :: rest =>
    match item.value? depth with
    | none => none
    | some value => (itemValues? depth rest).map (value :: ·)

/-- The values of the fields of an object. -/
def fieldValues? (depth : Nat) : List (List Char × Outline) → Option (List (String × Json))
  | [] => some []
  | (name, item) :: rest =>
    match decode? name, item.value? depth with
    | some name, some value => (fieldValues? depth rest).map ((name, value) :: ·)
    | _, _ => none

end

/-- The value that a text spells, if it spells one and nothing else. -/
def parse? (text : String) : Option Json := (Outline.ofText? text).bind (·.value? 127)

end Json

end Stencil
