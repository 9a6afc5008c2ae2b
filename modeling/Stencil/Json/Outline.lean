import Stencil.Number.Read

/-! # Outlines of data

A text that is well formed, before it is clear what its numbers and strings stand for. Data may have
parts that count for nothing, and such a part may hold a number that is too large, half of a pair of
units, or any depth of nesting; so a text is first read to its outline, and each part gets its value
when somebody asks for it.
-/
namespace Stencil
namespace Json

/-- A number as it is written. -/
structure Numeral where
  negative : Bool
  whole : List Char
  fraction : Option (List Char)
  power : Option Int
  deriving Inhabited

/-- A text as its marks divide it. Strings are kept as they stand between their quotes. -/
inductive Outline
  | null
  | bool (value : Bool)
  | number (numeral : Numeral)
  | string (written : List Char)
  | array (items : List Outline)
  | object (fields : List (List Char × Outline))
  deriving Inhabited

/-- What a reading step returns: what it has read, and the text behind it. -/
abbrev Read (α : Type) := Option (α × List Char)

/-- The text behind white space. -/
def skipSpace (cs : List Char) : List Char :=
  cs.dropWhile fun c => c == ' ' || c == '\t' || c == '\n' || c == '\r'

/-- The text behind a leading `c`. -/
def expect? (c : Char) : List Char → Option (List Char)
  | d :: cs => if c == d then some cs else none
  | [] => none

/-! ## Strings -/

/-- The value of a hexadecimal digit. -/
def hexValue? (c : Char) : Option Nat :=
  let n := c.toNat
  if 0x30 ≤ n && n ≤ 0x39 then some (n - 0x30)
  else if 0x61 ≤ n && n ≤ 0x66 then some (n - 0x57)
  else if 0x41 ≤ n && n ≤ 0x46 then some (n - 0x37)
  else none

/-- Four hexadecimal digits. -/
def readHex4 : List Char → Read Nat
  | a :: b :: c :: d :: cs =>
    match hexValue? a, hexValue? b, hexValue? c, hexValue? d with
    | some a, some b, some c, some d => some (((a * 16 + b) * 16 + c) * 16 + d, cs)
    | _, _, _, _ => none
  | _ => none

/-- The characters that a backslash may stand before, apart from `u`. -/
def escapable : List Char := ['"', '\\', '/', 'b', 'f', 'n', 'r', 't']

/-- The number of characters that belong to the backslash before `cs`. -/
def escapeLength? : List Char → Option Nat
  | 'u' :: cs => if (readHex4 cs).isSome then some 5 else none
  | c :: _ => if escapable.contains c then some 1 else none
  | [] => none

/-- The rest of a string behind its opening quote; `done` holds the characters so far, last
first. Every step consumes a character, so the length of the text bounds their number. -/
def readStringFrom (done : List Char) : Nat → List Char → Read (List Char)
  | 0, _ => none
  | _ + 1, [] => none
  | fuel + 1, c :: cs =>
    if c == '"' then some (done.reverse, cs)
    else if c == '\\' then
      match escapeLength? cs with
      | some n => readStringFrom ((cs.take n).reverse ++ c :: done) fuel (cs.drop n)
      | none => none
    else if c.toNat < 0x20 then none
    else readStringFrom (c :: done) fuel cs

/-! ## Numbers -/

/-- The whole part of a number: no zero stands before other digits. -/
def readWhole (cs : List Char) : Read (List Char) :=
  let (digits, rest) := spanDigits cs
  match digits with
  | [] => none
  | ['0'] => some (digits, rest)
  | '0' :: _ => none
  | _ => some (digits, rest)

/-- The fraction of a number with its point, if there is one. -/
def readFraction (cs : List Char) : Read (Option (List Char)) :=
  match cs with
  | '.' :: rest =>
    let (digits, rest) := spanDigits rest
    if digits.isEmpty then none else some (some digits, rest)
  | _ => some (none, cs)

/-- The exponent of a number, if there is one. -/
def readPower (cs : List Char) : Read (Option Int) :=
  match cs with
  | e :: rest =>
    if e == 'e' || e == 'E' then
      let (negative, rest) := match rest with
        | '-' :: rest => (true, rest)
        | '+' :: rest => (false, rest)
        | rest => (false, rest)
      let (digits, rest) := spanDigits rest
      if digits.isEmpty then none
      else
        let n : Int := digitsValue 10 digits
        some (some (if negative then -n else n), rest)
    else some (none, cs)
  | [] => some (none, cs)

/-- A number. -/
def readNumeral (cs : List Char) : Read Numeral :=
  let (negative, cs) := match cs with
    | '-' :: rest => (true, rest)
    | _ => (false, cs)
  match readWhole cs with
  | none => none
  | some (whole, rest) =>
    match readFraction rest with
    | none => none
    | some (fraction, rest) =>
      match readPower rest with
      | none => none
      | some (power, rest) => some (⟨negative, whole, fraction, power⟩, rest)

/-! ## Parts in parts -/

/-- The items of an array behind its opening bracket or a comma. -/
def readItems (readItem : List Char → Read Outline) (done : List Outline) :
    Nat → List Char → Read (List Outline)
  | 0, _ => none
  | fuel + 1, cs =>
    match readItem (skipSpace cs) with
    | none => none
    | some (item, rest) =>
      match skipSpace rest with
      | ',' :: rest => readItems readItem (item :: done) fuel rest
      | ']' :: rest => some ((item :: done).reverse, rest)
      | _ => none

/-- The name of a field with the colon behind it. -/
def readName (fuel : Nat) (cs : List Char) : Read (List Char) :=
  match expect? '"' (skipSpace cs) with
  | none => none
  | some rest =>
    match readStringFrom [] fuel rest with
    | none => none
    | some (name, rest) => (expect? ':' (skipSpace rest)).map (name, ·)

/-- The fields of an object behind its opening brace or a comma. -/
def readFields (readItem : List Char → Read Outline) (done : List (List Char × Outline)) :
    Nat → List Char → Read (List (List Char × Outline))
  | 0, _ => none
  | fuel + 1, cs =>
    match readName fuel cs with
    | none => none
    | some (name, rest) =>
      match readItem (skipSpace rest) with
      | none => none
      | some (value, rest) =>
        match skipSpace rest with
        | ',' :: rest => readFields readItem ((name, value) :: done) fuel rest
        | '\x7d' :: rest => some (((name, value) :: done).reverse, rest)
        | _ => none

/-- A word of the format. -/
def readWord (word : String) (value : Outline) (cs : List Char) : Read Outline :=
  if word.toList.isPrefixOf cs then some (value, cs.drop word.length) else none

/-- An outline. The text is at most `bound` long, so nothing in it nests deeper or has more parts:
whatever opens takes a character of its own. -/
def readOutline : Nat → List Char → Read Outline
  | bound, cs =>
    match cs with
    | '"' :: rest => (readStringFrom [] bound rest).map fun (s, rest) => (.string s, rest)
    | 'n' :: _ => readWord "null" .null cs
    | 't' :: _ => readWord "true" (.bool true) cs
    | 'f' :: _ => readWord "false" (.bool false) cs
    | '[' :: rest =>
      match bound with
      | 0 => none
      | bound + 1 =>
        match skipSpace rest with
        | ']' :: rest => some (.array [], rest)
        | rest => (readItems (readOutline bound) [] (bound + 1) rest).map
            fun (items, rest) => (.array items, rest)
    | '\x7b' :: rest =>
      match bound with
      | 0 => none
      | bound + 1 =>
        match skipSpace rest with
        | '\x7d' :: rest => some (.object [], rest)
        | rest => (readFields (readOutline bound) [] (bound + 1) rest).map
            fun (fields, rest) => (.object fields, rest)
    | _ => (readNumeral cs).map fun (n, rest) => (.number n, rest)

/-- The outline of a text, if it is well formed. -/
def Outline.ofText? (text : String) : Option Outline :=
  let cs := text.toList
  match readOutline cs.length (skipSpace cs) with
  | some (outline, rest) => if (skipSpace rest).isEmpty then some outline else none
  | none => none

end Json

end Stencil
