/-! # Searching texts

The first occurrence of one text in another, and the pieces between all occurrences that do not
overlap. The empty text occurs at the start of every text.
-/
namespace Stencil

/-- What follows `needle` in a text that begins with it. -/
def stripStart? : List Char → List Char → Option (List Char)
  | [], cs => some cs
  | _ :: _, [] => none
  | n :: needle, c :: cs => if n = c then stripStart? needle cs else none

/-- The text around the first occurrence of `needle`; `before` holds the characters already
passed, last first. -/
def splitFirstFrom? (needle : List Char) (before : List Char) :
    List Char → Option (List Char × List Char)
  | [] => if needle.isEmpty then some (before.reverse, []) else none
  | c :: cs =>
    match stripStart? needle (c :: cs) with
    | some behind => some (before.reverse, behind)
    | none => splitFirstFrom? needle (c :: before) cs

/-- The text before and behind the first occurrence of `needle`. -/
def splitFirst? (needle cs : List Char) : Option (List Char × List Char) :=
  splitFirstFrom? needle [] cs

/-- The pieces of a text between the occurrences of `needle`, found from left to right without
overlap. `piece` holds the characters of the open piece, last first, and `skip` counts the
characters of an occurrence still to be passed. -/
def piecesFrom (needle : List Char) : Nat → List Char → List (List Char) → List Char →
    List (List Char)
  | _, piece, done, [] => (piece.reverse :: done).reverse
  | skip + 1, piece, done, _ :: cs => piecesFrom needle skip piece done cs
  | 0, piece, done, c :: cs =>
    match stripStart? needle (c :: cs) with
    | some _ => piecesFrom needle (needle.length - 1) [] (piece.reverse :: done) cs
    | none => piecesFrom needle 0 (c :: piece) done cs

/-- The pieces of a text between the occurrences of a `needle` that is not empty. -/
def splitPieces (needle cs : List Char) : List (List Char) :=
  piecesFrom needle 0 [] [] cs

/-- Whether `needle` occurs in the text. -/
def occursIn (needle cs : List Char) : Bool :=
  (splitFirst? needle cs).isSome

/-- Whether the text ends with `needle`. -/
def endsWithText (needle cs : List Char) : Bool :=
  (stripStart? needle.reverse cs.reverse).isSome

end Stencil
