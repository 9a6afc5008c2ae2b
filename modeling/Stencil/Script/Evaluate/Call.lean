import Stencil.Text.Casing
import Stencil.Text.Escape
import Stencil.Text.Search
import Stencil.Json.Printer
import Stencil.Script.Evaluate.Task

/-! # Calls

What happens when a function of the script, a function of all scripts or a method is called.
-/
namespace Stencil.Script

/-- The argument at an index, or `undefined` where there are too few. -/
def argument (values : List Value) (n : Nat) : Value := (values[n]?).getD .undefined

/-! ## Functions of all scripts -/

/-- The greatest of two numbers; not a number if one of them is not. -/
def greaterDouble (x y : Float) : Float :=
  if x.isNaN || y.isNaN then 0.0 / 0.0 else if x < y then y else x

/-- The least of two numbers; not a number if one of them is not. -/
def lesserDouble (x y : Float) : Float :=
  if x.isNaN || y.isNaN then 0.0 / 0.0 else if y < x then y else x

/-- The text that markup shows for a value: the JSON form of arrays and objects. -/
def markupText (v : Value) : Exec String := do
  let h := (← get).heap
  match v with
  | .array _ | .object _ => return ((h.json? v).map Json.compact).getD ""
  | _ => return h.text v

/-- The JSON text of a value, on several lines if the third argument is a positive number. -/
def jsonText (values : List Value) : Exec Value := do
  let h := (← get).heap
  match h.json? (argument values 0) with
  | none => return .undefined
  | some json =>
    if 0.0 < h.number (argument values 2) then return .string (json.pretty 0)
    else return .string json.compact

/-- Calls a function of all scripts. -/
def callNative (f : Native) (values : List Value) : Exec Value := do
  let first := argument values 0
  match f with
  | .write =>
    unless values.isEmpty do write (← textOf first)
    return .undefined
  | .writeLine =>
    unless values.isEmpty do write (← textOf first)
    write "\n"
    return .undefined
  | .writeMarkup =>
    write (escapeMarkup (← markupText first))
    return .undefined
  | .writeScript =>
    write (escapeScript (← textOf first))
    return .undefined
  | .escapeMarkup => return .string (escapeMarkup (← textOf first))
  | .escapeScript => return .string (escapeScript (← textOf first))
  | .jsonText => jsonText values
  | .string => if values.isEmpty then return .string "" else return .string (← textOf first)
  | .number => if values.isEmpty then return .number 0.0 else return .number (← numberOf first)
  | .boolean => return .boolean first.truthy
  | .isArray =>
    match first with
    | .array _ => return .boolean true
    | _ => return .boolean false
  | .objectKeys => newArray ((← keysOf first).map Value.string).toArray
  | .floor => return .number (floorDouble (← numberOf first))
  | .ceil => return .number (ceilDouble (← numberOf first))
  | .round => return .number (floorDouble ((← numberOf first) + 0.5))
  | .abs => return .number (← numberOf first).abs
  | .max =>
    let h := (← get).heap
    return .number ((values.map h.number).foldl greaterDouble (-(1.0 / 0.0)))
  | .min =>
    let h := (← get).heap
    return .number ((values.map h.number).foldl lesserDouble (1.0 / 0.0))
  | .error kind =>
    match first with
    | .undefined => newError kind ""
    | v => newError kind (← textOf v)

/-! ## Slices -/

/-- The bound of a slice of something of a length that a number stands for: one below zero counts
from the end. -/
def sliceBound (length : Nat) (x : Float) : Nat :=
  match Binary.ofFloat x with
  | .nan => 0
  | .infinite negative => if negative then 0 else length
  | .finite negative m q =>
    let n := (Binary.finite negative m q).wholePart
    if negative && m != 0 then length - n else min n length

/-- The bounds of a slice, the second one not below the first. -/
def Heap.sliceBounds (h : Heap) (length : Nat) (start stop : Value) : Nat × Nat :=
  let bound (v : Value) (otherwise : Nat) : Nat :=
    match v with
    | .undefined => otherwise
    | v => sliceBound length (h.number v)
  let first := bound start 0
  (first, max first (bound stop length))

/-! ## Methods -/

/-- Refuses a method that the receiver does not have. -/
def noMethod (receiver : Value) (place : Nat) : Exec Value :=
  raise .typeError (receiver.typeName ++ " method is not a function") place

namespace Runner

variable (r : Runner)

/-- Calls a function for each item of an array, and gives the items with the results; `done` holds
those so far. -/
def callEach (f receiver : Value) (place : Nat) (done : Array (Value × Value)) :
    List Value → Exec (Array (Value × Value))
  | [] => return done
  | item :: rest => do
    let result ← r.call f [item, .number (Float.ofNat done.size), receiver] place
    callEach f receiver place (done.push (item, result)) rest

/-- Calls the methods of arrays that call a function for each item. -/
def arrayTraversal (items : Array Value) (receiver : Value) (m : Method) (f : Value)
    (place : Nat) : Exec Value := do
  unless f.isCallable do
    raise .typeError ((← Script.textOf f) ++ " is not a function") place
  let results ← r.callEach f receiver place #[] items.toList
  match m with
  | .map => newArray (results.map (·.2))
  | .filter => newArray ((results.filter (·.2.truthy)).map (·.1))
  | _ => return .undefined

/-- Calls a method of an array. -/
def arrayMethod (array : Nat) (m : Method) (values : List Value) (place : Nat) : Exec Value := do
  let receiver := Value.array array
  match m with
  | .push =>
    modify fun s => { s with heap := s.heap.modifyArray array (· ++ values.toArray) }
    return .number (Float.ofNat (← itemsOf array).size)
  | .pop =>
    let last := ((← itemsOf array).back?).getD .undefined
    modify fun s => { s with heap := s.heap.modifyArray array Array.pop }
    return last
  | .join =>
    let h := (← get).heap
    let separator := match argument values 0 with
      | .undefined => ","
      | v => h.text v
    let parts := (h.array array).toList.map fun v => if v.isNullish then "" else h.text v
    return .string (separator.intercalate parts)
  | .map | .filter | .forEach =>
    r.arrayTraversal (← itemsOf array) receiver m (argument values 0) place
  | .includes =>
    let wanted := argument values 0
    return .boolean ((← itemsOf array).any (·.strictEquals wanted))
  | .indexOf =>
    let wanted := argument values 0
    match (← itemsOf array).findIdx? (·.strictEquals wanted) with
    | some n => return .number (Float.ofNat n)
    | none => return .number (-1.0)
  | .slice =>
    let h := (← get).heap
    let items := h.array array
    let (start, stop) := h.sliceBounds items.size (argument values 0) (argument values 1)
    newArray (items.extract start stop)
  | .concat =>
    let h := (← get).heap
    newArray <| values.foldl (fun done v =>
      match v with
      | .array more => done ++ h.array more
      | v => done.push v) (h.array array)
  | .reverse =>
    modify fun s => { s with heap := s.heap.modifyArray array Array.reverse }
    return receiver
  | .toString => return .string (← Script.textOf receiver)
  | _ => noMethod receiver place

/-- The text that `replace` puts in the place of `pattern`. -/
def replacement (f : Value) (pattern : String) (place : Nat) : Exec String := do
  if f.isCallable then Script.textOf (← r.call f [.string pattern] place)
  else Script.textOf f

/-- Repeats a string as often as a number says. -/
def repeated (s : String) (x : Float) (place : Nat) : Exec Value := do
  if x < 0.0 || x.isInf then
    raise .rangeError ("Invalid count value: " ++ numberText x) place
  else
    let count := min (Binary.ofFloat x).wholePart (Nat.pow 2 64 - 1)
    if maxStringLength < s.utf8ByteSize * count then
      raise .rangeError "Invalid string length" place
    else if s.isEmpty then return .string ""
    else return .string (String.join (List.replicate count s))

/-- Calls a method of a string. -/
def stringMethod (s : String) (m : Method) (values : List Value) (place : Nat) : Exec Value := do
  let first := argument values 0
  match m with
  | .toUpperCase => return .string (upperText s)
  | .toLowerCase => return .string (lowerText s)
  | .trim => return .string (trimText s)
  | .toString => return .string s
  | .split =>
    match first with
    | .undefined => newArray #[.string s]
    | v =>
      let separator ← Script.textOf v
      let parts := if separator.isEmpty then s.toList.map String.singleton
        else (splitPieces separator.toList s.toList).map String.ofList
      newArray (parts.map Value.string).toArray
  | .startsWith =>
    return .boolean (stripStart? (← Script.textOf first).toList s.toList).isSome
  | .endsWith => return .boolean (endsWithText (← Script.textOf first).toList s.toList)
  | .includes => return .boolean (occursIn (← Script.textOf first).toList s.toList)
  | .indexOf =>
    match splitFirst? (← Script.textOf first).toList s.toList with
    | some (before, _) => return .number (Float.ofNat before.length)
    | none => return .number (-1.0)
  | .slice =>
    let (start, stop) := (← get).heap.sliceBounds s.length first (argument values 1)
    return .string (String.ofList ((s.toList.drop start).take (stop - start)))
  | .replace =>
    let pattern ← Script.textOf first
    match splitFirst? pattern.toList s.toList with
    | some (before, behind) =>
      let middle ← r.replacement (argument values 1) pattern place
      return .string (String.ofList before ++ middle ++ String.ofList behind)
    | none => return .string s
  | .repeat => repeated s (← numberOf first) place
  | .concat =>
    let h := (← get).heap
    return .string (String.join (s :: values.map h.text))
  | _ => noMethod (.string s) place

/-- Calls a method of a number. -/
def numberMethod (x : Float) (m : Method) (values : List Value) (place : Nat) : Exec Value := do
  match m with
  | .toString => return .string (numberText x)
  | .toFixed =>
    let places := match Binary.ofFloat (← numberOf (argument values 0)) with
      | .infinite false => 100
      | .finite false m q => min 100 (Binary.finite false m q).wholePart
      | _ => 0
    return .string (fixedText x places)
  | _ => noMethod (.number x) place

/-- Calls a method. -/
def callMethod (receiver : Value) (m : Method) (values : List Value) (place : Nat) : Exec Value :=
  match receiver with
  | .array array => r.arrayMethod array m values place
  | .string s => r.stringMethod s m values place
  | .number x => numberMethod x m values place
  | _ => noMethod receiver place

end Runner

end Stencil.Script
