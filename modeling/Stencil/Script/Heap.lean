import Stencil.Number.Decimal
import Stencil.Number.Read
import Stencil.Json.Value
import Stencil.Script.Value

/-! # Arrays and objects

The heap of a run holds its arrays and objects, and gives the text, the number and the JSON form of
every value. The fields of an object keep the order in which they were first set.
-/
namespace Stencil.Script

/-- The fields of an object in their order. -/
abbrev Fields := List (String × Value)

namespace Fields

/-- The value of a field. -/
def get? (fields : Fields) (key : String) : Option Value := fields.lookup key

/-- Sets a field: a new one comes last. -/
def set (key : String) (value : Value) : Fields → Fields
  | [] => [(key, value)]
  | (k, v) :: rest => if k == key then (k, value) :: rest else (k, v) :: set key value rest

/-- Removes a field. -/
def erase (fields : Fields) (key : String) : Fields := fields.filter fun f => f.1 != key

/-- The names of the fields in their order. -/
def keys (fields : Fields) : List String := fields.map (·.1)

end Fields

/-- The arrays and objects of a run, each at its place. -/
structure Heap where
  arrays : Array (Array Value)
  objects : Array Fields
  deriving Inhabited

namespace Heap

/-- The heap of a run that has not made anything. -/
def empty : Heap := ⟨#[], #[]⟩

/-- The array at a place. -/
def array (h : Heap) (place : Nat) : Array Value := h.arrays.getD place #[]

/-- The object at a place. -/
def object (h : Heap) (place : Nat) : Fields := h.objects.getD place []

/-- Makes an array. -/
def newArray (h : Heap) (items : Array Value) : Value × Heap :=
  (.array h.arrays.size, { h with arrays := h.arrays.push items })

/-- Makes an object. -/
def newObject (h : Heap) (fields : Fields) : Value × Heap :=
  (.object h.objects.size, { h with objects := h.objects.push fields })

/-- Changes the array at a place. -/
def modifyArray (h : Heap) (place : Nat) (change : Array Value → Array Value) : Heap :=
  { h with arrays := h.arrays.modify place change }

/-- Changes the object at a place. -/
def modifyObject (h : Heap) (place : Nat) (change : Fields → Fields) : Heap :=
  { h with objects := h.objects.modify place change }

/-- The number of arrays and objects, which bounds how deep a value that does not hold itself can
be nested. -/
def size (h : Heap) : Nat := h.arrays.size + h.objects.size

/-! ## Texts -/

/-- The name and the message of an object that has both. -/
def errorParts? (h : Heap) : Value → Option (Value × Value)
  | .object place => do
    let fields := h.object place
    return (← fields.get? "name", ← fields.get? "message")
  | _ => none

/-- The text of a value that is nested at most `depth` deep. -/
def textWithin (h : Heap) : Nat → Value → String
  | 0, _ => ""
  | depth + 1, v =>
    match v with
    | .undefined => "undefined"
    | .null => "null"
    | .boolean b => if b then "true" else "false"
    | .number x => numberText x
    | .string s => s
    | .array place =>
      ",".intercalate <| (h.array place).toList.map fun item =>
        if item.isNullish then "" else h.textWithin depth item
    | .object _ =>
      match h.errorParts? v with
      | some (name, message) => h.textWithin depth name ++ ": " ++ h.textWithin depth message
      | none => "[object Object]"
    | .function _ (some name) => "function " ++ name ++ "() \x7b [code] \x7d"
    | .function _ none => "function () \x7b [code] \x7d"
    | .native _ => "function () \x7b [native code] \x7d"
    | .method _ _ => "function () \x7b [native code] \x7d"

/-- The text of a value. -/
def text (h : Heap) (v : Value) : String := h.textWithin (h.size + 1) v

/-! ## Numbers -/

/-- The number of a value that is nested at most `depth` deep. An array with one item has the
number of that item. -/
def numberWithin (h : Heap) : Nat → Value → Float
  | 0, _ => 0.0 / 0.0
  | depth + 1, v =>
    match v with
    | .undefined => 0.0 / 0.0
    | .null => 0.0
    | .boolean b => if b then 1.0 else 0.0
    | .number x => x
    | .string s => textNumber s
    | .array place =>
      let items := h.array place
      if items.isEmpty then 0.0
      else if items.size == 1 then h.numberWithin depth (items.getD 0 .undefined)
      else 0.0 / 0.0
    | _ => 0.0 / 0.0

/-- The number of a value. -/
def number (h : Heap) (v : Value) : Float := h.numberWithin (h.size + 1) v

/-! ## JSON -/

/-- The JSON form of a number. Whole numbers below `2 ^ 53` are written without a point; what is
not finite is null. -/
def numberJson (x : Float) : Json :=
  let b := Binary.ofFloat x
  match b with
  | .finite _ _ _ =>
    if b.isWhole && b.wholePart < Nat.pow 2 53 then .int b.truncated else .float x
  | _ => .null

/-- The JSON form of a value that is nested at most `depth` deep; functions and `undefined` have
none. Inside an array they become null, inside an object they are left out. -/
def jsonWithin (h : Heap) : Nat → Value → Option Json
  | 0, _ => none
  | depth + 1, v =>
    match v with
    | .null => some .null
    | .boolean b => some (.bool b)
    | .number x => some (numberJson x)
    | .string s => some (.string s)
    | .array place =>
      some (.array ((h.array place).toList.map fun item => (h.jsonWithin depth item).getD .null))
    | .object place =>
      let fields := (h.object place).filterMap fun (key, item) =>
        (h.jsonWithin depth item).map (key, ·)
      some (.object (Json.sortFields fields))
    | _ => none

/-- The JSON form of a value. -/
def json? (h : Heap) (v : Value) : Option Json := h.jsonWithin (h.size + 1) v

mutual

/-- Makes the value that a JSON value describes. -/
def ofJson (h : Heap) : Json → Value × Heap
  | .null => (.null, h)
  | .bool b => (.boolean b, h)
  | .int n => (.number (Float.ofInt n), h)
  | .float x => (.number x, h)
  | .string s => (.string s, h)
  | .array items =>
    let (values, h) := ofJsonItems h items
    h.newArray values.toArray
  | .object fields =>
    let (fields, h) := ofJsonFields h fields
    h.newObject (fields.foldl (fun done (key, v) => done.set key v) [])

/-- Makes the values that JSON values describe. -/
def ofJsonItems (h : Heap) : List Json → List Value × Heap
  | [] => ([], h)
  | item :: rest =>
    let (v, h) := ofJson h item
    let (values, h) := ofJsonItems h rest
    (v :: values, h)

/-- Makes the values of JSON fields. -/
def ofJsonFields (h : Heap) : List (String × Json) → List (String × Value) × Heap
  | [] => ([], h)
  | (key, item) :: rest =>
    let (v, h) := ofJson h item
    let (fields, h) := ofJsonFields h rest
    ((key, v) :: fields, h)

end

/-! ## Keys -/

/-- The names under which the parts of a value are found. -/
def ownKeys (h : Heap) : Value → List String
  | .object place => (h.object place).keys
  | .array place => (List.range (h.array place).size).map (fun n => (n.repr))
  | .string s => (List.range s.length).map (fun n => (n.repr))
  | _ => []

end Heap

end Stencil.Script
