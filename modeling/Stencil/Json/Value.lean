/-! # Values of the data format

The data that goes into a rendering and comes out of `JSON.stringify`. Numbers are kept as whole
numbers where they are written without a fraction, and objects as lists of fields.
-/
namespace Stencil

/-- A value of the data format. -/
inductive Json
  | null
  | bool (value : Bool)
  | int (value : Int)
  | float (value : Float)
  | string (value : String)
  | array (items : List Json)
  | object (fields : List (String × Json))
  deriving Inhabited

namespace Json

/-- The last field of each name, in ascending order of names. -/
def sortFields {α : Type} (fields : List (String × α)) : List (String × α) :=
  let sorted := fields.mergeSort fun a b => !(b.1 < a.1)
  let kept := sorted.foldl (fun (acc : List (String × α)) field =>
    match acc with
    | last :: rest => if last.1 == field.1 then field :: rest else field :: acc
    | [] => [field]) []
  kept.reverse

/-- The field of a name; the first one counts. -/
def field? (name : String) : Json → Option Json
  | object fields => (fields.find? (·.1 == name)).map (·.2)
  | _ => none

mutual

/-- The value with the fields of all objects in ascending order and the last of each name kept. -/
def canonical : Json → Json
  | array items => array (canonicalItems items)
  | object fields => object (sortFields (canonicalFields fields))
  | value => value

/-- `canonical` on every item. -/
def canonicalItems : List Json → List Json
  | [] => []
  | item :: rest => canonical item :: canonicalItems rest

/-- `canonical` on the value of every field. -/
def canonicalFields : List (String × Json) → List (String × Json)
  | [] => []
  | (name, value) :: rest => (name, canonical value) :: canonicalFields rest

end

end Json

end Stencil
