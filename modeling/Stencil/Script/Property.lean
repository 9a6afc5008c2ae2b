import Stencil.Text.Slice
import Stencil.Script.Comparison
import Stencil.Script.Machine

/-! # Members of values

Reading, setting and removing the members of a value.
-/
namespace Stencil.Script

/-- The method of a name among those of a type, read off its receiver. -/
def methodValue (receiver : Value) (methods : List (String × Method)) (key : String) : Value :=
  match methods.lookup key with
  | some method => .method receiver method
  | none => .undefined

/-- The member of a value that is not nullish. -/
def Heap.member (h : Heap) (owner : Value) (key : String) : Value :=
  match owner with
  | .array place =>
    let items := h.array place
    if key == "length" then .number (Float.ofNat items.size)
    else
      match readIndex? key with
      | some n => items.getD n .undefined
      | none => methodValue owner Method.ofArrays key
  | .string s =>
    if key == "length" then .number (Float.ofNat s.length)
    else
      match readIndex? key with
      | some n =>
        match (s.toList.drop n).head? with
        | some c => .string (String.singleton c)
        | none => .undefined
      | none => methodValue owner Method.ofStrings key
  | .number _ => methodValue owner Method.ofNumbers key
  | .object place => ((h.object place).get? key).getD .undefined
  | .function _ name => if key == "name" then .string (name.getD "") else .undefined
  | _ => .undefined

/-- Reads a member of a value. -/
def getMember (owner : Value) (key : String) (place : Nat) : Exec Value := do
  let h := (← get).heap
  if owner.isNullish then
    raise .typeError
      ("Cannot read properties of " ++ h.text owner ++ " (reading '" ++ key ++ "')") place
  else return h.member owner key

/-- The length that a number asks for, if an array can have it. -/
def arrayLength (x : Float) (place : Nat) : Exec Nat := do
  let b := Binary.ofFloat x
  let n := b.wholePart
  if !b.isWhole || (b.isNegative && n != 0) || maxArrayLength < n then
    raise .rangeError "Invalid array length" place
  else if maxDenseLength < n then
    raise .rangeError
      ("Array length " ++ n.repr ++ " exceeds the limit of " ++ maxDenseLength.repr) place
  else return n

/-- Cuts an array down or fills it up to a length. -/
def resize (items : Array Value) (length : Nat) : Array Value :=
  if length ≤ items.size then items.take length
  else items ++ Array.replicate (length - items.size) .undefined

/-- Sets a member of an array: its length or one of its items. -/
def setArrayMember (array : Nat) (key : String) (value : Value) (place : Nat) : Exec Unit := do
  if key == "length" then
    let n ← arrayLength (← numberOf value) place
    modify fun m => { m with heap := m.heap.modifyArray array (resize · n) }
  else
    match readIndex? key with
    | some n =>
      let _ ← arrayLength (Float.ofNat n + 1.0) place
      modify fun m => { m with
        heap := m.heap.modifyArray array fun items =>
          (resize items (max items.size (n + 1))).setIfInBounds n value }
    | none => return

/-- Sets a member of a value. Values that have no members of their own are left alone. -/
def setMember (owner : Value) (key : String) (value : Value) (place : Nat) : Exec Unit := do
  match owner with
  | .object object =>
    modify fun m => { m with heap := m.heap.modifyObject object (Fields.set key value) }
  | .array array => setArrayMember array key value place
  | _ =>
    if owner.isNullish then
      let text ← textOf owner
      raise .typeError
        ("Cannot set properties of " ++ text ++ " (setting '" ++ key ++ "')") place

/-- Removes a member of an object. -/
def eraseMember (owner : Value) (key : String) : Exec Unit := do
  match owner with
  | .object object =>
    modify fun m => { m with heap := m.heap.modifyObject object fun fields => fields.erase key }
  | _ => return

/-- The names of the members of a value. -/
def keysOf (v : Value) : Exec (List String) := do return (← get).heap.ownKeys v

/-- The characters of a source in a span. -/
def sourceText (source : List Char) (span : Span) : List Char :=
  (source.drop span.start).take (span.stop - span.start)

/-- The values that a value goes through: the items of an array or the characters of a string. -/
def iterate (source : List Char) (v : Value) (span : Span) : Exec (List Value) := do
  match v with
  | .array place => return (← itemsOf place).toList
  | .string s => return s.toList.map fun c => .string (String.singleton c)
  | _ =>
    let text := String.ofList (trimChars (sourceText source span))
    raise .typeError (text ++ " is not iterable") span.start

end Stencil.Script
