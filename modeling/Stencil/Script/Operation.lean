import Stencil.Number.Rounding
import Stencil.Script.Property

/-! # Operators on values

What the operators between two operands and before one make of their operands.
-/
namespace Stencil.Script

/-- The operator on numbers that a binary operator is. -/
def BinaryOp.arithmetic? : BinaryOp → Option (Float → Float → Float)
  | .subtract => some fun x y => x - y
  | .multiply => some fun x y => x * y
  | .divide => some fun x y => x / y
  | .remainder => some remainderDouble
  | .power => some Float.pow
  | .bitAnd => some fun x y => signedWord (wordOf x &&& wordOf y)
  | .bitOr => some fun x y => signedWord (wordOf x ||| wordOf y)
  | .bitXor => some fun x y => signedWord (wordOf x ^^^ wordOf y)
  | .shiftLeft => some fun x y => signedWord (wordOf x <<< shiftAmount (wordOf y))
  | .shiftRight => some fun x y => signedWord ((wordOf x).sshiftRight (shiftAmount (wordOf y)))
  | .shiftRightZero => some fun x y => unsignedWord (wordOf x >>> shiftAmount (wordOf y))
  | _ => none

/-- The order that a binary operator asks for. -/
def BinaryOp.holds? : BinaryOp → Option (Ordering → Bool)
  | .less => some Ordering.isLT
  | .lessEqual => some Ordering.isLE
  | .greater => some Ordering.isGT
  | .greaterEqual => some Ordering.isGE
  | _ => none

/-- Whether a value is an error of a kind: an object with a message and the name of the kind.
Every error is one of the most general kind. -/
def Heap.isErrorOf (h : Heap) (v : Value) (kind : ErrorKind) : Bool :=
  match h.errorParts? v with
  | some (.string name, _) => kind == .error || name == kind.name
  | _ => false

/-- The sum of two values: of numbers if both add as numbers, else of texts. -/
def addValues (a b : Value) (place : Nat) : Exec Value := do
  let h := (← get).heap
  if a.addsAsNumber && b.addsAsNumber then return .number (h.number a + h.number b)
  let s := h.text a
  let t := h.text b
  if maxStringLength < s.utf8ByteSize + t.utf8ByteSize then
    raise .rangeError "Invalid string length" place
  else return .string (s ++ t)

/-- Whether a value has a member of a name. -/
def hasMember (key owner : Value) (place : Nat) : Exec Value := do
  let h := (← get).heap
  let name := h.text key
  match owner with
  | .object object => return .boolean ((h.object object).get? name).isSome
  | .array array =>
    let inside := (readIndex? name).any fun n => n < (h.array array).size
    return .boolean (name == "length" || inside)
  | _ =>
    raise .typeError
      ("Cannot use 'in' operator to search for '" ++ name ++ "' in " ++ h.text owner) place

/-- Whether a value was made by a function. Only the functions that make errors own values. -/
def isInstance (v maker : Value) (place : Nat) : Exec Value := do
  match maker with
  | .native (.error kind) => return .boolean ((← get).heap.isErrorOf v kind)
  | _ =>
    if maker.isCallable then return .boolean false
    else raise .typeError "Right-hand side of 'instanceof' is not callable" place

/-- Joins two values by an operator. -/
def binaryValue (op : BinaryOp) (a b : Value) (place : Nat) : Exec Value := do
  match op with
  | .add => addValues a b place
  | .isIn => hasMember a b place
  | .instanceOf => isInstance a b place
  | .strictEqual => return .boolean (a.strictEquals b)
  | .strictUnequal => return .boolean (!a.strictEquals b)
  | .looseEqual => return .boolean ((← get).heap.looseEquals a b)
  | .looseUnequal => return .boolean (!(← get).heap.looseEquals a b)
  | op =>
    let h := (← get).heap
    match op.arithmetic?, op.holds? with
    | some f, _ => return .number (f (h.number a) (h.number b))
    | none, some test => return .boolean ((h.order? a b).any test)
    | none, none => return .undefined

/-- Whether a logical operator leaves its second operand alone, given the first. -/
def LogicalOp.isSettled (op : LogicalOp) (first : Value) : Bool :=
  match op with
  | .and => !first.truthy
  | .or => first.truthy
  | .coalesce => !first.isNullish

/-- Applies an operator to the value of its operand. -/
def unaryValue (op : UnaryOp) (v : Value) : Exec Value := do
  match op with
  | .not => return .boolean (!v.truthy)
  | .negate => return .number (-(← numberOf v))
  | .plus => return .number (← numberOf v)
  | .bitNot => return .number (signedWord (~~~(wordOf (← numberOf v))))
  | .typeOf => return .string v.typeName
  | .delete => return .boolean true
  | .void => return .undefined

end Stencil.Script
