import Stencil.Text.Blank
import Stencil.Script.Tree
import Stencil.Script.Heap
import Stencil.Script.Scope

/-! # Machines

The state of a run of a script, and the steps that change it: making arrays, objects, functions and
scopes, writing, looking at the clock, and throwing. A step that stops keeps the state it stopped
in, so that handlers see all changes made before.
-/
namespace Stencil.Script

/-- How often a run may still look at the clock before its time is over; without a number it is
never over. -/
structure Clock where
  looksLeft : Option Nat
  deriving DecidableEq, Repr, Inhabited

/-- A function with the scope that it was made in. -/
structure Closure where
  parameters : List Pattern
  body : List Stmt
  scope : Nat
  deriving Inhabited

/-- The state of a run. -/
structure Machine where
  scopes : Scopes
  heap : Heap
  closures : Array Closure
  output : String
  /-- How many functions of the script are running inside each other. -/
  depth : Nat
  clock : Clock
  deriving Inhabited

/-- Why a run stops. Only what is thrown can be caught. -/
inductive Abort
  /-- A value was thrown by what stands at a place in the source. -/
  | throw (value : Value) (place : Nat)
  /-- The time is over. -/
  | timeout
  /-- The bound on the number of steps was too small for the run. -/
  | exhausted
  deriving Repr, Inhabited

/-- A step of a run. -/
abbrev Exec (α : Type) := EStateM Abort Machine α

/-- How a statement ends. -/
inductive Flow
  | normal
  | break
  | continue
  | return (value : Value)
  deriving Repr, Inhabited

/-- Functions nested deeper than this are not entered. -/
def maxDepth : Nat := 128

/-- The greatest length that an array can have at all. -/
def maxArrayLength : Nat := 4294967295

/-- The greatest length that an array is given room for. -/
def maxDenseLength : Nat := 16777216

/-- The greatest length of a string in bytes. -/
def maxStringLength : Nat := 536870912

namespace Machine

/-- The machine of a run that has not begun. -/
def start (clock : Clock) : Machine :=
  { scopes := .initial, heap := .empty, closures := #[], output := "", depth := 0, clock }

end Machine

/-! ## Making things -/

/-- Makes an array. -/
def newArray (items : Array Value) : Exec Value :=
  modifyGet fun m =>
    let (v, heap) := m.heap.newArray items
    (v, { m with heap })

/-- Makes an object. -/
def newObject (fields : Fields) : Exec Value :=
  modifyGet fun m =>
    let (v, heap) := m.heap.newObject fields
    (v, { m with heap })

/-- Makes an error object. -/
def newError (kind : ErrorKind) (message : String) : Exec Value :=
  newObject [("name", .string kind.name), ("message", .string message)]

/-- Makes a function. -/
def newFunction (name : Option String) (closure : Closure) : Exec Value :=
  modifyGet fun m =>
    (.function m.closures.size name, { m with closures := m.closures.push closure })

/-- Makes a scope inside another one. -/
def newScope (parent : Nat) (isFunction : Bool) : Exec Nat :=
  modifyGet fun m =>
    let (place, scopes) := m.scopes.child parent isFunction
    (place, { m with scopes })

/-- Sets a name in a scope. -/
def declare (scope : Nat) (name : String) (value : Value) (constant : Bool) : Exec Unit :=
  modify fun m => { m with scopes := m.scopes.declare scope name value constant }

/-- Writes a text. -/
def write (text : String) : Exec Unit := modify fun m => { m with output := m.output ++ text }

/-! ## Stopping -/

/-- Throws an error of a kind from a place in the source. -/
def raise {α : Type} (kind : ErrorKind) (message : String) (place : Nat) : Exec α := do
  throw (.throw (← newError kind message) place)

/-- Looks at the clock, and stops if the time is over. -/
def tick : Exec Unit := do
  match (← get).clock.looksLeft with
  | none => return
  | some 0 => throw .timeout
  | some (n + 1) => modify fun m => { m with clock := ⟨some n⟩ }

/-! ## Reading values -/

/-- The text of a value. -/
def textOf (v : Value) : Exec String := do return (← get).heap.text v

/-- The number of a value. -/
def numberOf (v : Value) : Exec Float := do return (← get).heap.number v

/-- The items of the array at a place. -/
def itemsOf (place : Nat) : Exec (Array Value) := do return (← get).heap.array place

/-! ## Names -/

/-- The value of a name that is read at a place in the source. -/
def readVariable (scope : Nat) (name : String) (place : Nat) : Exec Value := do
  match (← get).scopes.lookup scope name with
  | some v => return v
  | none => raise .referenceError (name ++ " is not defined") place

/-- Gives a name a new value. A name that is not declared is set in the scope around all others. -/
def assignVariable (scope : Nat) (name : String) (value : Value) (place : Nat) : Exec Unit := do
  match (← get).scopes.assignable scope name with
  | .ok owner => declare owner name value false
  | .error .undeclared => declare Scopes.globalPlace name value false
  | .error .constant => raise .typeError "Assignment to constant variable." place

end Stencil.Script
