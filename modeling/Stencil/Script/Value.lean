/-! # Values of scripts

What the expressions of a script evaluate to. Arrays and objects are places in a heap, so that two
names can share one of them; functions are places among the closures that a run has made.
-/
namespace Stencil.Script

/-- The kinds of errors that scripts make and throw. -/
inductive ErrorKind
  | error
  | typeError
  | referenceError
  | rangeError
  | syntaxError
  deriving DecidableEq, Repr, Inhabited

/-- The name of a kind of errors. -/
def ErrorKind.name : ErrorKind → String
  | .error => "Error"
  | .typeError => "TypeError"
  | .referenceError => "ReferenceError"
  | .rangeError => "RangeError"
  | .syntaxError => "SyntaxError"

/-- The functions that every script has. -/
inductive Native
  | write
  | writeLine
  | writeMarkup
  | writeScript
  | escapeMarkup
  | escapeScript
  | jsonText
  | string
  | number
  | boolean
  | isArray
  | objectKeys
  | floor
  | ceil
  | round
  | abs
  | max
  | min
  /-- Makes an error. -/
  | error (kind : ErrorKind)
  deriving DecidableEq, Repr, Inhabited

/-- The methods of arrays, strings and numbers. -/
inductive Method
  | push
  | pop
  | join
  | map
  | filter
  | forEach
  | includes
  | indexOf
  | slice
  | concat
  | reverse
  | toUpperCase
  | toLowerCase
  | trim
  | split
  | startsWith
  | endsWith
  | replace
  | repeat
  | toString
  | toFixed
  deriving DecidableEq, Repr, Inhabited

namespace Method

/-- The methods of arrays by their names. -/
def ofArrays : List (String × Method) := [
  ("push", push), ("pop", pop), ("join", join), ("map", map), ("filter", filter),
  ("forEach", forEach), ("includes", includes), ("indexOf", indexOf), ("slice", slice),
  ("concat", concat), ("reverse", reverse), ("toString", toString)]

/-- The methods of strings by their names. -/
def ofStrings : List (String × Method) := [
  ("toUpperCase", toUpperCase), ("toLowerCase", toLowerCase), ("trim", trim), ("split", split),
  ("startsWith", startsWith), ("endsWith", endsWith), ("includes", includes),
  ("indexOf", indexOf), ("slice", slice), ("replace", replace), ("repeat", .repeat),
  ("concat", concat), ("toString", toString)]

/-- The methods of numbers by their names. -/
def ofNumbers : List (String × Method) := [("toString", toString), ("toFixed", toFixed)]

end Method

/-- A value. -/
inductive Value
  | undefined
  | null
  | boolean (value : Bool)
  | number (value : Float)
  | string (value : String)
  | array (place : Nat)
  | object (place : Nat)
  | function (place : Nat) (name : Option String)
  | native (function : Native)
  /-- A method that was read off the value it belongs to. -/
  | method (receiver : Value) (method : Method)
  deriving Repr, Inhabited

namespace Value

/-- Whether a value is one of the two that stand for nothing. -/
def isNullish : Value → Bool
  | undefined | null => true
  | _ => false

/-- Whether a value can be called. -/
def isCallable : Value → Bool
  | function _ _ | native _ | method _ _ => true
  | _ => false

/-- Whether a value counts as true in a condition. -/
def truthy : Value → Bool
  | undefined | null => false
  | boolean b => b
  | number x => x != 0 && !x.isNaN
  | string s => !s.isEmpty
  | _ => true

/-- The name of the type of a value. -/
def typeName : Value → String
  | undefined => "undefined"
  | null | array _ | object _ => "object"
  | boolean _ => "boolean"
  | number _ => "number"
  | string _ => "string"
  | function _ _ | native _ | method _ _ => "function"

/-- Whether adding the value to another such value adds numbers. -/
def addsAsNumber : Value → Bool
  | undefined | null | boolean _ | number _ => true
  | _ => false

end Value

end Stencil.Script
