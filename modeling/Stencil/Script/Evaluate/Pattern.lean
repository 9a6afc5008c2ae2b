import Stencil.Script.Evaluate.Task

/-! # Binding names

Takes a value apart by a pattern, and sets each name in the pattern to its part.
-/
namespace Stencil.Script

namespace Runner

variable (r : Runner)

/-- Binds the fields of an object pattern, and gives their keys. -/
def bindFields (value : Value) (scope : Nat) (constant : Bool) (place : Nat) :
    List PatternField → Exec (List String)
  | [] => return []
  | .mk key p :: rest => do
    let name ← r.textOf key scope
    let part ← getMember value name place
    r.bind p part scope constant
    return name :: (← bindFields value scope constant place rest)

/-- Binds what the fields of an object pattern have left over. -/
def bindRest (rest : Pattern) (value : Value) (used : List String) (scope : Nat)
    (constant : Bool) : Exec Unit := do
  let keys := (← keysOf value).filter fun key => !used.contains key
  let h := (← get).heap
  let fields := keys.map fun key => (key, h.member value key)
  r.bind rest (← newObject fields) scope constant

/-- Binds the elements of an array pattern. -/
def bindElements (scope : Nat) (constant : Bool) : List Pattern → List Value → Exec Unit
  | [], _ => return ()
  | p :: rest, values => do
    r.bind p (values.head?.getD .undefined) scope constant
    bindElements scope constant rest values.tail

/-- One step of binding the names of a pattern. -/
def bindStep (p : Pattern) (value : Value) (scope : Nat) (constant : Bool) : Exec Unit := do
  match p with
  | .hole => return
  | .name _ name => declare scope name value constant
  | .object span fields rest =>
    if value.isNullish then
      let text ← Script.textOf value
      raise .typeError
        ("Cannot destructure '" ++ text ++ "' as it is " ++ text ++ ".") span.start
    let used ← r.bindFields value scope constant span.start fields
    match rest with
    | .hole => return
    | rest => r.bindRest rest value used scope constant
  | .array span elements rest =>
    let items ← iterate r.source value span
    r.bindElements scope constant elements items
    match rest with
    | .hole => return
    | rest =>
      r.bind rest (← newArray (items.drop elements.length).toArray) scope constant
  | .fallback _ p e =>
    match value with
    | .undefined => r.bind p (← r.expression e scope) scope constant
    | value => r.bind p value scope constant

end Runner

end Stencil.Script
