import Stencil.Script.Value

/-! # Scopes

The scopes of a run form a forest in which every scope but the first is made inside an older one.
Names are looked up from a scope outward.
-/
namespace Stencil.Script

/-- The value of a name, and whether it is fixed. -/
structure Binding where
  value : Value
  constant : Bool
  deriving Inhabited

/-- A scope: its names, the scope around it, and whether it takes the variables that are declared
with `var`. -/
structure Scope where
  bindings : List (String × Binding)
  parent : Option Nat
  isFunction : Bool
  deriving Inhabited

/-- Sets a name in a list of names; a new one comes first. -/
def bindName (name : String) (binding : Binding) (bindings : List (String × Binding)) :
    List (String × Binding) :=
  if bindings.any (·.1 == name) then
    bindings.map fun b => if b.1 == name then (b.1, binding) else b
  else (name, binding) :: bindings

/-- The scopes of a run, each at its place. -/
abbrev Scopes := Array Scope

namespace Scopes

/-- The place of the scope around all others. -/
def globalPlace : Nat := 0

/-- The scopes of a run that has not entered anything. -/
def initial : Scopes := #[⟨[], none, true⟩]

/-- The names of the scope at a place. -/
def bindings (scopes : Scopes) (place : Nat) : List (String × Binding) :=
  (scopes.getD place default).bindings

/-- The place of the scope around the one at a place, which is an older one. -/
def parent? (scopes : Scopes) (place : Nat) : Option Nat :=
  match scopes[place]? with
  | some scope => scope.parent.filter (· < place)
  | none => none

theorem parent?_lt {scopes : Scopes} {place outer : Nat} (h : scopes.parent? place = some outer) :
    outer < place := by
  unfold parent? at h
  split at h
  · exact of_decide_eq_true (Option.filter_eq_some_iff.1 h).2
  · cases h

/-- Makes a scope inside the one at `parent`. -/
def child (scopes : Scopes) (parent : Nat) (isFunction : Bool) : Nat × Scopes :=
  (scopes.size, scopes.push ⟨[], some parent, isFunction⟩)

/-- Sets a name in the scope at a place. -/
def declare (scopes : Scopes) (place : Nat) (name : String) (value : Value) (constant : Bool) :
    Scopes :=
  scopes.modify place fun s => { s with bindings := bindName name ⟨value, constant⟩ s.bindings }

/-- Whether the scope at a place has a name of its own. -/
def hasLocal (scopes : Scopes) (place : Nat) (name : String) : Bool :=
  (scopes.bindings place).any (·.1 == name)

/-- The scope in which a name is found from a place, and what it is bound to. -/
def find? (scopes : Scopes) (place : Nat) (name : String) : Option (Nat × Binding) :=
  match (scopes.bindings place).lookup name with
  | some binding => some (place, binding)
  | none =>
    match _h : scopes.parent? place with
    | some outer => scopes.find? outer name
    | none => none
termination_by place
decreasing_by exact parent?_lt _h

/-- The value of a name, seen from a place. -/
def lookup (scopes : Scopes) (place : Nat) (name : String) : Option Value :=
  (scopes.find? place name).map (·.2.value)

/-- Why a name cannot be assigned. -/
inductive AssignError
  | undeclared
  | constant
  deriving DecidableEq, Repr

/-- The scope whose name an assignment from a place changes. -/
def assignable (scopes : Scopes) (place : Nat) (name : String) : Except AssignError Nat :=
  match scopes.find? place name with
  | some (owner, binding) => if binding.constant then .error .constant else .ok owner
  | none => .error .undeclared

/-- The nearest scope that takes the variables declared with `var`. -/
def variablePlace (scopes : Scopes) (place : Nat) : Nat :=
  if (scopes.getD place default).isFunction then place
  else
    match _h : scopes.parent? place with
    | some outer => scopes.variablePlace outer
    | none => place
termination_by place
decreasing_by exact parent?_lt _h

end Scopes

end Stencil.Script
