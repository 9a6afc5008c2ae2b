import Stencil.Script.Run

/-! # Simple steps

Between its tasks evaluation reads variables and values, makes scopes, arrays and objects, changes
them, writes and throws.  A step that is put together from this alone is simple: it runs no
function, makes none and does not look at the clock.  What is true of each of these pieces, and of a
sequence if it is true of its parts, is true of every simple step, by induction.
-/
namespace Stencil.Script

/-- The variables and the values of a machine, and nothing else of it. -/
def Machine.bare (m : Machine) : Machine :=
  { Machine.start ⟨none⟩ with scopes := m.scopes, heap := m.heap }

@[simp] theorem Machine.scopes_bare (m : Machine) : m.bare.scopes = m.scopes := by
  cases m
  rfl

@[simp] theorem Machine.heap_bare (m : Machine) : m.bare.heap = m.heap := by
  cases m
  rfl

/-- The steps that are put together from reading and changing variables and values, from throwing at
allowed places, and from writing if they may write. -/
inductive Simple (allowed : Nat → Prop) (mayWrite : Prop) : {α : Type} → Exec α → Prop
  | pure {α : Type} (a : α) : Simple allowed mayWrite (pure a)
  | throw {α : Type} (value : Value) {place : Nat} (hplace : allowed place) :
    Simple allowed mayWrite (throw (.throw value place) : Exec α)
  | bind {α β : Type} {step : Exec α} {next : α → Exec β} (h : Simple allowed mayWrite step)
    (h' : ∀ a, Simple allowed mayWrite (next a)) : Simple allowed mayWrite (step >>= next)
  | get {α : Type} {next : Machine → Exec α} (hbare : ∀ m, next m.bare = next m)
    (h : ∀ m, Simple allowed mayWrite (next m)) : Simple allowed mayWrite (get >>= next)
  | heap {α : Type} (change : Heap → α × Heap) :
    Simple allowed mayWrite
      (modifyGet fun m => ((change m.heap).1, { m with heap := (change m.heap).2 }))
  | child (parent : Nat) (isFunction : Bool) :
    Simple allowed mayWrite (newScope parent isFunction)
  | declare (scope : Nat) (name : String) (value : Value) (constant : Bool) :
    Simple allowed mayWrite (declare scope name value constant)
  | write (hwrite : mayWrite) (text : String) : Simple allowed mayWrite (write text)

/-- Every place is allowed. -/
def AnyPlace (_ : Nat) : Prop := True

@[simp] theorem anyPlace {place : Nat} : AnyPlace place := trivial

attribute [simp] Simple.pure Simple.throw Simple.bind Simple.get Simple.child Simple.declare

variable {allowed : Nat → Prop} {mayWrite : Prop} {α β : Type}

@[simp] theorem Simple.map {step : Exec α} (f : α → β) (h : Simple allowed mayWrite step) :
    Simple allowed mayWrite (f <$> step) :=
  h.bind fun a => .pure (f a)

@[simp] theorem Simple.mapGet {f : Machine → α} (hbare : ∀ m, f m.bare = f m) :
    Simple allowed mayWrite (f <$> MonadState.get) :=
  .get (fun m => by rw [hbare]) fun m => .pure (f m)

@[simp] theorem Simple.ite {c : Prop} [Decidable c] {yes no : Exec α}
    (h : Simple allowed mayWrite yes) (h' : Simple allowed mayWrite no) :
    Simple allowed mayWrite (if c then yes else no) := by
  split
  · exact h
  · exact h'

/-- A loop over a list is simple if its rounds are. -/
theorem simple_forIn {list : List α} {round : α → PUnit → Exec (ForInStep PUnit)}
    (h : ∀ x, Simple allowed mayWrite (round x ⟨⟩)) :
    Simple allowed mayWrite (forIn list ⟨⟩ round) := by
  induction list with
  | nil => exact .pure _
  | cons x list ih =>
    rw [List.forIn_cons]
    refine (h x).bind fun result => ?_
    cases result with
    | done _ => exact .pure _
    | yield _ => exact ih

@[simp] theorem simple_modifyArray (array : Nat) (change : Array Value → Array Value) :
    Simple allowed mayWrite
      (modify fun m : Machine => { m with heap := m.heap.modifyArray array change }) :=
  .heap fun h => ((), h.modifyArray array change)

@[simp] theorem simple_modifyObject (object : Nat) (change : Fields → Fields) :
    Simple allowed mayWrite
      (modify fun m : Machine => { m with heap := m.heap.modifyObject object change }) :=
  .heap fun h => ((), h.modifyObject object change)

@[simp] theorem simple_newArray (items : Array Value) :
    Simple allowed mayWrite (newArray items) :=
  .heap fun h => h.newArray items

@[simp] theorem simple_newObject (fields : Fields) :
    Simple allowed mayWrite (newObject fields) :=
  .heap fun h => h.newObject fields

@[simp] theorem simple_newFromJson (json : Json) : Simple allowed mayWrite (newFromJson json) :=
  .heap fun h => h.ofJson json

@[simp] theorem simple_newError (kind : ErrorKind) (message : String) :
    Simple allowed mayWrite (newError kind message) :=
  simple_newObject _

@[simp] theorem simple_textOf (v : Value) : Simple allowed mayWrite (textOf v) :=
  .mapGet fun _ => rfl

@[simp] theorem simple_numberOf (v : Value) : Simple allowed mayWrite (numberOf v) :=
  .mapGet fun _ => rfl

@[simp] theorem simple_itemsOf (place : Nat) : Simple allowed mayWrite (itemsOf place) :=
  .mapGet fun _ => rfl

@[simp] theorem simple_keysOf (v : Value) : Simple allowed mayWrite (keysOf v) :=
  .mapGet fun _ => rfl

@[simp] theorem simple_eraseMember (owner : Value) (key : String) :
    Simple allowed mayWrite (eraseMember owner key) := by
  unfold eraseMember
  split
  · exact simple_modifyObject _ _
  · simp

@[simp] theorem simple_unaryValue (op : UnaryOp) (v : Value) :
    Simple allowed mayWrite (unaryValue op v) := by
  cases op <;> simp [unaryValue]

theorem simple_spreadFields (value : Value) (fields : Fields) :
    Simple allowed mayWrite (Runner.spreadFields value fields) :=
  (simple_keysOf value).bind fun _ => .get (fun _ => by simp) fun _ => .pure _

theorem simple_targetScope (kind : VariableKind) (scope : Nat) :
    Simple allowed mayWrite (Runner.targetScope kind scope) := by
  unfold Runner.targetScope
  split
  · exact .mapGet fun _ => by simp
  · exact .pure _

/-- Declaring variables ahead of a block makes no functions. -/
theorem simple_hoist (scope : Nat) (kind : VariableKind) (declarators : List Declarator) :
    Simple allowed mayWrite (hoist scope (.variables kind declarators)) := by
  cases kind with
  | var =>
    refine .get (fun _ => by simp) fun m => (simple_forIn fun d => ?_).bind fun _ => .pure _
    split
    · refine .get (fun _ => by simp) fun m => ?_
      split <;> simp
    · exact .pure _
  | «let» | const => exact .pure _

theorem simple_install (globals : Globals) : Simple allowed mayWrite (install globals) := by
  unfold install
  refine .bind (simple_forIn fun p => by simp) fun _ => ?_
  refine .bind (simple_forIn fun p => by simp) fun _ => ?_
  refine .bind (simple_forIn fun p => by simp) fun _ => ?_
  refine .bind (.declare _ _ _ _) fun _ => ?_
  split
  · exact (simple_forIn fun p => by simp).bind fun _ => .pure _
  · exact .pure _

/-! ## Steps that may throw -/

section

variable {place : Nat} (hplace : allowed place)
include hplace

@[simp] theorem simple_raise (kind : ErrorKind) (message : String) :
    Simple allowed mayWrite (raise kind message place : Exec α) := by
  simp [raise, hplace]

@[simp] theorem simple_readVariable (scope : Nat) (name : String) :
    Simple allowed mayWrite (readVariable scope name place) := by
  refine .get (fun _ => rfl) fun m => ?_
  split <;> simp [hplace]

@[simp] theorem simple_assignVariable (scope : Nat) (name : String) (value : Value) :
    Simple allowed mayWrite (assignVariable scope name value place) := by
  refine .get (fun _ => rfl) fun m => ?_
  split <;> simp [hplace]

@[simp] theorem simple_getMember (owner : Value) (key : String) :
    Simple allowed mayWrite (getMember owner key place) := by
  refine .get (fun _ => rfl) fun m => ?_
  simp only
  split <;> simp [hplace]

@[simp] theorem simple_arrayLength (x : Float) :
    Simple allowed mayWrite (arrayLength x place) := by
  unfold arrayLength
  simp only
  split
  · simp [hplace]
  · split <;> simp [hplace]

@[simp] theorem simple_setArrayMember (array : Nat) (key : String) (value : Value) :
    Simple allowed mayWrite (setArrayMember array key value place) := by
  unfold setArrayMember
  split
  · refine (simple_numberOf _).bind fun x => (simple_arrayLength hplace x).bind fun n => ?_
    exact simple_modifyArray _ _
  · split
    · exact (simple_arrayLength hplace _).bind fun _ => simple_modifyArray _ _
    · simp

@[simp] theorem simple_setMember (owner : Value) (key : String) (value : Value) :
    Simple allowed mayWrite (setMember owner key value place) := by
  unfold setMember
  split
  · exact simple_modifyObject _ _
  · simp [hplace]
  · split <;> simp [hplace]

@[simp] theorem simple_addValues (a b : Value) :
    Simple allowed mayWrite (addValues a b place) := by
  refine .get (fun _ => rfl) fun m => ?_
  simp only
  split
  · simp
  · split <;> simp [hplace]

@[simp] theorem simple_hasMember (key owner : Value) :
    Simple allowed mayWrite (hasMember key owner place) := by
  refine .get (fun _ => rfl) fun m => ?_
  simp only
  split <;> simp [hplace]

@[simp] theorem simple_isInstance (v maker : Value) :
    Simple allowed mayWrite (isInstance v maker place) := by
  unfold isInstance
  split
  · exact .mapGet fun _ => rfl
  · split <;> simp [hplace]

@[simp] theorem simple_binaryValue (op : BinaryOp) (a b : Value) :
    Simple allowed mayWrite (binaryValue op a b place) := by
  unfold binaryValue
  split
  case h_6 | h_7 => exact .mapGet fun _ => rfl
  case h_8 =>
    refine .get (fun _ => rfl) fun m => ?_
    simp only
    split <;> simp
  all_goals simp [hplace]

omit hplace in
@[simp] theorem simple_iterate {span : Span} (hspan : allowed span.start) (source : List Char)
    (v : Value) : Simple allowed mayWrite (iterate source v span) := by
  unfold iterate
  split <;> simp [hspan]

@[simp] theorem simple_noMethod (receiver : Value) :
    Simple allowed mayWrite (noMethod receiver place) :=
  simple_raise hplace _ _

@[simp] theorem simple_repeated (s : String) (x : Float) :
    Simple allowed mayWrite (Runner.repeated s x place) := by
  unfold Runner.repeated
  simp only
  split
  · simp [hplace]
  · split
    · simp [hplace]
    · split <;> simp

@[simp] theorem simple_numberMethod (x : Float) (m : Method) (values : List Value) :
    Simple allowed mayWrite (Runner.numberMethod x m values place) := by
  cases m <;> simp [Runner.numberMethod, hplace]

/-- The methods of arrays that call no function. -/
theorem simple_arrayMethod (r : Runner) (array : Nat) {m : Method}
    (hm : m ∉ [Method.map, .filter, .forEach]) (values : List Value) :
    Simple allowed mayWrite (r.arrayMethod array m values place) := by
  cases m
  case map | filter | forEach => simp at hm
  case indexOf =>
    refine (simple_itemsOf _).bind fun items => ?_
    split <;> simp
  all_goals simp [Runner.arrayMethod, hplace]

/-- The methods of strings that call no function. -/
theorem simple_stringMethod (r : Runner) (s : String) {m : Method} (hm : m ≠ .replace)
    (values : List Value) : Simple allowed mayWrite (r.stringMethod s m values place) := by
  cases m
  case replace => exact absurd rfl hm
  case split =>
    simp only [Runner.stringMethod]
    split <;> simp
  case indexOf =>
    refine (simple_textOf _).bind fun text => ?_
    split <;> simp
  all_goals simp [Runner.stringMethod, hplace]

end

/-! ## Functions of all scripts -/

@[simp] theorem simple_markupText (v : Value) : Simple allowed mayWrite (markupText v) := by
  refine .get (fun _ => rfl) fun m => ?_
  simp only
  split <;> simp

@[simp] theorem simple_jsonText (values : List Value) :
    Simple allowed mayWrite (jsonText values) := by
  refine .get (fun _ => rfl) fun m => ?_
  simp only
  split
  · simp
  · split <;> simp

theorem simple_callNative (hwrite : mayWrite) (f : Native) (values : List Value) :
    Simple allowed mayWrite (callNative f values) := by
  have htext : ∀ text, Simple allowed mayWrite (write text) := .write hwrite
  cases f
  case write | isArray | error =>
    simp only [callNative]
    split <;> simp [htext]
  case writeLine =>
    have hline : Simple allowed mayWrite (do write "\n"; return Value.undefined) := by
      simp [htext]
    simp only [callNative]
    split
    · exact hline
    · exact (simple_textOf _).bind fun text => (htext text).bind fun _ => hline
  all_goals simp [callNative, htext]

end Stencil.Script
