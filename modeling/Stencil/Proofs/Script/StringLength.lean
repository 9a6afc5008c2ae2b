import Stencil.Proofs.Script.Completion
import Stencil.Proofs.Script.Depth

/-! # How long texts get

A sum and a repetition are not built if they are too long, and an error is raised that handlers see.
So neither has ever a result that is too long, whatever the script and its state.  The other
operations that build texts do not look at the length of what they build.
-/
namespace Stencil.Script

/-! ## Texts that operations build -/

/-- An operation that builds a text from values. -/
inductive TextOperation
  | sum (a b : Value)
  | repetition (s : String) (x : Float)
  | concatenation (s : String) (values : List Value)
  | join (array : Nat) (separator : Value)
  | upperCase (s : String)
  | lowerCase (s : String)
  | escapedMarkup (v : Value)
  | escapedScript (v : Value)

namespace TextOperation

/-- What the operation does. -/
def exec (r : Runner) (place : Nat) : TextOperation → Exec Value
  | sum a b => binaryValue .add a b place
  | repetition s x => r.callMethod (.string s) .repeat [.number x] place
  | concatenation s values => r.callMethod (.string s) .concat values place
  | join array separator => r.callMethod (.array array) .join [separator] place
  | upperCase s => r.callMethod (.string s) .toUpperCase [] place
  | lowerCase s => r.callMethod (.string s) .toLowerCase [] place
  | escapedMarkup v => callNative .escapeMarkup [v]
  | escapedScript v => callNative .escapeScript [v]

/-- The text that the operation is to build, however long it is. -/
def text (h : Heap) : TextOperation → String
  | sum a b => h.text a ++ h.text b
  | repetition s x => String.join (List.replicate (Binary.ofFloat x).wholePart s)
  | concatenation s values => s ++ String.join (values.map h.text)
  | join array separator =>
    let between := match separator with
      | .undefined => ","
      | v => h.text v
    between.intercalate ((h.array array).toList.map fun v => if v.isNullish then "" else h.text v)
  | upperCase s => upperText s
  | lowerCase s => lowerText s
  | escapedMarkup v => escapeMarkup (h.text v)
  | escapedScript v => escapeScript (h.text v)

/-- Whether the operation builds a text of its operands: a sum may be one of numbers, and no text is
repeated a negative or an infinite number of times. -/
def Applies : TextOperation → Prop
  | sum a b => (a.addsAsNumber && b.addsAsNumber) = false
  | repetition _ x => (x < 0.0 || x.isInf) = false
  | _ => True

/-- Whether the operation looks at the length of what it builds. -/
def isChecked : TextOperation → Bool
  | sum _ _ | repetition _ _ => true
  | _ => false

end TextOperation

/-! ## What comes of them -/

/-- The step throws the error of a text that is too long, and changes nothing else. -/
def RefusesLength (step : Exec Value) (place : Nat) (m : Machine) : Prop :=
  ∃ v heap, step m = .error (.throw v place) { m with heap := heap } ∧
    Heap.describe heap v = ("RangeError", "Invalid string length")

theorem refusesLength_raise (place : Nat) (m : Machine) :
    RefusesLength (raise .rangeError "Invalid string length" place) place m :=
  ⟨_, _, rfl, m.heap.describe_newError _ _⟩

theorem utf8ByteSize_join_replicate (s : String) (n : Nat) :
    (String.join (List.replicate n s)).utf8ByteSize = s.utf8ByteSize * n := by
  induction n with
  | zero => simp
  | succ n ih =>
    rw [List.replicate_succ, String.join_cons, String.utf8ByteSize_append, ih, Nat.mul_succ]
    omega

variable {r : Runner} {place : Nat} {m : Machine}

/-- What comes of an operation that looks at the length of a text: the text, or an error. -/
structure Outcome (step : Exec Value) (place : Nat) (m : Machine) (text : String) : Prop where
  built : text.utf8ByteSize ≤ maxStringLength → step m = .ok (.string text) m
  refused : maxStringLength < text.utf8ByteSize → RefusesLength step place m

/-- A test of the length decides between the text and the error. -/
theorem outcome_of_eq {step : Exec Value} {text : String}
    (h : step m = (if maxStringLength < text.utf8ByteSize then
      raise .rangeError "Invalid string length" place else pure (.string text) : Exec Value) m) :
    Outcome step place m text where
  built hsize := by
    rw [h, if_neg hsize.not_gt]
    rfl
  refused hsize := by
    obtain ⟨v, heap, hraise, hdescribe⟩ := refusesLength_raise place m
    exact ⟨v, heap, by rw [h, if_pos hsize, hraise], hdescribe⟩

/-- The sum of values that are not both added as numbers is made of their texts. -/
theorem addValues_apply {a b : Value} (h : (TextOperation.sum a b).Applies) (place : Nat)
    (m : Machine) : addValues a b place m =
      (if maxStringLength < (m.heap.text a ++ m.heap.text b).utf8ByteSize then
        raise .rangeError "Invalid string length" place
      else pure (.string (m.heap.text a ++ m.heap.text b)) : Exec Value) m := by
  show (if (a.addsAsNumber && b.addsAsNumber) = true then
      pure (.number (m.heap.number a + m.heap.number b))
    else if maxStringLength < (m.heap.text a).utf8ByteSize + (m.heap.text b).utf8ByteSize then
      raise .rangeError "Invalid string length" place
    else pure (.string (m.heap.text a ++ m.heap.text b)) : Exec Value) m = _
  rw [if_neg (Bool.eq_false_iff.mp h), String.utf8ByteSize_append]

theorem outcome_sum {a b : Value} (h : (TextOperation.sum a b).Applies) :
    Outcome (binaryValue .add a b place) place m (m.heap.text a ++ m.heap.text b) :=
  outcome_of_eq (addValues_apply h place m)

/-- A count that no word of 64 bits can hold is too great for every text but the empty one. -/
theorem outcome_repeated {s : String} {x : Float} (h : (TextOperation.repetition s x).Applies) :
    Outcome (Runner.repeated s x place) place m
      (String.join (List.replicate (Binary.ofFloat x).wholePart s)) := by
  refine outcome_of_eq ?_
  rw [utf8ByteSize_join_replicate, Runner.repeated,
    if_neg (Bool.eq_false_iff.mp (show (x < 0.0 || x.isInf) = false from h))]
  generalize (Binary.ofFloat x).wholePart = n
  by_cases hs : s = ""
  · subst hs
    have hempty : String.join (List.replicate n "") = "" := by
      rw [← String.utf8ByteSize_eq_zero_iff, utf8ByteSize_join_replicate]
      exact Nat.zero_mul n
    simp [hempty]
  · have hsize : 0 < s.utf8ByteSize := by
      rw [Nat.pos_iff_ne_zero, Ne, String.utf8ByteSize_eq_zero_iff]
      exact hs
    have hlimit : maxStringLength < Nat.pow 2 64 - 1 := by decide
    rw [if_neg (show ¬ s.isEmpty = true by simpa using hs)]
    by_cases hn : n ≤ Nat.pow 2 64 - 1
    · rw [min_eq_left hn]
    · -- the count is cut off at the greatest word, and the text is too long with either count
      have hlong : ∀ k, Nat.pow 2 64 - 1 ≤ k → maxStringLength < s.utf8ByteSize * k := fun k hk =>
        (hlimit.trans_le hk).trans_le (Nat.le_mul_of_pos_left k hsize)
      rw [if_pos (hlong _ (by omega)), if_pos (hlong _ (by omega))]

/-- An operation gives the text that it is to build.  One that looks at the length throws an error
instead if the text is too long. -/
theorem TextOperation.outcome (op : TextOperation) (r : Runner) (place : Nat) (m : Machine)
    (h : op.Applies) :
    (op.isChecked = true → Outcome (op.exec r place) place m (op.text m.heap)) ∧
    (op.isChecked = false → op.exec r place m = .ok (.string (op.text m.heap)) m) := by
  cases op with
  | sum a b => exact ⟨fun _ => outcome_sum h, nofun⟩
  | repetition s x => exact ⟨fun _ => outcome_repeated h, nofun⟩
  | concatenation s values =>
    refine ⟨nofun, fun _ => ?_⟩
    show EStateM.Result.ok (Value.string (String.join (s :: values.map m.heap.text))) m = _
    rw [String.join_cons]
    rfl
  | join array separator => exact ⟨nofun, fun _ => rfl⟩
  | upperCase | lowerCase | escapedMarkup | escapedScript => exact ⟨nofun, fun _ => rfl⟩

/-! ## Measured runs -/

/-- Whether a value is a text that is too long. -/
def Value.isLong : Value → Bool
  | .string s => maxStringLength < s.utf8ByteSize
  | _ => false

/-- A value is not a text that is too long. -/
def Value.IsShort (v : Value) : Prop := v.isLong = false

theorem isShort_string {s : String} (h : s.utf8ByteSize ≤ maxStringLength) :
    (Value.string s).IsShort :=
  decide_eq_false h.not_gt

/-- A step whose result is measured: an alarm is raised if it is a text that is too long. -/
def measured (alarm : Exec Unit) (step : Exec Value) : Exec Value := do
  let v ← step
  if v.isLong then alarm
  return v

/-- A step all of whose results are short enough is not changed by measuring them. -/
theorem measured_eq (alarm : Exec Unit) {step : Exec Value}
    (h : EndsIn Value.IsShort step) : measured alarm step = step := by
  funext m
  rw [measured, bind_apply]
  cases hstep : step m with
  | ok v m' =>
    show (if v.isLong = true then alarm >>= fun _ => pure v else pure v : Exec Value) m' = _
    rw [if_neg (Bool.eq_false_iff.mp (h m v m' hstep))]
    rfl
  | error why m' => rfl

namespace Runner

variable (alarm : Exec Unit) (r : Runner)

/-- Evaluates an expression, where sums are measured: those of two operands and those that are
assigned. -/
def measuredExpression (e : Expr) (scope : Nat) : Exec Value :=
  match e with
  | .binary span .add left right => do
    let a ← r.expression left scope
    let b ← r.expression right scope
    measured alarm (binaryValue .add a b span.start)
  | .assign span (.compound .add) target value =>
    measured alarm (r.assign (.compound .add) target value scope span)
  | e => r.expressionStep e scope

/-- One step of a task, where sums and repetitions are measured. -/
def measuredStep : (task : Task) → Exec task.Result
  | .expression e scope => r.measuredExpression alarm e scope
  | .call (.method receiver .repeat) values place =>
    measured alarm (r.callStep (.method receiver .repeat) values place)
  | task => r.step task

end Runner

/-- Runs a task in which sums and repetitions are measured. -/
def measuredTask (alarm : Exec Unit) (source : List Char) (bound : Nat) :
    Nat → (task : Task) → Exec task.Result
  | 0, _ => throw .exhausted
  | depth + 1, task =>
    Runner.measuredStep alarm ⟨source, bound, measuredTask alarm source bound depth⟩ task

/-- Runs a program in which sums and repetitions are measured, on a new machine. -/
def measuredProgram (alarm : Exec Unit) (source : List Char) (bound : Nat) (globals : Globals)
    (clock : Clock) (program : Program) : Except ScriptError String :=
  match execWith source bound (measuredTask alarm source bound bound) globals program
    (.start clock) with
  | .ok _ m => .ok m.output
  | .error why m => .error (reportAbort source m.heap why)

/-! ## No alarm is raised -/

theorem endsIn_raise {α : Type} {post : α → Prop} (kind : ErrorKind) (message : String)
    (place : Nat) : EndsIn post (raise kind message place : Exec α) :=
  EndsIn.behind fun _ => endsIn_throw _

theorem endsIn_ite {α : Type} {post : α → Prop} {p : Prop} [Decidable p] {yes no : Exec α}
    (hyes : p → EndsIn post yes) (hno : ¬ p → EndsIn post no) :
    EndsIn post (if p then yes else no) := by
  split
  · exact hyes ‹_›
  · exact hno ‹_›

theorem endsIn_sum (a b : Value) (place : Nat) :
    EndsIn Value.IsShort (binaryValue .add a b place) := by
  refine EndsIn.behind fun now : Machine => endsIn_ite (fun _ => endsIn_pure rfl) fun _ => ?_
  refine endsIn_ite (fun _ => endsIn_raise _ _ _) fun hsize => ?_
  rw [← String.utf8ByteSize_append] at hsize
  exact endsIn_pure (isShort_string (not_lt.mp hsize))

theorem endsIn_repeated (s : String) (x : Float) (place : Nat) :
    EndsIn Value.IsShort (Runner.repeated s x place) := by
  refine endsIn_ite (fun _ => endsIn_raise _ _ _) fun _ => ?_
  refine endsIn_ite (fun _ => endsIn_raise _ _ _) fun hsize => ?_
  rw [← utf8ByteSize_join_replicate] at hsize
  exact endsIn_ite (fun _ => endsIn_pure rfl) fun _ =>
    endsIn_pure (isShort_string (not_lt.mp hsize))

theorem endsIn_repeat (r : Runner) (receiver : Value) (values : List Value) (place : Nat) :
    EndsIn Value.IsShort (r.callStep (.method receiver .repeat) values place) := by
  cases receiver with
  | string s => exact EndsIn.behind fun x => endsIn_repeated s x place
  | _ => exact endsIn_raise _ _ _

theorem endsIn_combinedSum (r : Runner) (current : Value) (e : Expr) (scope place : Nat) :
    EndsIn (fun made => made.1.IsShort) (r.combine (.compound .add) current e scope place) :=
  EndsIn.behind fun v => (endsIn_sum current v place).bind fun _ h => endsIn_pure h

theorem endsIn_assignedSum (r : Runner) (target : Target) (e : Expr) (scope : Nat) (span : Span) :
    EndsIn Value.IsShort (r.assign (.compound .add) target e scope span) := by
  have hmember (owner : Value) (key : String) (place : Nat) :
      EndsIn Value.IsShort (r.assignMember owner key (.compound .add) e scope place) :=
    EndsIn.behind fun current => (endsIn_combinedSum r current e scope place).bind fun made h =>
      endsIn_ite (fun _ => EndsIn.behind fun _ => endsIn_pure h) fun _ => endsIn_pure h
  -- what is evaluated and read for a target stands before the sum, and only the sum is returned
  cases target with
  | name nameSpan name =>
    exact EndsIn.behind fun current => (endsIn_combinedSum r current e scope span.start).bind
      fun made h =>
        endsIn_ite (fun _ => EndsIn.behind fun _ => endsIn_pure h) fun _ => endsIn_pure h
  | member owner name nameSpan => exact EndsIn.behind fun v => hmember v name _
  | index _ owner key => exact EndsIn.behind fun v => EndsIn.behind fun name => hmember v name _
  | unsupported | «variable» => exact endsIn_raise _ _ _

namespace Runner

variable (alarm : Exec Unit) (r : Runner)

theorem measuredExpression_eq (e : Expr) (scope : Nat) :
    r.measuredExpression alarm e scope = r.expressionStep e scope := by
  unfold measuredExpression
  split
  · exact bind_congr fun a => bind_congr fun b => measured_eq alarm (endsIn_sum a b _)
  · exact measured_eq alarm (endsIn_assignedSum r _ _ _ _)
  · rfl

theorem measuredStep_eq (task : Task) : r.measuredStep alarm task = r.step task := by
  unfold measuredStep
  split
  · exact r.measuredExpression_eq alarm _ _
  · exact measured_eq alarm (endsIn_repeat r _ _ _)
  · rfl

end Runner

theorem measuredTask_eq (alarm : Exec Unit) (source : List Char) (bound depth : Nat) :
    measuredTask alarm source bound depth = runTask source bound depth := by
  induction depth with
  | zero => rfl
  | succ depth ih =>
    funext task
    rw [measuredTask, ih]
    exact Runner.measuredStep_eq alarm _ task

theorem measuredProgram_eq (alarm : Exec Unit) (source : List Char) (bound : Nat)
    (globals : Globals) (clock : Clock) (program : Program) :
    measuredProgram alarm source bound globals clock program =
      runProgram source bound globals clock program := by
  have hexec : execWith source bound (runTask source bound bound) globals program =
      execProgram source bound globals program := rfl
  unfold measuredProgram runProgram
  rw [measuredTask_eq]
  cases hending : execProgram source bound globals program (.start clock) with
  | ok _ m => simp only [hexec, hending]
  | error why m => simp only [hexec, hending]

/-! ## Parts that are evaluated -/

/-- The texts of a template literal with those of its expressions between them. -/
def interleaved : List String → List String → String
  | text :: texts, value :: values => text ++ value ++ interleaved texts values
  | text :: _, [] => text
  | [], _ => ""

theorem Runner.templateFrom_eq (r : Runner) (scope : Nat) {texts : List String} {list : List Expr}
    (h : list.length ≤ texts.length) : r.templateFrom scope texts list =
      interleaved texts <$> list.mapM fun e => r.textOf e scope := by
  induction texts generalizing list with
  | nil =>
    rw [List.length_nil, Nat.le_zero, List.length_eq_zero_iff] at h
    subst h
    rfl
  | cons text texts ih =>
    cases list with
    | nil => rfl
    | cons e rest =>
      rw [templateFrom, List.mapM_cons, map_bind]
      refine bind_congr fun value => ?_
      rw [ih (Nat.le_of_succ_le_succ h), map_bind, bind_map_left]
      exact bind_congr fun values => (map_pure _ _).symm

/-- What replaces a text that occurs is put between what stands before it and behind it. -/
theorem Runner.replace_apply (r : Runner) {s : String} {pattern : Value} {before behind : List Char}
    (f : Value) (place : Nat)
    (h : splitFirst? (m.heap.text pattern).toList s.toList = some (before, behind)) :
    r.callMethod (.string s) .replace [pattern, f] place m =
      ((fun middle => .string (String.ofList before ++ middle ++ String.ofList behind)) <$>
        r.replacement f (m.heap.text pattern) place : Exec Value) m := by
  have hpattern : Script.textOf pattern m = .ok (m.heap.text pattern) m := rfl
  unfold callMethod stringMethod
  simp only [argument, List.getElem?_cons_zero, List.getElem?_cons_succ, Option.getD_some,
    bind_apply, hpattern, goOn, h, map_eq_pure_bind]

/-! ## The limit on length -/

/-- **Sums and repetitions stay within the limit, and nothing else looks at it.**  Whatever alarm is
raised where a sum or a repetition has a text as its result that is too long, every task and every
program does the same as without it.  Where the text of such an operation would be too long, an
error that says so is thrown instead, and handed to the handler around it.  The other operations
give the text that they are to build, however long it is: so do a template literal, which puts its
texts and those of its expressions together, and the replacement of a text that occurs. -/
theorem strings_limited (alarm : Exec Unit) (source : List Char) (bound : Nat) :
    (∀ depth, measuredTask alarm source bound depth = runTask source bound depth) ∧
    (∀ globals clock program, measuredProgram alarm source bound globals clock program =
      runProgram source bound globals clock program) ∧
    (∀ (op : TextOperation) (r : Runner) (place : Nat) (m : Machine), op.Applies →
      (op.isChecked = true → Outcome (op.exec r place) place m (op.text m.heap)) ∧
      (op.isChecked = false → op.exec r place m = .ok (.string (op.text m.heap)) m)) ∧
    (∀ (r : Runner) (list handler : List Stmt) (parameter : Pattern) (scope : Nat) (v : Value)
      (place : Nat) (m m' : Machine), r.innerBlock list scope m = .error (.throw v place) m' →
      r.tryCatch list parameter handler scope m = (do
        let inner ← newScope scope false
        r.bind parameter v inner false
        r.block handler inner : Exec Flow) m') ∧
    (∀ (r : Runner) (span : Span) (texts : List String) (list : List Expr) (scope : Nat),
      list.length ≤ texts.length → r.expressionStep (.template span texts list) scope =
        (fun values => .string (interleaved texts values)) <$>
          list.mapM fun e => r.textOf e scope) ∧
    ∀ (r : Runner) (s : String) (pattern f : Value) (before behind : List Char) (place : Nat)
      (m : Machine), splitFirst? (m.heap.text pattern).toList s.toList = some (before, behind) →
      r.callMethod (.string s) .replace [pattern, f] place m =
        ((fun middle => .string (String.ofList before ++ middle ++ String.ofList behind)) <$>
          r.replacement f (m.heap.text pattern) place : Exec Value) m := by
  refine ⟨measuredTask_eq alarm source bound, measuredProgram_eq alarm source bound,
    fun op r place m h => op.outcome r place m h, ?_, ?_,
    fun r s pattern f before behind place m h => r.replace_apply f place h⟩
  · intro r list handler parameter scope v place m m' h
    show EStateM.tryCatch _ _ m = _
    unfold EStateM.tryCatch
    rw [h]
    rfl
  · intro r span texts list scope h
    show (Value.string <$> r.templateFrom scope texts list : Exec Value) = _
    rw [r.templateFrom_eq scope h, Functor.map_map]

/-- A sum that is short enough, a template literal of one text, and a text in the place of another.
-/
theorem strings_limited_short : (TextOperation.sum (.string "a") .null).Applies ∧
    (∀ (place : Nat) (m : Machine),
      binaryValue .add (.string "a") .null place m = .ok (.string "anull") m) ∧
    (∀ (r : Runner) (span : Span) (scope : Nat),
      r.expressionStep (.template span ["a"] []) scope = pure (.string "a")) ∧
    ∀ (r : Runner) (place : Nat) (m : Machine),
      r.callMethod (.string "abc") .replace [.string "b", .string "-"] place m =
        .ok (.string "a-c") m := by
  obtain ⟨-, -, hoperation, -, htemplate, hreplace⟩ := strings_limited (pure ()) [] 0
  refine ⟨rfl, fun place m => ?_, fun r span scope => ?_, fun r place m => ?_⟩
  · have hshort : ("a" ++ "null").utf8ByteSize ≤ maxStringLength := by decide
    exact ((hoperation (.sum (.string "a") .null) (Runner.bounded [] 0) place m rfl).1 rfl).built
      hshort
  · exact htemplate r span ["a"] [] scope (by decide)
  · have hfound : splitFirst? "b".toList "abc".toList = some (['a'], ['c']) := by decide
    exact hreplace r "abc" (.string "b") (.string "-") ['a'] ['c'] place m hfound

/-- An eighth of the longest text: as many letters, each of which is one byte. -/
def eighth : String := String.join (List.replicate 67108864 "a")

/-- A text that a script can make by a repetition is put together eight times, and one letter is
added: the text that comes of it is too long. -/
theorem concatenation_exceeds :
    eighth.utf8ByteSize ≤ maxStringLength ∧
    ∀ (r : Runner) (place : Nat) (m : Machine),
      r.callMethod (.string "a") .repeat [.number 67108864.0] place m = .ok (.string eighth) m ∧
      ∃ t, r.callMethod (.string eighth) .concat
          (List.replicate 7 (.string eighth) ++ [.string "!"]) place m = .ok (.string t) m ∧
        maxStringLength < t.utf8ByteSize := by
  have hsize : eighth.utf8ByteSize = 67108864 := by
    rw [eighth, utf8ByteSize_join_replicate, show "a".utf8ByteSize = 1 from rfl, Nat.one_mul]
  have hcount : (Binary.ofFloat 67108864.0).wholePart = 67108864 := by decide +kernel
  have hcounted : ((67108864.0 : Float) < 0.0 || (67108864.0 : Float).isInf) = false := by
    decide +kernel
  have hlimit : eighth.utf8ByteSize ≤ maxStringLength := by rw [hsize]; decide
  refine ⟨hlimit, fun r place m => ⟨?_, ?_⟩⟩
  · have hrepeated : Outcome (r.callMethod (.string "a") .repeat [.number 67108864.0] place) place m
        (String.join (List.replicate (Binary.ofFloat 67108864.0).wholePart "a")) :=
      ((TextOperation.repetition "a" 67108864.0).outcome r place m hcounted).1 rfl
    rw [hcount] at hrepeated
    exact hrepeated.built hlimit
  · generalize eighth = s at hsize
    refine ⟨_, rfl, ?_⟩
    rw [List.map_append, ← List.cons_append, String.join_append, String.utf8ByteSize_append]
    show _ < (String.join (List.replicate 8 s)).utf8ByteSize + 1
    rw [utf8ByteSize_join_replicate, hsize]
    decide

end Stencil.Script
