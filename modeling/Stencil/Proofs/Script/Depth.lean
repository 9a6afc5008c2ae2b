import Mathlib.Data.String.Basic
import Stencil.Proofs.Script.AccordStatement

/-! # How deep calls nest

The depth of a machine counts the functions whose bodies are running.  A watch counts for itself: it
follows a run with room for so many functions inside each other, and where one begins to run for
which there is no room, it raises an alarm.  A run that goes on in the same way whatever the alarm
does never comes to such a place.

With room for as many functions as may be entered, no alarm is raised for the body of a
function.  The parameters of a function are bound before it counts, so that calls from there nest as
they like.
-/
namespace Stencil.Script

/-- The demand that nothing is called while parameters are bound. -/
def Demand.quiet : Demand := ⟨fun _ => True, true⟩

/-- A watch over the functions that run inside each other. -/
structure Watch where
  /-- Whether a function runs as soon as its parameters are bound, and not only from its body on. -/
  early : Bool
  /-- What happens where a function begins to run for which there is no room. -/
  alarm : Exec Unit

namespace Watch

variable (w : Watch)

/-- A function begins to run. -/
def enter (room : Nat) : Exec Unit := if room = 0 then w.alarm else pure ()

/-- Calls a function of the script; `inner` is the runner for what is inside it. -/
def callClosure (room : Nat) (r inner : Runner) (closure : Closure) (values : List Value)
    (place : Nat) : Exec Value := do
  if maxDepth ≤ (← get).depth then
    raise .rangeError "Maximum call stack size exceeded" place
  if w.early then w.enter room
  let scope ← newScope closure.scope true
  (if w.early then inner else r).bindParameters scope closure.parameters values
  if !w.early then w.enter room
  match ← Runner.deeper (inner.block closure.body scope) with
  | .return v => return v
  | _ => return .undefined

/-- Runs a task with room for so many functions inside each other. -/
def runTask (source : List Char) (bound : Nat) : Nat → Nat → (task : Task) → Exec task.Result
  | 0, _, _ => throw .exhausted
  | depth + 1, room, task =>
    let r : Runner := ⟨source, bound, runTask source bound depth room⟩
    let inner : Runner := ⟨source, bound, runTask source bound depth (room - 1)⟩
    r.stepWith (w.callClosure room r inner) task

/-- Runs a program on a new machine, with room for as many functions as may be entered. -/
def runProgram (source : List Char) (bound : Nat) (globals : Globals) (clock : Clock)
    (program : Program) : Except ScriptError String :=
  match execWith source bound (w.runTask source bound bound maxDepth) globals program
    (.start clock) with
  | .ok _ m => .ok m.output
  | .error why m => .error (reportAbort source m.heap why)

/-- What a watch asks of scripts, so that it can count the functions that run. -/
def demand : Demand := ⟨fun _ => True, w.early⟩

variable {w}

theorem demand_place (place : Nat) : w.demand.place place := ⟨⟨place, place⟩, trivial, rfl⟩

theorem callClosure_of_room {room : Nat} (hroom : room ≠ 0) (r inner : Runner) :
    w.callClosure room r inner = Runner.enter (if w.early then inner else r) inner := by
  have henter : w.enter room = pure () := if_neg hroom
  funext closure values place
  unfold callClosure Runner.enter
  rw [henter]
  cases w.early <;> rfl

/-- A watch without an alarm leaves every run as it is. -/
theorem runTask_quiet (source : List Char) (bound : Nat) (early : Bool) (depth room : Nat) :
    (Watch.mk early (pure ())).runTask source bound depth room =
      Script.runTask source bound depth := by
  induction depth generalizing room with
  | zero => rfl
  | succ depth ih =>
    have hcall (r : Runner) : (Watch.mk early (pure ())).callClosure room r r = r.callClosure := by
      have henter : (Watch.mk early (pure ())).enter room = pure () := ite_self _
      funext closure values place
      unfold callClosure
      rw [henter]
      cases early <;> rfl
    funext task
    simp only [runTask, ih, hcall]
    exact Runner.stepWith_callClosure task

/-! ## Watched runs -/

variable {d : Nat}

/-- Under a watch a function is called in accord, as long as there is room for all functions that
may still be entered.  Where none may be, it does not begin to run. -/
theorem accord_callClosure {r : Runner} {run' inner' : (task : Task) → Exec task.Result}
    {room : Nat} (hroom : d < maxDepth → room ≠ 0)
    (hbinder : r.Coupled w.demand w.early d (if w.early then inner' else run'))
    (hinner : d < maxDepth → r.Coupled w.demand false (d + 1) inner') {closure : Closure}
    (hclosure : closure.Meets w.demand) (values : List Value) (place : Nat) :
    Accord w.demand d (r.callClosure closure values place)
      (w.callClosure room (r.via run') (r.via inner') closure values place) := by
  by_cases hd : d < maxDepth
  · have henter := accord_enter hbinder hinner hclosure values (demand_place place)
    rw [apply_ite r.via] at henter
    rwa [callClosure_of_room (hroom hd)]
  · refine InAccord.get fun m hm => ?_
    rw [hm.depth, if_pos (Nat.le_of_not_lt hd), if_pos (Nat.le_of_not_lt hd)]
    exact InAccord.bind (inAccord_raise (demand_place place) _ _) fun _ h => h.elim

/-- **A watched run is in accord with the run**, by induction on the bound of its steps: a function
whose body runs takes one from the room and adds one to the depth, and what is done quietly calls no
functions at all. -/
theorem coupled_runTask (source : List Char) (bound depth : Nat) {silent : Bool} {room : Nat}
    (hroom : silent = false → maxDepth ≤ d + room) :
    (Runner.mk source bound (Script.runTask source bound depth)).Coupled w.demand silent d
      (w.runTask source bound depth room) := by
  induction depth generalizing silent d room with
  | zero => exact ⟨fun _ _ => accord_exhausted⟩
  | succ depth ih =>
    refine ⟨fun task htask => (ih hroom).step (fun hsilent closure values place hclosure _ => ?_)
      htask⟩
    have hleft := hroom hsilent
    refine accord_callClosure (fun hd => by omega) ?_ (fun hd => ih fun _ => by omega) hclosure
      values place
    cases w.early with
    | true => exact ih fun hsilent => by cases hsilent
    | false => exact ih fun _ => hleft

theorem meets_demand {program : Program}
    (h : w.early = true → MeetStmts .quiet false program) : MeetStmts w.demand false program := by
  obtain ⟨_ | _, alarm⟩ := w
  · exact meetStmts_free program
  · exact h rfl

theorem task_meets_demand {task : Task} (h : w.early = true → task.Meets .quiet false) :
    task.Meets w.demand false := by
  obtain ⟨_ | _, alarm⟩ := w
  · exact task.meets_free
  · exact h rfl

theorem machine_meets_demand {m : Machine} (h : w.early = true → m.Meets .quiet) :
    m.Meets w.demand := by
  obtain ⟨_ | _, alarm⟩ := w
  · exact m.meets_free
  · exact h rfl

end Watch

/-! ## The bound on depth -/

/-- The heap in which an error was made tells its kind and its message. -/
theorem Heap.describe_newError (h : Heap) (kind message : String) :
    let made := h.newObject [("name", .string kind), ("message", .string message)]
    made.2.describe made.1 = (kind, message) := by
  intro made
  have hobject : made.2.object h.objects.size =
      [("name", .string kind), ("message", .string message)] := by
    simp [made, Heap.newObject, Heap.object]
  have hparts : made.2.errorParts? made.1 = some (.string kind, .string message) := by
    show (made.2.object h.objects.size |>.get? "name").bind _ = _
    rw [hobject]
    rfl
  unfold Heap.describe
  rw [hparts]
  rfl

/-- Where no function may be entered, a call raises an error that says so, and changes nothing
else. -/
theorem Runner.callClosure_of_deep (r : Runner) (closure : Closure) (values : List Value)
    (place : Nat) {m : Machine} (hm : maxDepth ≤ m.depth) :
    ∃ v heap,
      r.callClosure closure values place m = .error (.throw v place) { m with heap := heap } ∧
      Heap.describe heap v = ("RangeError", "Maximum call stack size exceeded") := by
  refine ⟨_, _, ?_, m.heap.describe_newError _ _⟩
  unfold Runner.callClosure
  rw [bind_apply]
  show (if maxDepth ≤ m.depth then _ else _ : Exec Value) m = _
  rw [if_pos hm]
  rfl

/-- **Calls do not nest deeper than the bound on depth.**  A watch without an alarm leaves every run
as it is; and however a watch raises its alarm, a program runs as it does unwatched, and so does
every task on a machine with room for as many functions as may still be entered.  A watch that takes
a function to run from its parameters on is told so only of scripts that call nothing there.  Where
no function may be entered, a call raises an error that says so, and what is raised is handed to the
handler around it. -/
theorem nesting_bounded (w : Watch) (source : List Char) (bound : Nat) (program : Program)
    (hprogram : w.early = true → MeetStmts .quiet false program) :
    (∀ depth room, (Watch.mk w.early (pure ())).runTask source bound depth room =
      runTask source bound depth) ∧
    (∀ globals clock, w.runProgram source bound globals clock program =
      runProgram source bound globals clock program) ∧
    (∀ (depth room : Nat) (task : Task) (m : Machine), maxDepth ≤ m.depth + room →
      (w.early = true → task.Meets .quiet false ∧ m.Meets .quiet) →
      w.runTask source bound depth room task m = runTask source bound depth task m) ∧
    (∀ (r : Runner) (closure : Closure) (values : List Value) (place : Nat) (m : Machine),
      maxDepth ≤ m.depth → ∃ v heap,
        r.callClosure closure values place m = .error (.throw v place) { m with heap := heap } ∧
        Heap.describe heap v = ("RangeError", "Maximum call stack size exceeded")) ∧
    ∀ (r : Runner) (list handler : List Stmt) (parameter : Pattern) (scope : Nat) (v : Value)
      (place : Nat) (m m' : Machine), r.innerBlock list scope m = .error (.throw v place) m' →
      r.tryCatch list parameter handler scope m = (do
        let inner ← newScope scope false
        r.bind parameter v inner false
        r.block handler inner : Exec Flow) m' := by
  refine ⟨Watch.runTask_quiet source bound w.early, fun globals clock => ?_,
    fun depth room task m hroom h => ?_, fun r closure values place m hm =>
      r.callClosure_of_deep closure values place hm,
    fun r list handler parameter scope v place m m' h => ?_⟩
  · have hrun : (Runner.mk source bound (runTask source bound bound)).Coupled w.demand false 0
        (w.runTask source bound bound maxDepth) :=
      Watch.coupled_runTask source bound bound fun _ => by omega
    have hsame := (accord_execWith hrun globals (Watch.meets_demand hprogram) _
      (Machine.at_start clock)).1
    unfold Watch.runProgram
    rw [hsame]
    rfl
  · have hrun : (Runner.mk source bound (runTask source bound depth)).Coupled w.demand false m.depth
        (w.runTask source bound depth room) :=
      Watch.coupled_runTask source bound depth fun _ => hroom
    exact (hrun.run task (Watch.task_meets_demand fun hearly => (h hearly).1) m
      ⟨Watch.machine_meets_demand fun hearly => (h hearly).2, rfl⟩).1
  · show EStateM.tryCatch _ _ m = _
    unfold EStateM.tryCatch
    rw [h]
    rfl

/-- A function that calls itself from its body, and a call of it: `function f() { f(); } f();`. -/
def endlessCalls : Program :=
  [.function "f" [] [.expression (.call ⟨15, 18⟩ (.name ⟨15, 16⟩ "f") [] false)],
    .expression (.call ⟨21, 24⟩ (.name ⟨21, 22⟩ "f") [] false)]

/-- Nothing is called while parameters are bound that there are none of. -/
theorem nesting_bounded_endlessCalls : MeetStmts .quiet false endlessCalls ∧
    ∀ globals clock, (Watch.mk true (write "!")).runProgram [] 1000 globals clock endlessCalls =
      runProgram [] 1000 globals clock endlessCalls := by
  have hquiet : MeetStmts .quiet false endlessCalls := by
    simp [endlessCalls, MeetStmts, Stmt.Meets, Expr.Meets, MeetPatterns, MeetElements,
      Demand.quiet]
  exact ⟨hquiet, (nesting_bounded ⟨true, write "!"⟩ [] 1000 endlessCalls fun _ => hquiet).2.1⟩

/-- A script whose function calls itself while its parameter is taken apart, once for each item of
an array: `let a = 'aaa…'.split(''); function f([y = a.pop() && f('')]) {} f(''); write('done');`.
-/
def deepDefault : String :=
  "let a = '" ++ String.ofList (List.replicate maxDepth 'a') ++
    "'.split(''); function f([y = a.pop() && f('')]) \x7b\x7d f(''); write('done');"

/-- Calls from parameters nest deeper than the bound, and no error is raised. -/
theorem deepDefault_exceeds : ∃ program, readProgram deepDefault = .ok program ∧
    runProgram deepDefault.toList amplyBounded ⟨"/main.exp", .null⟩ ⟨none⟩ program = .ok "done" ∧
    (Watch.mk true (write "!")).runProgram deepDefault.toList amplyBounded ⟨"/main.exp", .null⟩
      ⟨none⟩ program = .ok "!done" := by
  have hruns : (match readProgram deepDefault with
      | .ok program => decide
          (runProgram deepDefault.toList amplyBounded ⟨"/main.exp", .null⟩ ⟨none⟩ program =
            .ok "done" ∧
          (Watch.mk true (write "!")).runProgram deepDefault.toList amplyBounded
            ⟨"/main.exp", .null⟩ ⟨none⟩ program = .ok "!done")
      | .error _ => false) = true := by decide +kernel
  cases hread : readProgram deepDefault with
  | ok program =>
    rw [hread] at hruns
    exact ⟨program, rfl, of_decide_eq_true hruns⟩
  | error fault =>
    rw [hread] at hruns
    cases hruns

end Stencil.Script
