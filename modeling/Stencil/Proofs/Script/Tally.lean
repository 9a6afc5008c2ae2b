import Stencil.Proofs.Script.Accord
import Stencil.Proofs.Script.Expiry

/-! # Tasks behind the end of the time

Out of time a run begins no call and no round of a loop.  What it still has to do is counted on the
tree of the script, and what it does by a runner that makes a stroke in the output for each task.
Two runs from the same machine, one of them with strokes, are late by a number if both end alike,
not for want of room, and at most that number of strokes is added.  They are so for nothing at all
if they consist of steps that neither write nor begin a task.
-/
namespace Stencil.Script

/-! ## What can be reached out of time -/

mutual

/-- How many tasks an expression takes at most out of time, itself included.  Nothing is counted in
a function or behind the beginning of a call. -/
def Expr.reach : Expr → Nat
  | .boolean _ _ | .null _ | .number _ _ | .string _ _ | .name _ _ | .this _ | .function _ _ _ _
  | .call _ _ _ _ | .new _ _ _ | .privateMember _ | .unsupported _ => 1
  | .template _ _ values => reachExprs values + 1
  | .sequence _ items => reachExprs items + 1
  | .array _ elements => reachElements elements + 1
  | .object _ members => reachMembers members + 1
  | .paren _ inner | .unary _ _ inner | .chain _ inner | .await _ inner => inner.reach + 1
  | .binary _ _ left right | .logical _ _ left right => left.reach + right.reach + 1
  | .conditional _ test yes no => test.reach + (yes.reach + no.reach) + 1
  | .assign _ _ target value => target.reach + value.reach + 1
  | .update _ _ _ target => target.reach + 1
  | .member _ owner _ _ _ => owner.reach + 1
  | .index _ owner key _ => owner.reach + key.reach + 1

def reachExprs : List Expr → Nat
  | [] => 0
  | e :: rest => e.reach + reachExprs rest

def reachElements : List Element → Nat
  | [] => 0
  | .item e :: rest => e.reach + reachElements rest
  | .spread _ e :: rest => e.reach + reachElements rest
  | .hole :: rest => reachElements rest

def reachMembers : List Member → Nat
  | [] => 0
  | .field key value :: rest => key.reach + (value.reach + reachMembers rest)
  | .spread _ e :: rest => e.reach + reachMembers rest

/-- The same of the expressions in a target. -/
def Target.reach : Target → Nat
  | .name _ _ | .variable _ _ | .unsupported _ => 0
  | .member owner _ _ => owner.reach
  | .index _ owner key => owner.reach + key.reach

end

mutual

/-- How many tasks a pattern takes at most out of time, itself included. -/
def Pattern.reach : Pattern → Nat
  | .hole | .name _ _ => 1
  | .object _ fields rest => reachFields fields + rest.reach + 1
  | .array _ elements rest => reachPatterns elements + rest.reach + 1
  | .fallback _ p e => e.reach + p.reach + 1

def reachPatterns : List Pattern → Nat
  | [] => 0
  | p :: rest => p.reach + reachPatterns rest

def reachFields : List PatternField → Nat
  | [] => 0
  | .mk key p :: rest => key.reach + (p.reach + reachFields rest)

end

def reachDeclarators : List Declarator → Nat
  | [] => 0
  | .mk p (some e) :: rest => e.reach + (p.reach + reachDeclarators rest)
  | .mk p none :: rest => p.reach + reachDeclarators rest

/-- The same of the tests of cases. -/
def reachTests : List Case → Nat
  | [] => 0
  | .mk (some e) _ :: rest => e.reach + reachTests rest
  | .mk none _ :: rest => reachTests rest

mutual

/-- How many tasks a statement takes at most out of time, itself included.  Nothing is counted in
the rounds of a loop. -/
def Stmt.reach : Stmt → Nat
  | .empty | .function _ _ _ | .break | .continue | .return none | .unsupported _
  | .whileLoop _ _ | .doLoop _ _ => 1
  | .expression e | .return (some e) | .throw e => e.reach + 1
  | .variables _ declarators => reachDeclarators declarators + 1
  | .block list => reachStmts list + 1
  | .branch test yes no => test.reach + (yes.reach + no.reach) + 1
  | .forLoop start _ _ _ => start.reach + 1
  | .forEach _ _ collection _ => collection.reach + 1
  | .tryCatch list parameter handler =>
    reachStmts list + (parameter.reach + reachStmts handler) + 1
  | .tryFinally body finalizer => body.reach + reachStmts finalizer + 1
  | .select e cases => e.reach + (reachTests cases + reachBodies cases) + 1

/-- The same of statements. -/
def reachStmts : List Stmt → Nat
  | [] => 0
  | s :: rest => s.reach + reachStmts rest

/-- The same of the statements of cases. -/
def reachBodies : List Case → Nat
  | [] => 0
  | .mk _ list :: rest => reachStmts list + reachBodies rest

end

/-- How many tasks a task takes at most out of time, itself included, if it is not a call. -/
def Task.reach? : Task → Option Nat
  | .expression e _ => some e.reach
  | .statement s _ => some s.reach
  | .bind p _ _ _ => some p.reach
  | .call _ _ _ => none

theorem Expr.reach_pos (e : Expr) : 0 < e.reach := by
  cases e <;> exact Nat.succ_pos _

theorem Pattern.reach_pos (p : Pattern) : 0 < p.reach := by
  cases p <;> exact Nat.succ_pos _

theorem Stmt.reach_pos (s : Stmt) : 0 < s.reach := by
  cases s with
  | «return» value => cases value <;> exact Nat.succ_pos _
  | _ => exact Nat.succ_pos _

/-- A task is one itself. -/
theorem Task.reach?_pos {task : Task} {n : Nat} (h : task.reach? = some n) : 0 < n := by
  cases task with
  | expression e scope => exact Option.some.inj h ▸ e.reach_pos
  | statement s scope => exact Option.some.inj h ▸ s.reach_pos
  | bind p value scope constant => exact Option.some.inj h ▸ p.reach_pos
  | call => cases h

/-! ## Strokes -/

/-- A number of strokes. -/
def strokes (n : Nat) : String := String.ofList (List.replicate n '|')

theorem strokes_zero : strokes 0 = "" := rfl

theorem strokes_append (m n : Nat) : strokes m ++ strokes n = strokes (m + n) := by
  rw [strokes, strokes, ← String.ofList_append, List.replicate_append_replicate]
  rfl

/-- A machine with strokes behind its output. -/
def Machine.marked (m : Machine) (n : Nat) : Machine := { m with output := m.output ++ strokes n }

@[simp] theorem Machine.heap_marked (m : Machine) (n : Nat) : (m.marked n).heap = m.heap := by
  cases m
  rfl

theorem Machine.marked_zero (m : Machine) : m.marked 0 = m := by
  rw [marked, strokes_zero, String.append_empty]

theorem Machine.marked_marked (m : Machine) (j k : Nat) :
    (m.marked j).marked k = m.marked (j + k) := by
  show ({ m with output := m.output ++ strokes j ++ strokes k } : Machine) = _
  rw [String.append_assoc, strokes_append]
  rfl

/-- Runs a task with a stroke for each task, and refuses calls as if there were no room for them. -/
def runTallied (source : List Char) (bound : Nat) : Nat → (task : Task) → Exec task.Result
  | 0, _ => throw .exhausted
  | depth + 1, task =>
    if task.reach? = none then throw .exhausted
    else do
      write (strokes 1)
      Runner.step ⟨source, bound, runTallied source bound depth⟩ task

/-- The runner that makes a stroke for each task. -/
def Runner.tallied (source : List Char) (bound depth : Nat) : Runner :=
  ⟨source, bound, runTallied source bound depth⟩

/-! ## Late runs -/

variable {α β : Type}

/-- The endings of a step and of the same one with strokes for its tasks, from a machine out of time
that has written `text` and one with `k` strokes more: both end alike, not for want of room, with
nothing written but at most `n` strokes. -/
inductive Late (n k : Nat) (text : String) : Ending α → Ending α → Prop
  | ok {a : α} {m : Machine} (j : Nat) (hj : j ≤ n) (hm : m.Expired) (htext : m.output = text) :
    Late n k text (.ok a m) (.ok a (m.marked (k + j)))
  | error {why : Abort} {m : Machine} (j : Nat) (hj : j ≤ n) (hm : m.Expired)
    (htext : m.output = text) (hwhy : why ≠ .exhausted) :
    Late n k text (.error why m) (.error why (m.marked (k + j)))

/-- Machines that have written the same without strokes. -/
theorem Machine.eq_of_marked {m m' : Machine} {j k : Nat} (h : m.marked j = m'.marked k)
    (houtput : m.output = m'.output) : m = m' := by
  cases m
  cases m'
  simp only [marked, mk.injEq] at h
  simp only [mk.injEq]
  exact ⟨h.1, h.2.1, h.2.2.1, houtput, h.2.2.2.2⟩

/-- An ending of a late run, and what the strokes add to it. -/
theorem Late.ends {n k : Nat} {text : String} {x y : Ending α} (h : Late n k text x y) :
    Ending.abort? x ≠ some .exhausted ∧ (Ending.machine x).Expired ∧
      (Ending.machine x).output = text ∧
      ∃ count ≤ n, y = Ending.onMachine (·.marked (k + count)) x := by
  cases h with
  | ok j hj hm htext => exact ⟨nofun, hm, htext, j, hj, rfl⟩
  | error j hj hm htext hwhy =>
    exact ⟨fun hend => hwhy (Option.some.inj hend), hm, htext, j, hj, rfl⟩

/-- Two endings that are as one with strokes are the same. -/
theorem Late.unique {n n' k : Nat} {text : String} {x x' y : Ending α} (h : Late n k text x y)
    (h' : Late n' k text x' y) : x = x' := by
  cases h with
  | @ok a m j hj hm htext =>
    generalize hy : EStateM.Result.ok a (m.marked (k + j)) = y at h'
    cases h' with
    | ok j' hj' hm' htext' =>
      obtain ⟨rfl, hmachine⟩ := EStateM.Result.ok.inj hy
      rw [Machine.eq_of_marked hmachine (htext.trans htext'.symm)]
    | error => cases hy
  | @error why m j hj hm htext hwhy =>
    generalize hy : EStateM.Result.error why (m.marked (k + j)) = y at h'
    cases h' with
    | ok => cases hy
    | error j' hj' hm' htext' hwhy' =>
      obtain ⟨rfl, hmachine⟩ := EStateM.Result.error.inj hy
      rw [Machine.eq_of_marked hmachine (htext.trans htext'.symm)]

/-- A step, and one that makes strokes, are late by at most `n` tasks if there is room for tasks of
this depth. -/
def LateBy (room n : Nat) (step step' : Exec α) : Prop :=
  n ≤ room → ∀ m k, m.Expired → Late n k m.output (step m) (step' (m.marked k))

/-- A step out of time does not write, and ends not for want of room. -/
def Quiet (step : Exec α) : Prop :=
  ∀ m k, m.Expired → Late 0 k m.output (step m) (step (m.marked k))

section

variable {room n n' : Nat} {step step' : Exec α} {next next' : α → Exec β}

theorem Late.shift {j k : Nat} {text : String} {x y : Ending α} (h : Late n' (k + j) text x y)
    (hj : j ≤ n) : Late (n + n') k text x y := by
  cases h with
  | ok i hi hm htext =>
    rw [Nat.add_assoc]
    exact .ok (j + i) (Nat.add_le_add hj hi) hm htext
  | error i hi hm htext hwhy =>
    rw [Nat.add_assoc]
    exact .error (j + i) (Nat.add_le_add hj hi) hm htext hwhy

theorem Late.mono {k : Nat} {text : String} {x y : Ending α} (h : Late n k text x y)
    (hle : n ≤ n') : Late n' k text x y := by
  cases h with
  | ok j hj hm htext => exact .ok j (Nat.le_trans hj hle) hm htext
  | error j hj hm htext hwhy => exact .error j (Nat.le_trans hj hle) hm htext hwhy

theorem LateBy.mono (h : LateBy room n step step') (hle : n ≤ n') : LateBy room n' step step' :=
  fun hroom m k hm => (h (Nat.le_trans hle hroom) m k hm).mono hle

/-- What begins out of time ends out of time, and with the same output. -/
theorem LateBy.bind (h : LateBy room n step step')
    (h' : ∀ a, LateBy room n' (next a) (next' a)) :
    LateBy room (n + n') (step >>= next) (step' >>= next') := by
  intro hroom m k hm
  have hstep := h (Nat.le_trans (Nat.le_add_right n n') hroom) m k hm
  rw [bind_apply, bind_apply]
  generalize step m = x, step' (m.marked k) = y at hstep
  cases hstep with
  | @ok a m' j hj hm' htext =>
    rw [← htext]
    exact (h' a (Nat.le_trans (Nat.le_add_left n' n) hroom) m' (k + j) hm').shift hj
  | error j hj hm' htext hwhy => exact .error j (Nat.le_add_right_of_le hj) hm' htext hwhy

theorem Quiet.lateBy (h : Quiet step) : LateBy room 0 step step := fun _ => h

/-- What comes behind a quiet step is all that counts. -/
theorem Quiet.then (h : Quiet step) (h' : ∀ a, LateBy room n (next a) (next' a)) :
    LateBy room n (step >>= next) (step >>= next') := by
  have hstep : LateBy room 0 step step := h.lateBy
  have hbind := hstep.bind h'
  rwa [Nat.zero_add] at hbind

/-- A quiet step behind another one does not count. -/
theorem LateBy.last (h : LateBy room n step step') (h' : ∀ a, Quiet (next a)) :
    LateBy room n (step >>= next) (step' >>= next) :=
  h.bind fun a => (h' a).lateBy

/-- Steps that depend on the machine, but not on what is written. -/
theorem LateBy.get {next next' : Machine → Exec β}
    (houtput : ∀ m k, next' (m.marked k) = next' m) (h : ∀ m, LateBy room n (next m) (next' m)) :
    LateBy room n (get >>= next) (get >>= next') := by
  intro hroom m k hm
  show Late n k m.output (next m m) (next' (m.marked k) (m.marked k))
  rw [houtput]
  exact h m hroom m k hm

/-- A stroke is made in front of a step. -/
theorem LateBy.stroke (h : LateBy room n step step') :
    LateBy (room + 1) (n + 1) step (do write (strokes 1); step') := by
  intro hroom m k hm
  have hstep := h (Nat.le_of_succ_le_succ hroom) m (k + 1) hm
  rw [← m.marked_marked k 1] at hstep
  have hshift := hstep.shift (Nat.le_refl 1)
  rwa [Nat.add_comm 1 n] at hshift

/-- The time is over at every look at the clock, and nothing comes behind it. -/
theorem lateBy_tick {next next' : Unit → Exec β} :
    LateBy room 0 (tick >>= next) (tick >>= next') := by
  intro _ m k hm
  have hmarked : (m.marked k).Expired := hm
  rw [hm.tick_bind, hmarked.tick_bind]
  exact .error 0 (Nat.le_refl 0) hm rfl Abort.noConfusion

/-- The ending of a step may be given to another one. -/
theorem LateBy.attempt {next next' : Except Abort α → Exec β} (h : LateBy room n step step')
    (hok : ∀ a, LateBy room n' (next (.ok a)) (next' (.ok a)))
    (herror : ∀ why, why ≠ .exhausted →
      LateBy room n' (next (.error why)) (next' (.error why))) :
    LateBy room (n + n') (Script.attempt step next) (Script.attempt step' next') := by
  intro hroom m k hm
  have hstep := h (Nat.le_trans (Nat.le_add_right n n') hroom) m k hm
  have hrest : n' ≤ room := Nat.le_trans (Nat.le_add_left n' n) hroom
  rw [attempt_apply, attempt_apply]
  generalize step m = x, step' (m.marked k) = y at hstep
  cases hstep with
  | @ok a m' j hj hm' htext =>
    rw [← htext]
    exact (hok a hrest m' (k + j) hm').shift hj
  | @error why m' j hj hm' htext hwhy =>
    rw [← htext]
    exact (herror why hwhy hrest m' (k + j) hm').shift hj

end

/-! ## Quiet steps -/

section

variable {step : Exec α} {next : α → Exec β}

@[simp] theorem quiet_pure (a : α) : Quiet (pure a) := fun _ _ hm => .ok 0 (Nat.le_refl 0) hm rfl

theorem quiet_throw {why : Abort} (hwhy : why ≠ .exhausted) : Quiet (throw why : Exec α) :=
  fun _ _ hm => .error 0 (Nat.le_refl 0) hm rfl hwhy

@[simp] theorem quiet_throw_value (value : Value) (place : Nat) :
    Quiet (throw (.throw value place) : Exec α) :=
  quiet_throw Abort.noConfusion

@[simp] theorem Quiet.bind (h : Quiet step) (h' : ∀ a, Quiet (next a)) : Quiet (step >>= next) :=
  (h.then fun a => (h' a).lateBy) (Nat.zero_le 0)

@[simp] theorem Quiet.map (f : α → β) (h : Quiet step) : Quiet (f <$> step) :=
  h.bind fun a => quiet_pure (f a)

/-- A step that depends on the machine, but not on what is written. -/
@[simp] theorem Quiet.get {next : Machine → Exec β} (houtput : ∀ m k, next (m.marked k) = next m)
    (h : ∀ m, Quiet (next m)) : Quiet (get >>= next) := by
  intro m k hm
  show Late 0 k m.output (next m m) (next (m.marked k) (m.marked k))
  rw [houtput]
  exact h m m k hm

@[simp] theorem Quiet.ite {c : Prop} [Decidable c] {yes no : Exec α} (h : Quiet yes)
    (h' : Quiet no) : Quiet (if c then yes else no) := by
  split
  · exact h
  · exact h'

/-- A change of the machine that touches neither the clock nor the output. -/
theorem quiet_modifyGet {f : Machine → α × Machine}
    (hmarked : ∀ m k, f (m.marked k) = ((f m).1, (f m).2.marked k))
    (hclock : ∀ m, (f m).2.clock = m.clock) (houtput : ∀ m, (f m).2.output = m.output) :
    Quiet (modifyGet f) := by
  intro m k hm
  have happly : ∀ m, (modifyGet f : Exec α) m = .ok (f m).1 (f m).2 := fun _ => rfl
  rw [happly, happly, hmarked]
  exact .ok 0 (Nat.le_refl 0) ((congrArg Clock.looksLeft (hclock m)).trans hm) (houtput m)

theorem quiet_modify {f : Machine → Machine} (hmarked : ∀ m k, f (m.marked k) = (f m).marked k)
    (hclock : ∀ m, (f m).clock = m.clock) (houtput : ∀ m, (f m).output = m.output) :
    Quiet (modify f) :=
  quiet_modifyGet (fun m k => by rw [hmarked]) hclock houtput

theorem quiet_forIn {list : List α} {round : α → PUnit → Exec (ForInStep PUnit)}
    (h : ∀ x, Quiet (round x ⟨⟩)) : Quiet (forIn list ⟨⟩ round) := by
  induction list with
  | nil => exact quiet_pure _
  | cons x list ih =>
    rw [List.forIn_cons]
    refine (h x).bind fun result => ?_
    cases result with
    | done _ => exact quiet_pure _
    | yield _ => exact ih

end

@[simp] theorem quiet_newFunction (name : Option String) (closure : Closure) :
    Quiet (newFunction name closure) :=
  quiet_modifyGet (fun _ _ => rfl) (fun _ => rfl) fun _ => rfl

/-- Simple steps that may not write are quiet. -/
@[simp] theorem Simple.quiet {step : Exec α} (h : Simple AnyPlace False step) : Quiet step := by
  induction h with
  | pure a => exact quiet_pure a
  | throw value => exact quiet_throw_value value _
  | bind _ _ ih ih' => exact ih.bind ih'
  | get hbare _ ih => exact Quiet.get (fun m _ => (hbare _).symm.trans (hbare m)) ih
  | heap | child => exact quiet_modifyGet (fun _ _ => rfl) (fun _ => rfl) fun _ => rfl
  | declare => exact quiet_modify (fun _ _ => rfl) (fun _ => rfl) fun _ => rfl
  | write hwrite => exact hwrite.elim

end Stencil.Script
