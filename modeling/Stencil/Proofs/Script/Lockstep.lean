import Stencil.Proofs.Script.Finalizer
import Stencil.Proofs.Script.Simple

/-! # Two clocks

A run whose time is over is compared with the same run on a clock that can be looked at once more.
Up to the look at which the first one stops, both are in the same state but for the clock.  From
then on the clock of the second one stays at its end, and the first one is on its way out; so
whether its time was over can be read off the clock that the second one ends with.
-/
namespace Stencil.Script

/-! ## Machines on a clock -/

/-- A machine with a clock that can be looked at a number of times. -/
def Machine.withLooks (m : Machine) (looks : Nat) : Machine := { m with clock := ⟨some looks⟩ }

section

variable (m : Machine) (looks : Nat)

end

variable (good : List Stmt → Prop)

/-- All finalizers in the functions that a machine keeps are good. -/
def Machine.Keeps (m : Machine) : Prop :=
  ∀ f, KeepPatterns good (m.closures.getD f default).parameters ∧
    KeepStmts good (m.closures.getD f default).body

variable {good} {α β : Type}

/-! ## Endings -/

/-- How a step ends. -/
abbrev Ending (α : Type) := EStateM.Result Abort Machine α

/-- The machine that a step has ended with. -/
def Ending.machine : Ending α → Machine
  | .ok _ m => m
  | .error _ m => m

/-- Why a run stops if not by what the script has thrown. -/
def Abort.IsLimit : Abort → Prop
  | .timeout | .exhausted => True
  | .throw _ _ => False

variable (good) in
/-- An ending on a clock that has come to its end, with a result that meets a condition. -/
inductive Over (post : α → Prop) : Ending α → Prop
  | ok {a : α} {m : Machine} (ha : post a) (hm : m.Keeps good) : Over post (.ok a (m.withLooks 0))
  | error {why : Abort} {m : Machine} (hm : m.Keeps good) : Over post (.error why (m.withLooks 0))

variable (good) in
/-- The endings of the same step on a clock, and on one that can be looked at once more: the same,
or on the first one the time was over and this has not been caught. -/
inductive Paired (post : α → Prop) : Ending α → Ending α → Prop
  | ok {a : α} {m : Machine} (n : Nat) (ha : post a) (hm : m.Keeps good) :
    Paired post (.ok a (m.withLooks n)) (.ok a (m.withLooks (n + 1)))
  | error {why : Abort} {m : Machine} (n : Nat) (hm : m.Keeps good) :
    Paired post (.error why (m.withLooks n)) (.error why (m.withLooks (n + 1)))
  | stopped {why : Abort} {m : Machine} {r : Ending α} (hwhy : why.IsLimit) (hm : m.Keeps good)
    (hr : Over good post r) : Paired post (.error why (m.withLooks 0)) r

variable (good) in
/-- A step that keeps two runs in step until the time of one of them is over, does not catch that,
and does not turn back a clock that has come to its end. -/
structure InStep (step : Exec α) (post : α → Prop) : Prop where
  paired : ∀ (m : Machine) (n : Nat), m.Keeps good →
    Paired good post (step (m.withLooks n)) (step (m.withLooks (n + 1)))
  stopped : ∀ m : Machine, m.Keeps good → Over good post (step (m.withLooks 0))

variable (good) in
/-- The same of a step of whose results nothing is asked. -/
abbrev Steady (step : Exec α) : Prop := InStep good step fun _ => True

section

variable {mid : α → Prop} {post : β → Prop} {step : Exec α} {next : α → Exec β}

theorem InStep.pure {a : α} {post : α → Prop} (ha : post a) :
    InStep good (Pure.pure a) post where
  paired _ n hm := .ok n ha hm
  stopped _ hm := .ok ha hm

theorem inStep_throw (why : Abort) {post : α → Prop} :
    InStep good (throw why : Exec α) post where
  paired _ n hm := .error n hm
  stopped _ hm := .error hm

/-- What comes of an ending if another step follows. -/
def goOn (next : α → Exec β) : Ending α → Ending β
  | .ok a m => next a m
  | .error why m => .error why m

theorem bind_apply (step : Exec α) (next : α → Exec β) (m : Machine) :
    (step >>= next) m = goOn next (step m) := by
  show EStateM.bind step next m = _
  unfold EStateM.bind
  cases step m <;> rfl

/-- What two steps end normally with, each of them has ended normally with. -/
theorem exec_bind_eq_ok {b : β} {m m' : Machine} (h : (step >>= next) m = .ok b m') :
    ∃ a now, step m = .ok a now ∧ next a now = .ok b m' := by
  rw [bind_apply] at h
  cases hstep : step m with
  | error why now =>
    rw [hstep] at h
    cases h
  | ok a now =>
    rw [hstep] at h
    exact ⟨a, now, rfl, h⟩

theorem Over.bind {r : Ending α} (h : Over good mid r)
    (h' : ∀ a, mid a → InStep good (next a) post) :
    Over good post (goOn next r) := by
  cases h with
  | ok ha hm => exact (h' _ ha).stopped _ hm
  | error hm => exact .error hm

theorem InStep.bind (h : InStep good step mid) (h' : ∀ a, mid a → InStep good (next a) post) :
    InStep good (step >>= next) post where
  paired m n hm := by
    have hstep := h.paired m n hm
    rw [bind_apply, bind_apply]
    generalize step (m.withLooks n) = x, step (m.withLooks (n + 1)) = y at hstep
    cases hstep with
    | ok n ha hm => exact (h' _ ha).paired _ n hm
    | error n hm => exact .error n hm
    | stopped hwhy hm hr => exact .stopped hwhy hm (hr.bind h')
  stopped m hm := by
    rw [bind_apply]
    exact (h.stopped m hm).bind h'

theorem InStep.then (h : Steady good step) (h' : ∀ a, InStep good (next a) post) :
    InStep good (step >>= next) post :=
  h.bind fun a _ => h' a

/-- A step that depends on the machine, but not on its clock. -/
theorem InStep.get {next : Machine → Exec β}
    (hclock : ∀ m looks, next (m.withLooks looks) = next m)
    (h : ∀ m, m.Keeps good → InStep good (next m) post) : InStep good (get >>= next) post where
  paired m n hm := by
    show Paired good post (next (m.withLooks n) (m.withLooks n))
      (next (m.withLooks (n + 1)) (m.withLooks (n + 1)))
    rw [hclock, hclock]
    exact (h m hm).paired m n hm
  stopped m hm := by
    show Over good post (next (m.withLooks 0) (m.withLooks 0))
    rw [hclock]
    exact (h m hm).stopped m hm

/-- A change of the machine that does not touch its clock and keeps good functions. -/
theorem inStep_modifyGet {f : Machine → α × Machine} {post : α → Prop}
    (hclock : ∀ m looks, f (m.withLooks looks) = ((f m).1, (f m).2.withLooks looks))
    (hkeeps : ∀ m, m.Keeps good → (f m).2.Keeps good) (hpost : ∀ m, post (f m).1) :
    InStep good (modifyGet f) post := by
  have happly : ∀ m looks, (modifyGet f : Exec α) (m.withLooks looks) =
      .ok (f m).1 ((f m).2.withLooks looks) := fun m looks => by
    show (match f (m.withLooks looks) with | (a, s) => EStateM.Result.ok a s) = _
    rw [hclock]
  exact ⟨fun m n hm => by rw [happly, happly]; exact .ok n (hpost m) (hkeeps m hm),
    fun m hm => by rw [happly]; exact .ok (hpost m) (hkeeps m hm)⟩

end

/-! ## Steps that do not look at the clock -/

@[simp] theorem steady_pure (a : α) : Steady good (pure a) := .pure trivial

@[simp] theorem steady_throw (why : Abort) : Steady good (throw why : Exec α) := inStep_throw why

@[simp] theorem Steady.then {step : Exec α} {next : α → Exec β} (h : Steady good step)
    (h' : ∀ a, Steady good (next a)) : Steady good (step >>= next) :=
  InStep.then h h'

@[simp] theorem Steady.map {step : Exec α} (f : α → β) (h : Steady good step) :
    Steady good (f <$> step) :=
  InStep.then h fun _ => .pure trivial

@[simp] theorem Steady.get {next : Machine → Exec β}
    (hclock : ∀ m looks, next (m.withLooks looks) = next m) (h : ∀ m, Steady good (next m)) :
    Steady good (get >>= next) :=
  InStep.get hclock fun m _ => h m

@[simp] theorem Steady.ite {c : Prop} [Decidable c] {step other : Exec α}
    (h : Steady good step) (h' : Steady good other) :
    Steady good (if c then step else other) := by
  split
  · exact h
  · exact h'

theorem steady_modify {f : Machine → Machine}
    (hclock : ∀ m looks, f (m.withLooks looks) = (f m).withLooks looks)
    (hclosures : ∀ m, (f m).closures = m.closures) : Steady good (modify f) := by
  refine inStep_modifyGet (fun m looks => by rw [hclock]) (fun m hm => ?_) fun _ => trivial
  unfold Machine.Keeps
  rw [hclosures]
  exact hm

/-- A function that is made is kept. -/
theorem steady_newFunction (name : Option String) {parameters : List Pattern} {body : List Stmt}
    (scope : Nat) (hparameters : KeepPatterns good parameters) (hbody : KeepStmts good body) :
    Steady good (newFunction name ⟨parameters, body, scope⟩) := by
  refine inStep_modifyGet (fun _ _ => rfl) (fun m hm f => ?_) fun _ => trivial
  rw [Array.getD_eq_getD_getElem?, Array.getElem?_push]
  split
  · exact ⟨hparameters, hbody⟩
  · rw [← Array.getD_eq_getD_getElem?]
    exact hm f

/-- Simple steps do not look at the clock. -/
@[simp] theorem Simple.steady {step : Exec α} (h : Simple AnyPlace True step) :
    Steady good step := by
  induction h with
  | pure a => exact steady_pure a
  | throw value => exact steady_throw _
  | bind _ _ ih ih' => exact ih.then ih'
  | get hbare _ ih => exact Steady.get (fun m _ => (hbare _).symm.trans (hbare m)) ih
  | heap => exact inStep_modifyGet (fun _ _ => rfl) (fun _ hm => hm) fun _ => trivial
  | child => exact inStep_modifyGet (fun _ _ => rfl) (fun _ hm => hm) fun _ => trivial
  | declare | write => exact steady_modify (fun _ _ => rfl) fun _ => rfl

/-! ## Loops, attempts and clocks -/

/-- A loop over a list is steady if its rounds are. -/
theorem steady_forIn {list : List α} {round : α → PUnit → Exec (ForInStep PUnit)}
    (h : ∀ x ∈ list, Steady good (round x ⟨⟩)) : Steady good (forIn list ⟨⟩ round) := by
  induction list with
  | nil => exact steady_pure _
  | cons x list ih =>
    rw [List.forIn_cons]
    refine (h x List.mem_cons_self).then fun result => ?_
    cases result with
    | done _ => exact steady_pure _
    | yield _ => exact ih fun y hy => h y (List.mem_cons_of_mem x hy)

/-- A step whose ending is given to another one. -/
def attempt (step : Exec α) (next : Except Abort α → Exec β) : Exec β := do
  let result : Except Abort α ← EStateM.tryCatch (Except.ok <$> step) fun why => return .error why
  next result

theorem attempt_apply (step : Exec α) (next : Except Abort α → Exec β) (m : Machine) :
    attempt step next m =
      match step m with
      | .ok a m' => next (.ok a) m'
      | .error why m' => next (.error why) m' := by
  have hmap : (Except.ok <$> step : Exec (Except Abort α)) m =
      goOn (fun a => pure (Except.ok a)) (step m) := bind_apply step _ m
  unfold attempt
  rw [bind_apply]
  unfold EStateM.tryCatch
  rw [hmap]
  cases step m <;> rfl

/-- A handler is a case of what comes behind an attempt. -/
theorem tryCatch_eq_attempt (step : Exec α) (handle : Abort → Exec α) :
    EStateM.tryCatch step handle =
      attempt step fun
        | .ok a => pure a
        | .error why => handle why := by
  funext m
  rw [attempt_apply]
  unfold EStateM.tryCatch
  cases step m <;> rfl

/-- An ending may be given to a step that passes on that the time is over. -/
theorem InStep.attempt {step : Exec α} {next : Except Abort α → Exec β} (h : Steady good step)
    (hnext : ∀ result, Steady good (next result))
    (hlimit : ∀ (why : Abort) (m : Machine), why.IsLimit → m.Keeps good →
      ∃ why' m', Abort.IsLimit why' ∧ Machine.Keeps good m' ∧
        next (.error why) (m.withLooks 0) = .error why' (m'.withLooks 0)) :
    Steady good (attempt step next) := by
  have hover : ∀ x, Over good (fun _ => True) x → Over good (fun _ => True)
      (match x with
      | .ok a m' => next (.ok a) m'
      | .error why m' => next (.error why) m') := fun x hx => by
    cases hx with
    | ok _ hm | error hm => exact (hnext _).stopped _ hm
  refine ⟨fun m n hm => ?_, fun m hm => ?_⟩
  · have hstep := h.paired m n hm
    rw [attempt_apply, attempt_apply]
    generalize step (m.withLooks n) = x, step (m.withLooks (n + 1)) = y at hstep
    cases hstep with
    | ok n _ hm | error n hm => exact (hnext _).paired _ n hm
    | stopped hwhy hm hr =>
      obtain ⟨why', m', hwhy', hm', heq⟩ := hlimit _ _ hwhy hm
      simp only [heq]
      exact .stopped hwhy' hm' (hover _ hr)
  · rw [attempt_apply]
    exact hover _ (h.stopped m hm)

/-- A step with a handler that passes on that the time is over. -/
theorem InStep.catch {step : Exec α} {handle : Abort → Exec α} (h : Steady good step)
    (hthrow : ∀ v place, Steady good (handle (.throw v place)))
    (hlimit : ∀ why, why.IsLimit → handle why = throw why) :
    Steady good (EStateM.tryCatch step handle) := by
  rw [tryCatch_eq_attempt]
  refine h.attempt (fun result => ?_) fun why m hwhy hm => ?_
  · cases result with
    | ok a => exact steady_pure a
    | error why =>
      cases why with
      | throw v place => exact hthrow v place
      | timeout =>
        simp only [hlimit .timeout trivial]
        exact steady_throw _
      | exhausted =>
        simp only [hlimit .exhausted trivial]
        exact steady_throw _
  · exact ⟨why, m, hwhy, hm, congrFun (hlimit why hwhy) _⟩

/-- Only a look at the clock tells two clocks apart. -/
@[simp] theorem steady_tick : Steady good tick where
  paired m n hm := by
    cases n with
    | zero =>
      have hover : Over good (fun _ => True) (tick (m.withLooks 1)) :=
        Over.ok (a := ()) (m := m) trivial hm
      exact .stopped (m := m) (show Abort.IsLimit .timeout from trivial) hm hover
    | succ n => exact Paired.ok (a := ()) (m := m) n trivial hm
  stopped m hm := by
    show Over good _ (.error .timeout (m.withLooks 0))
    exact .error hm

end Stencil.Script
