import Stencil.Proofs.Script.Demand
import Stencil.Proofs.Script.Lockstep

/-! # Steps in accord

Two steps are in accord if they do the same to every machine in which a number of functions are
running, and whose functions meet a demand; if they leave these as they are; and if they throw from
allowed places only.  A step that is in accord with itself is just one that keeps all this.  What
the steps of evaluation are made of is in accord, and so is what they are put together to.
-/
namespace Stencil.Script

variable (D : Demand) (d : Nat)

/-- What is thrown comes from an allowed place. -/
def Demand.Allows : Abort → Prop
  | .throw _ place => D.place place
  | .timeout | .exhausted => True

/-- A machine in which `d` functions are running inside each other, and whose functions meet a
demand. -/
structure Machine.At (m : Machine) : Prop where
  meets : m.Meets D
  depth : m.depth = d

variable {α β : Type}

/-- An ending in such a machine, with a result that meets a condition or with an allowed end. -/
def Settles (post : α → Prop) : Ending α → Prop
  | .ok a m => m.At D d ∧ post a
  | .error why m => m.At D d ∧ D.Allows why

/-- Steps that do the same to all such machines, and end in such machines again. -/
def InAccord (step step' : Exec α) (post : α → Prop) : Prop :=
  ∀ m : Machine, m.At D d → step' m = step m ∧ Settles D d post (step m)

/-- Such steps of whose results nothing is asked. -/
abbrev Accord (step step' : Exec α) : Prop := InAccord D d step step' fun _ => True

variable {D d}

theorem Settles.mono {post post' : α → Prop} {x : Ending α} (h : Settles D d post x)
    (hpost : ∀ a, post a → post' a) : Settles D d post' x := by
  cases x with
  | ok a m => exact ⟨h.1, hpost a h.2⟩
  | error why m => exact h

section

variable {mid : α → Prop} {post : β → Prop} {step step' : Exec α} {next next' : α → Exec β}

theorem InAccord.mono {post post' : α → Prop} (h : InAccord D d step step' post)
    (hpost : ∀ a, post a → post' a) : InAccord D d step step' post' :=
  fun m hm => ⟨(h m hm).1, (h m hm).2.mono hpost⟩

theorem InAccord.pure {a : α} {post : α → Prop} (ha : post a) :
    InAccord D d (Pure.pure a) (Pure.pure a) post := fun _ hm => ⟨rfl, hm, ha⟩

theorem inAccord_throw (why : Abort) (h : D.Allows why) {post : α → Prop} :
    InAccord D d (throw why : Exec α) (throw why) post := fun _ hm => ⟨rfl, hm, h⟩

theorem InAccord.bind (h : InAccord D d step step' mid)
    (h' : ∀ a, mid a → InAccord D d (next a) (next' a) post) :
    InAccord D d (step >>= next) (step' >>= next') post := by
  intro m hm
  obtain ⟨hsame, hends⟩ := h m hm
  rw [bind_apply, bind_apply, hsame]
  cases hstep : step m with
  | ok a m' =>
    rw [hstep] at hends
    exact h' a hends.2 m' hends.1
  | error why m' =>
    rw [hstep] at hends
    exact ⟨rfl, hends⟩

theorem InAccord.then (h : Accord D d step step')
    (h' : ∀ a, InAccord D d (next a) (next' a) post) :
    InAccord D d (step >>= next) (step' >>= next') post :=
  h.bind fun a _ => h' a

/-- Steps that depend on the machine. -/
theorem InAccord.get {next next' : Machine → Exec β}
    (h : ∀ m, m.At D d → InAccord D d (next m) (next' m) post) :
    InAccord D d (get >>= next) (get >>= next') post :=
  fun m hm => h m hm m hm

/-- A change of the machine that leaves depth and functions as they are, or adds such functions. -/
theorem inAccord_modifyGet {f : Machine → α × Machine} {post : α → Prop}
    (hat : ∀ m, m.At D d → (f m).2.At D d) (hpost : ∀ m, post (f m).1) :
    InAccord D d (modifyGet f) (modifyGet f) post :=
  fun m hm => ⟨rfl, hat m hm, hpost m⟩

end

/-! ## Steps that do not call -/

@[simp] theorem accord_pure (a : α) : Accord D d (pure a) (pure a) := .pure trivial

@[simp] theorem accord_exhausted : Accord D d (throw .exhausted : Exec α) (throw .exhausted) :=
  inAccord_throw .exhausted trivial

@[simp] theorem Accord.then {step step' : Exec α} {next next' : α → Exec β}
    (h : Accord D d step step') (h' : ∀ a, Accord D d (next a) (next' a)) :
    Accord D d (step >>= next) (step' >>= next') :=
  InAccord.then h h'

@[simp] theorem Accord.map {step step' : Exec α} (f : α → β) (h : Accord D d step step') :
    Accord D d (f <$> step) (f <$> step') :=
  InAccord.then h fun _ => .pure trivial

@[simp] theorem Accord.get {next next' : Machine → Exec β}
    (h : ∀ m, Accord D d (next m) (next' m)) : Accord D d (get >>= next) (get >>= next') :=
  InAccord.get fun m _ => h m

@[simp] theorem Accord.ite {c : Prop} [Decidable c] {step step' other other' : Exec α}
    (h : Accord D d step step') (h' : Accord D d other other') :
    Accord D d (if c then step else other) (if c then step' else other') := by
  split
  · exact h
  · exact h'

theorem accord_modifyGet {f : Machine → α × Machine}
    (hclosures : ∀ m, (f m).2.closures = m.closures) (hdepth : ∀ m, (f m).2.depth = m.depth) :
    Accord D d (modifyGet f) (modifyGet f) := by
  refine inAccord_modifyGet (fun m hm => ⟨?_, (hdepth m).trans hm.depth⟩) fun _ => trivial
  unfold Machine.Meets
  rw [hclosures]
  exact hm.meets

theorem accord_modify {f : Machine → Machine} (hclosures : ∀ m, (f m).closures = m.closures)
    (hdepth : ∀ m, (f m).depth = m.depth) : Accord D d (modify f) (modify f) :=
  accord_modifyGet (f := fun m => ((), f m)) hclosures hdepth

/-- A function that is made is kept. -/
theorem accord_newFunction (name : Option String) {parameters : List Pattern} {body : List Stmt}
    (scope : Nat) (hparameters : MeetPatterns D D.silent parameters)
    (hbody : MeetStmts D false body) :
    Accord D d (newFunction name ⟨parameters, body, scope⟩)
      (newFunction name ⟨parameters, body, scope⟩) := by
  refine inAccord_modifyGet (fun m hm => ⟨fun f => ?_, hm.depth⟩) fun _ => trivial
  rw [Array.getD_eq_getD_getElem?, Array.getElem?_push]
  split
  · exact ⟨hparameters, hbody⟩
  · rw [← Array.getD_eq_getD_getElem?]
    exact hm.meets f

@[simp] theorem accord_tick : Accord D d tick tick := by
  refine Accord.get fun m => ?_
  split
  · exact accord_pure _
  · exact inAccord_throw .timeout trivial
  · exact accord_modify (fun _ => rfl) fun _ => rfl

/-- Simple steps that throw from allowed places only are in accord with themselves. -/
@[simp] theorem Simple.accord {step : Exec α} (h : Simple D.place True step) :
    Accord D d step step := by
  induction h with
  | pure a => exact accord_pure a
  | throw value hplace => exact inAccord_throw (.throw value _) hplace
  | bind _ _ ih ih' => exact ih.then ih'
  | get _ _ ih => exact Accord.get ih
  | heap | child => exact accord_modifyGet (fun _ => rfl) fun _ => rfl
  | declare | write => exact accord_modify (fun _ => rfl) fun _ => rfl

/-- What raises an error has no result. -/
theorem inAccord_raise {place : Nat} (hplace : D.place place) (kind : ErrorKind)
    (message : String) :
    InAccord D d (raise kind message place : Exec α) (raise kind message place) fun _ => False :=
  InAccord.then (simple_newError kind message).accord fun value =>
    inAccord_throw (.throw value place) hplace

/-! ## Loops and attempts -/

/-- A loop over a list is in accord if its rounds are. -/
theorem accord_forIn {list : List α} {round round' : α → PUnit → Exec (ForInStep PUnit)}
    (h : ∀ x ∈ list, Accord D d (round x ⟨⟩) (round' x ⟨⟩)) :
    Accord D d (forIn list ⟨⟩ round) (forIn list ⟨⟩ round') := by
  induction list with
  | nil => exact accord_pure _
  | cons x list ih =>
    rw [List.forIn_cons, List.forIn_cons]
    refine (h x List.mem_cons_self).then fun result => ?_
    cases result with
    | done _ => exact accord_pure _
    | yield _ => exact ih fun y hy => h y (List.mem_cons_of_mem x hy)

/-- An ending may be given to another step, which may pass on why a run stops. -/
theorem Accord.attempt {step step' : Exec α} {next next' : Except Abort α → Exec β}
    (h : Accord D d step step') (hok : ∀ a, Accord D d (next (.ok a)) (next' (.ok a)))
    (herror : ∀ why, D.Allows why → Accord D d (next (.error why)) (next' (.error why))) :
    Accord D d (attempt step next) (attempt step' next') := by
  intro m hm
  obtain ⟨hsame, hends⟩ := h m hm
  rw [attempt_apply, attempt_apply, hsame]
  cases hstep : step m with
  | ok a m' =>
    rw [hstep] at hends
    exact hok a m' hends.1
  | error why m' =>
    rw [hstep] at hends
    exact herror why hends.2 m' hends.1

/-- A step with a handler. -/
theorem Accord.catch {step step' : Exec α} {handle handle' : Abort → Exec α}
    (h : Accord D d step step')
    (hhandle : ∀ why, D.Allows why → Accord D d (handle why) (handle' why)) :
    Accord D d (EStateM.tryCatch step handle) (EStateM.tryCatch step' handle') := by
  rw [tryCatch_eq_attempt, tryCatch_eq_attempt]
  exact h.attempt (fun a => accord_pure a) hhandle

/-- An ending with a change of its machine. -/
def Ending.onMachine (change : Machine → Machine) : Ending α → Ending α
  | .ok a m => .ok a (change m)
  | .error why m => .error why (change m)

theorem Runner.deeper_apply (step : Exec α) (m : Machine) :
    Runner.deeper step m = Ending.onMachine (fun m' => { m' with depth := m'.depth - 1 })
      (step { m with depth := m.depth + 1 }) := by
  show Stencil.Script.attempt step _ { m with depth := m.depth + 1 } = _
  rw [attempt_apply]
  cases step { m with depth := m.depth + 1 } <;> rfl

/-- One level deeper one function more is running. -/
theorem Accord.deeper {step step' : Exec α} (h : Accord D (d + 1) step step') :
    Accord D d (Runner.deeper step) (Runner.deeper step') := by
  have hback : ∀ m' : Machine, m'.At D (d + 1) →
      Machine.At D d { m' with depth := m'.depth - 1 } := fun m' hm' =>
    ⟨hm'.meets, by simp [hm'.depth]⟩
  intro m hm
  obtain ⟨hsame, hends⟩ := h { m with depth := m.depth + 1 } ⟨hm.meets, by rw [← hm.depth]⟩
  rw [Runner.deeper_apply, Runner.deeper_apply, hsame]
  refine ⟨rfl, ?_⟩
  cases hstep : step { m with depth := m.depth + 1 } with
  | ok a m' =>
    rw [hstep] at hends
    exact ⟨hback m' hends.1, trivial⟩
  | error why m' =>
    rw [hstep] at hends
    exact ⟨hback m' hends.1, hends.2⟩

end Stencil.Script
