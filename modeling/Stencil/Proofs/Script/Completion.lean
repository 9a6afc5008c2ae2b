import Stencil.Proofs.Script.Hoisting
import Stencil.Proofs.Script.Timeout

/-! # Whole runs, and runs that are cut short

A statement may end with a signal to the statements around it: that a loop or a selection is over,
that the next round begins, or that a function returns.  Around the statements of a program there
are none, and a run takes a signal that comes from one of them for the end of the program.  So an
output is that of a whole run, in which all statements of the program have been executed in their
order, or else of one that was cut short behind a statement which signals go out from.
-/
namespace Stencil.Script

/-- What a statement can tell the statements around it. -/
inductive Signal
  | break
  | continue
  | return
  deriving DecidableEq, Repr

/-- The signal that a statement ends with, unless it ends normally. -/
def Flow.signal? : Flow → Option Signal
  | .normal => none
  | .break => some .break
  | .continue => some .continue
  | .return _ => some .return

mutual

/-- Whether a signal may go out from a statement.  A loop keeps `break` and `continue` for itself,
and a selection keeps `break`. -/
def Stmt.emits (σ : Signal) : Stmt → Bool
  | .break => σ == .break
  | .continue => σ == .continue
  | .return _ => σ == .return
  | .block list => emitStmts σ list
  | .branch _ yes no => yes.emits σ || no.emits σ
  | .forLoop _ _ _ body | .forEach _ _ _ body | .whileLoop _ body | .doLoop body _ =>
    σ == .return && body.emits σ
  | .tryCatch list _ handler => emitStmts σ list || emitStmts σ handler
  | .tryFinally body finalizer => body.emits σ || emitStmts σ finalizer
  | .select _ cases => σ != .break && emitCases σ cases
  | .empty | .expression _ | .variables _ _ | .function _ _ _ | .throw _ | .unsupported _ => false

def emitStmts (σ : Signal) : List Stmt → Bool
  | [] => false
  | s :: rest => s.emits σ || emitStmts σ rest

def emitCases (σ : Signal) : List Case → Bool
  | [] => false
  | .mk _ list :: rest => emitStmts σ list || emitCases σ rest

end

/-- A statement ended normally, or with a signal that may go out from it. -/
def Flow.Within (emits : Signal → Bool) (flow : Flow) : Prop :=
  ∀ σ, flow.signal? = some σ → emits σ = true

theorem within_normal (emits : Signal → Bool) : Flow.normal.Within emits := nofun

theorem Flow.Within.mono {emits emits' : Signal → Bool} {flow : Flow} (h : flow.Within emits)
    (hemits : ∀ σ, emits σ = true → emits' σ = true) : flow.Within emits' :=
  fun σ hσ => hemits σ (h σ hσ)

theorem Flow.eq_normal_of_signal? {flow : Flow} (h : flow.signal? = none) : flow = .normal := by
  cases flow with
  | normal => rfl
  | _ => cases h

/-! ## What steps end with -/

section

variable {α β : Type} {mid post : α → Prop} {step : Exec α}

/-- All that a step ends normally with meets a condition. -/
def EndsIn (post : α → Prop) (step : Exec α) : Prop :=
  ∀ m a m', step m = .ok a m' → post a

theorem endsIn_pure {a : α} (ha : post a) : EndsIn post (pure a) := by
  rintro m b m' h
  cases h
  exact ha

theorem endsIn_throw (why : Abort) : EndsIn post (throw why : Exec α) := nofun

theorem EndsIn.mono (h : EndsIn mid step) (hpost : ∀ a, mid a → post a) : EndsIn post step :=
  fun m a m' hstep => hpost a (h m a m' hstep)

theorem EndsIn.bind {next : α → Exec β} {post : β → Prop} (h : EndsIn mid step)
    (h' : ∀ a, mid a → EndsIn post (next a)) : EndsIn post (step >>= next) := by
  intro m b m' hb
  obtain ⟨a, now, hstep, hnext⟩ := exec_bind_eq_ok hb
  exact h' a (h m a now hstep) now b m' hnext

/-- Only what stands last tells what a sequence of steps ends with. -/
theorem EndsIn.behind {next : α → Exec β} {post : β → Prop} (h : ∀ a, EndsIn post (next a)) :
    EndsIn post (step >>= next) := by
  have hany : EndsIn (fun _ => True) step := fun _ _ _ _ => trivial
  exact hany.bind fun a _ => h a

theorem EndsIn.attempt {next : Except Abort α → Exec β} {post : β → Prop} (h : EndsIn mid step)
    (hok : ∀ a, mid a → EndsIn post (next (.ok a)))
    (herror : ∀ why, EndsIn post (next (.error why))) : EndsIn post (attempt step next) := by
  intro m b m' hb
  rw [attempt_apply] at hb
  cases hstep : step m with
  | ok a now =>
    rw [hstep] at hb
    exact hok a (h m a now hstep) now b m' hb
  | error why now =>
    rw [hstep] at hb
    exact herror why now b m' hb

theorem EndsIn.catch {handle : Abort → Exec α} (h : EndsIn post step)
    (hhandle : ∀ why, EndsIn post (handle why)) : EndsIn post (EStateM.tryCatch step handle) := by
  rw [tryCatch_eq_attempt]
  exact h.attempt (fun a ha => endsIn_pure ha) hhandle

end

/-! ## What statements end with -/

/-- All statements end normally or with a signal that may go out from them. -/
def Runner.Signals (r : Runner) : Prop :=
  ∀ s scope, EndsIn (Flow.Within fun σ => s.emits σ) (r.statement s scope)

namespace Runner.Signals

variable {r : Runner} (h : r.Signals)

include h

theorem statements (scope : Nat) (list : List Stmt) :
    EndsIn (Flow.Within fun σ => emitStmts σ list) (r.statements scope list) := by
  induction list with
  | nil => exact endsIn_pure (within_normal _)
  | cons s rest ih =>
    refine (h s scope).bind fun flow hflow => ?_
    split
    · exact ih.mono fun flow hflow => hflow.mono fun σ hσ => Bool.or_eq_true_iff.mpr (.inr hσ)
    · exact endsIn_pure (hflow.mono fun σ hσ => Bool.or_eq_true_iff.mpr (.inl hσ))

theorem block (list : List Stmt) (scope : Nat) :
    EndsIn (Flow.Within fun σ => emitStmts σ list) (r.block list scope) :=
  EndsIn.behind fun _ => h.statements scope list

theorem innerBlock (list : List Stmt) (scope : Nat) :
    EndsIn (Flow.Within fun σ => emitStmts σ list) (r.innerBlock list scope) :=
  EndsIn.behind fun inner => h.block list inner

/-! ### Loops -/

omit h in
/-- The signals that go out from a loop: `break` and `continue` do not. -/
theorem within_afterRound {emits : Signal → Bool} {flow flow' : Flow} (hflow : flow.Within emits)
    (hround : afterRound flow = some flow') :
    flow'.Within fun σ => σ == .return && emits σ := by
  cases flow with
  | normal | «continue» => cases hround
  | «break» =>
    cases hround
    exact within_normal _
  | «return» v =>
    cases hround
    rintro _ ⟨⟩
    exact hflow .return rfl

omit h in
theorem repeatFrom {post : Flow → Prop} {round : Exec (Option Flow)}
    (hround : EndsIn (fun result => ∀ flow, result = some flow → post flow) round) (n : Nat) :
    EndsIn post (Runner.repeatFrom round n) := by
  induction n with
  | zero => exact endsIn_throw _
  | succ n ih =>
    refine hround.bind fun result hresult => ?_
    split
    · exact endsIn_pure (hresult _ rfl)
    · exact ih

theorem forLoop (start : Stmt) (test update : Option Expr) (body : Stmt) (scope : Nat) :
    EndsIn (Flow.Within fun σ => σ == .return && body.emits σ)
      (r.forLoop start test update body scope) := by
  refine EndsIn.behind fun inner => EndsIn.behind fun _ => repeatFrom (EndsIn.behind fun _ => ?_) _
  cases test
  all_goals
    refine EndsIn.behind fun goesOn => ?_
    cases goesOn with
    | false =>
      refine endsIn_pure ?_
      rintro _ ⟨⟩
      exact within_normal _
    | true =>
      refine (h body inner).bind fun flow hflow => ?_
      split
      · rename_i flow' hround
        refine endsIn_pure ?_
        rintro _ ⟨⟩
        exact within_afterRound hflow hround
      · cases update with
        | none => exact endsIn_pure nofun
        | some e => exact EndsIn.behind fun _ => endsIn_pure nofun

theorem forItems (target : Target) (body : Stmt) (scope : Nat) (items : List Value) :
    EndsIn (Flow.Within fun σ => σ == .return && body.emits σ)
      (r.forItems target body scope items) := by
  induction items with
  | nil => exact endsIn_pure (within_normal _)
  | cons item rest ih =>
    refine EndsIn.behind fun _ => EndsIn.behind fun inner => EndsIn.behind fun _ => ?_
    refine (h body inner).bind fun flow hflow => ?_
    split
    · rename_i flow' hround
      exact endsIn_pure (within_afterRound hflow hround)
    · exact ih

theorem whileLoop (test : Expr) (body : Stmt) (scope : Nat) :
    EndsIn (Flow.Within fun σ => σ == .return && body.emits σ) (r.whileLoop test body scope) := by
  refine repeatFrom (EndsIn.behind fun _ => EndsIn.behind fun v => ?_) _
  split
  · exact (h body scope).bind fun flow hflow =>
      endsIn_pure fun flow' hround => within_afterRound hflow hround
  · refine endsIn_pure ?_
    rintro _ ⟨⟩
    exact within_normal _

theorem doLoop (body : Stmt) (test : Expr) (scope : Nat) :
    EndsIn (Flow.Within fun σ => σ == .return && body.emits σ) (r.doLoop body test scope) := by
  refine repeatFrom (EndsIn.behind fun _ => (h body scope).bind fun flow hflow => ?_) _
  split
  · rename_i flow' hround
    refine endsIn_pure ?_
    rintro _ ⟨⟩
    exact within_afterRound hflow hround
  · refine EndsIn.behind fun v => ?_
    split
    · exact endsIn_pure nofun
    · refine endsIn_pure ?_
      rintro _ ⟨⟩
      exact within_normal _

/-! ### Attempts and selections -/

theorem tryCatch (list : List Stmt) (parameter : Pattern) (handler : List Stmt) (scope : Nat) :
    EndsIn (Flow.Within fun σ => emitStmts σ list || emitStmts σ handler)
      (r.tryCatch list parameter handler scope) := by
  refine EndsIn.catch ?_ fun why => ?_
  · exact (h.innerBlock list scope).mono fun flow hflow =>
      hflow.mono fun σ hσ => Bool.or_eq_true_iff.mpr (.inl hσ)
  · cases why with
    | throw v place =>
      refine EndsIn.behind fun inner => EndsIn.behind fun _ => ?_
      exact (h.block handler inner).mono fun flow hflow =>
        hflow.mono fun σ hσ => Bool.or_eq_true_iff.mpr (.inr hσ)
    | timeout | exhausted => exact endsIn_throw _

theorem tryFinally (body : Stmt) (finalizer : List Stmt) (scope : Nat) :
    EndsIn (Flow.Within fun σ => body.emits σ || emitStmts σ finalizer)
      (r.tryFinally body finalizer scope) := by
  have hfinalizer := h.innerBlock finalizer scope
  refine (h body scope).attempt (fun flow hflow => ?_) fun why => ?_
  · refine hfinalizer.bind fun flow' hflow' => ?_
    split
    · exact endsIn_pure (hflow.mono fun σ hσ => Bool.or_eq_true_iff.mpr (.inl hσ))
    · exact endsIn_pure (hflow'.mono fun σ hσ => Bool.or_eq_true_iff.mpr (.inr hσ))
  · refine hfinalizer.bind fun flow' hflow' => ?_
    split
    · exact endsIn_throw _
    · exact endsIn_pure (hflow'.mono fun σ hσ => Bool.or_eq_true_iff.mpr (.inr hσ))

theorem cases (scope : Nat) (list : List Case) :
    EndsIn (Flow.Within fun σ => σ != .break && emitCases σ list) (r.cases scope list) := by
  induction list with
  | nil => exact endsIn_pure (within_normal _)
  | cons c rest ih =>
    obtain ⟨test, list⟩ := c
    refine (h.statements scope list).bind fun flow hflow => ?_
    cases flow with
    | normal =>
      refine ih.mono fun flow hflow => hflow.mono fun σ hσ => ?_
      rw [Bool.and_eq_true] at hσ ⊢
      exact ⟨hσ.1, Bool.or_eq_true_iff.mpr (.inr hσ.2)⟩
    | «break» => exact endsIn_pure (within_normal _)
    | «continue» | «return» v =>
      refine endsIn_pure ?_
      rintro _ ⟨⟩
      exact Bool.or_eq_true_iff.mpr (.inl (hflow _ rfl))

omit h in
/-- The cases behind some of the cases send no other signals than all of them. -/
theorem emitCases_of_suffix {σ : Signal} {rest list : List Case} (hrest : rest <:+ list)
    (hσ : emitCases σ rest = true) : emitCases σ list = true := by
  induction list with
  | nil => rwa [List.suffix_nil.mp hrest] at hσ
  | cons c list ih =>
    rcases List.suffix_cons_iff.mp hrest with rfl | hbehind
    · exact hσ
    · obtain ⟨test, statements⟩ := c
      exact Bool.or_eq_true_iff.mpr (.inr (ih hbehind))

omit h in
theorem matching (v : Value) (scope : Nat) (list : List Case) :
    EndsIn (fun found => ∀ rest, found = some rest → rest <:+ list) (r.matching v scope list) := by
  induction list with
  | nil => exact endsIn_pure nofun
  | cons c list ih =>
    have hbehind : EndsIn (fun found => ∀ rest, found = some rest → rest <:+ c :: list)
        (r.matching v scope list) :=
      ih.mono fun found hfound rest hrest => (hfound rest hrest).trans (List.suffix_cons c list)
    obtain ⟨_ | e, statements⟩ := c
    · exact hbehind
    · refine EndsIn.behind fun value => ?_
      split
      · refine endsIn_pure ?_
        rintro _ ⟨⟩
        exact List.suffix_rfl
      · exact hbehind

theorem select (e : Expr) (list : List Case) (scope : Nat) :
    EndsIn (Flow.Within fun σ => σ != .break && emitCases σ list) (r.select e list scope) := by
  have hcases : ∀ inner rest, rest <:+ list →
      EndsIn (Flow.Within fun σ => σ != .break && emitCases σ list) (r.cases inner rest) :=
    fun inner rest hrest => (h.cases inner rest).mono fun flow hflow => hflow.mono fun σ hσ => by
      rw [Bool.and_eq_true] at hσ ⊢
      exact ⟨hσ.1, emitCases_of_suffix hrest hσ.2⟩
  refine EndsIn.behind fun v => EndsIn.behind fun inner => ?_
  refine (matching v inner list).bind fun found hfound => ?_
  split
  · exact hcases inner _ (hfound _ rfl)
  · exact hcases inner _ (List.dropWhile_suffix _)

/-! ### All statements -/

theorem statementStep (s : Stmt) (scope : Nat) :
    EndsIn (Flow.Within fun σ => s.emits σ) (r.statementStep s scope) := by
  cases s with
  | empty | function => exact endsIn_pure (within_normal _)
  | expression e => exact EndsIn.behind fun _ => endsIn_pure (within_normal _)
  | «variables» kind list =>
    exact EndsIn.behind fun _ => EndsIn.behind fun _ => endsIn_pure (within_normal _)
  | block list => exact h.innerBlock list scope
  | branch test yes no =>
    refine EndsIn.behind fun v => ?_
    split
    · exact (h yes scope).mono fun flow hflow =>
        hflow.mono fun σ hσ => Bool.or_eq_true_iff.mpr (.inl hσ)
    · exact (h no scope).mono fun flow hflow =>
        hflow.mono fun σ hσ => Bool.or_eq_true_iff.mpr (.inr hσ)
  | forLoop start test update body => exact h.forLoop start test update body scope
  | forEach traversal target collection body =>
    refine EndsIn.behind fun v => ?_
    cases traversal with
    | values | keys => exact EndsIn.behind fun items => h.forItems target body scope items
  | whileLoop test body => exact h.whileLoop test body scope
  | doLoop body test => exact h.doLoop body test scope
  | «break» | «continue» =>
    refine endsIn_pure ?_
    rintro _ ⟨⟩
    rfl
  | «return» value =>
    have hreturn : ∀ v, (Flow.return v).Within fun σ => (Stmt.return value).emits σ := by
      rintro v _ ⟨⟩
      rfl
    cases value with
    | none => exact endsIn_pure (hreturn _)
    | some e => exact EndsIn.behind fun v => endsIn_pure (hreturn v)
  | throw e => exact EndsIn.behind fun v => endsIn_throw _
  | tryCatch list parameter handler => exact h.tryCatch list parameter handler scope
  | tryFinally body finalizer => exact h.tryFinally body finalizer scope
  | select e list => exact h.select e list scope
  | unsupported span => exact EndsIn.behind fun v => endsIn_throw _

end Runner.Signals

/-- **A statement ends normally, or with a signal that may go out from it**, at any depth. -/
theorem Runner.signals_deep (source : List Char) (bound depth : Nat) :
    (deep source bound depth).Signals := by
  induction depth with
  | zero => exact fun s scope => endsIn_throw _
  | succ depth ih => exact ih.statementStep

/-! ## Lists of statements that are executed -/

namespace Runner

variable (r : Runner) (scope : Nat)

/-- All statements of a list are executed in their order, each one to its end and from the machine
that the one before it has left. -/
inductive Completes : List Stmt → Machine → Machine → Prop
  | nil (m : Machine) : Completes [] m m
  | cons {s : Stmt} {rest : List Stmt} {m mid m' : Machine}
    (hstatement : r.statement s scope m = .ok .normal mid) (hrest : Completes rest mid m') :
    Completes (s :: rest) m m'

/-- The statements of a list are executed up to one that ends with a signal which may go out from
it, and the ones behind it are not. -/
def CutShort (list : List Stmt) (m m' : Machine) : Prop :=
  ∃ front s behind mid flow σ, list = front ++ s :: behind ∧ r.Completes scope front m mid ∧
    r.statement s scope mid = .ok flow m' ∧ flow.signal? = some σ ∧ s.emits σ = true

variable {r scope} {list : List Stmt} {m m' : Machine}

theorem statements_eq_normal_iff :
    r.statements scope list m = .ok .normal m' ↔ r.Completes scope list m m' := by
  constructor
  · intro h
    induction list generalizing m with
    | nil =>
      cases h
      exact .nil _
    | cons s rest ih =>
      obtain ⟨flow, mid, hstatement, hrest⟩ := exec_bind_eq_ok h
      cases flow with
      | normal => exact .cons hstatement (ih hrest)
      | _ => cases hrest
  · intro h
    induction h with
    | nil m => rfl
    | cons hstatement _ ih =>
      unfold Runner.statements
      rw [bind_apply, hstatement]
      exact ih

/-- A list ends with a signal where the statements up to one of its statements are executed, and
this one ends with the signal. -/
theorem statements_eq_signal_iff {flow : Flow} (hflow : flow ≠ .normal) :
    r.statements scope list m = .ok flow m' ↔
      ∃ front s behind mid, list = front ++ s :: behind ∧ r.Completes scope front m mid ∧
        r.statement s scope mid = .ok flow m' := by
  constructor
  · intro h
    induction list generalizing m with
    | nil =>
      cases h
      exact absurd rfl hflow
    | cons s rest ih =>
      obtain ⟨first, mid, hstatement, hrest⟩ := exec_bind_eq_ok h
      cases first with
      | normal =>
        obtain ⟨front, t, behind, now, rfl, hfront, ht⟩ := ih hrest
        exact ⟨s :: front, t, behind, now, rfl, .cons hstatement hfront, ht⟩
      | _ =>
        cases hrest
        exact ⟨[], s, rest, m, rfl, .nil m, hstatement⟩
  · rintro ⟨front, s, behind, mid, rfl, hfront, hs⟩
    induction hfront with
    | nil mid =>
      unfold Runner.statements
      rw [List.nil_append]
      simp only
      rw [bind_apply, hs]
      cases flow with
      | normal => exact absurd rfl hflow
      | _ => rfl
    | cons hstatement _ ih =>
      rw [List.cons_append]
      unfold Runner.statements
      rw [bind_apply, hstatement]
      exact ih hs

/-- A list of statements has an end, if nothing stops it, where all of it has been executed, or
where it was cut short. -/
theorem Signals.statements_eq_ok_iff (h : r.Signals) :
    (∃ flow, r.statements scope list m = .ok flow m') ↔
      r.Completes scope list m m' ∨ r.CutShort scope list m m' := by
  constructor
  · rintro ⟨flow, hflow⟩
    cases hσ : flow.signal? with
    | none =>
      obtain rfl := Flow.eq_normal_of_signal? hσ
      exact .inl (statements_eq_normal_iff.mp hflow)
    | some σ =>
      have hne : flow ≠ .normal := by
        rintro rfl
        cases hσ
      obtain ⟨front, s, behind, mid, hlist, hfront, hs⟩ := (statements_eq_signal_iff hne).mp hflow
      exact .inr ⟨front, s, behind, mid, flow, σ, hlist, hfront, hs, hσ, h s scope mid flow m' hs σ hσ⟩
  · rintro (hall | ⟨front, s, behind, mid, flow, σ, hlist, hfront, hs, hσ, -⟩)
    · exact ⟨.normal, statements_eq_normal_iff.mpr hall⟩
    · have hne : flow ≠ .normal := by
        rintro rfl
        cases hσ
      exact ⟨flow, (statements_eq_signal_iff hne).mpr ⟨front, s, behind, mid, hlist, hfront, hs⟩⟩

/-- A list is only cut short by a statement that a signal may go out from. -/
theorem CutShort.emits (h : r.CutShort scope list m m') : ∃ s ∈ list, ∃ σ, s.emits σ = true := by
  obtain ⟨front, s, behind, mid, flow, σ, rfl, -, -, -, hσ⟩ := h
  exact ⟨s, List.mem_append_cons_self, σ, hσ⟩

end Runner

/-! ## Programs -/

variable {clock : Clock}

/-- What a program finds before its first statement: the names of all scripts and of its context,
and what its statements declare. -/
def prepare (globals : Globals) (program : Program) : Exec Unit := do
  install globals
  hoistAll Scopes.globalPlace program

/-- Neither the heap, the scopes nor the functions are the output or the clock. -/
theorem leads_hoist_begins (s : Stmt) :
    Leads (Machine.Begins clock) (hoist Scopes.globalPlace s) fun _ => Machine.Begins clock := by
  have hdeclare : ∀ place name value, Leads (Machine.Begins clock)
      (declare place name value false) fun _ => Machine.Begins clock := fun place name value =>
    leads_modify fun m hm =>
      ⟨(Scopes.size_declare place name value false).symm ▸ hm.scopes, hm.output, hm.clock⟩
  cases s with
  | function name parameters body =>
    have hfunction : Leads (Machine.Begins clock)
        (newFunction (some name) ⟨parameters, body, Scopes.globalPlace⟩)
        fun _ => Machine.Begins clock := fun _ hm => ⟨_, _, rfl, hm.scopes, hm.output, hm.clock⟩
    exact hfunction.bind fun f => hdeclare _ _ _
  | «variables» kind declarators =>
    cases kind with
    | var =>
      refine leads_get.bind fun m => ?_
      rintro _ ⟨rfl, hm⟩
      suffices hloop : Leads (Machine.Begins clock) _ fun _ => Machine.Begins clock from hloop _ hm
      refine Leads.bind (leads_forIn fun d _ => ?_) fun _ => leads_pure fun _ hm => hm
      split
      · refine leads_get.bind fun m => ?_
        rintro _ ⟨rfl, hm⟩
        suffices hround : Leads (Machine.Begins clock) _ fun result m' =>
          result = ForInStep.yield PUnit.unit ∧ m'.Begins clock from hround _ hm
        split
        · exact leads_pure fun _ hm => ⟨rfl, hm⟩
        · exact (hdeclare _ _ _).round
      · exact leads_pure fun _ hm => ⟨rfl, hm⟩
    | «let» | const => exact leads_pure fun _ hm => hm
  | _ => exact leads_pure fun _ hm => hm

/-- A program always comes to its first statement, and nothing has been written before. -/
theorem prepare_begins (globals : Globals) (program : Program) (clock : Clock) :
    ∃ m, prepare globals program (.start clock) = .ok () m ∧ m.Begins clock := by
  have hhoist : Leads (Machine.Begins clock) (hoistAll Scopes.globalPlace program)
      fun _ => Machine.Begins clock := by
    refine Leads.bind (leads_forIn fun s _ => (leads_hoist_begins s).round) fun _ => ?_
    exact leads_pure fun _ hm => hm
  obtain ⟨⟨⟩, m, hm, hbegins⟩ := hhoist _ (begins_begun globals clock)
  exact ⟨m, by rw [prepare, bind_eq_ok (install_start globals clock), hm], hbegins⟩

/-- The output of a program is what its statements have written where they have an end. -/
theorem runProgram_eq_ok_iff {source : List Char} {bound : Nat} {globals : Globals}
    {program : Program} {output : String} {m : Machine}
    (hm : prepare globals program (.start clock) = .ok () m) :
    runProgram source bound globals clock program = .ok output ↔
      ∃ m', (∃ flow, (Runner.bounded source bound).statements Scopes.globalPlace program m =
        .ok flow m') ∧ m'.output = output := by
  have hexec : execProgram source bound globals program (.start clock) =
      goOn (fun _ => pure ())
        ((Runner.bounded source bound).statements Scopes.globalPlace program m) := by
    have hsteps : execProgram source bound globals program = (do
        prepare globals program
        let _ ← (Runner.bounded source bound).statements Scopes.globalPlace program) := by
      simp only [execProgram, prepare, Runner.block_eq, bind_assoc]
    rw [hsteps, bind_apply, hm]
    exact bind_apply _ _ m
  rw [runProgram_eq_report, hexec]
  cases (Runner.bounded source bound).statements Scopes.globalPlace program m with
  | ok flow m' =>
    have hreport : Ending.report source (goOn (fun _ => pure ()) (.ok flow m')) = .ok m'.output :=
      rfl
    simp [hreport]
  | error why m' =>
    have hreport : Ending.report source (goOn (fun _ => pure ())
      (.error why m' : Ending Flow)) = .error (reportAbort source m'.heap why) := rfl
    simp [hreport]

/-- **An output is that of a whole run, or of one that was cut short.**  A program that can be read
comes to its first statement with nothing written.  From there on it has an output just if all its
statements are executed in their order, each one to its end, or if it is cut short by a statement
that a signal may go out from; every other run ends with an error.  If no signal may go out from the
statements of the program, an output is always that of a whole run. -/
theorem output_of_run {code : String} {program : Program}
    (hread : readProgram code = .ok program) (globals : Globals) (clock : Clock) :
    ∃ m, prepare globals program (.start clock) = .ok () m ∧ m.Begins clock ∧
      (∀ output, runScript code globals clock = .ok output ↔ ∃ m', m'.output = output ∧
        ((Runner.bounded code.toList amplyBounded).Completes Scopes.globalPlace program m m' ∨
          (Runner.bounded code.toList amplyBounded).CutShort Scopes.globalPlace program m m')) ∧
      ((∀ s ∈ program, ∀ σ, s.emits σ = false) →
        ∀ output, runScript code globals clock = .ok output ↔ ∃ m', m'.output = output ∧
          (Runner.bounded code.toList amplyBounded).Completes Scopes.globalPlace program m m') := by
  obtain ⟨m, hm, hbegins⟩ := prepare_begins globals program clock
  have hrun : ∀ output, runScript code globals clock = .ok output ↔ ∃ m', m'.output = output ∧
      ((Runner.bounded code.toList amplyBounded).Completes Scopes.globalPlace program m m' ∨
        (Runner.bounded code.toList amplyBounded).CutShort Scopes.globalPlace program m m') := by
    intro output
    have hsignals := Runner.signals_deep code.toList amplyBounded amplyBounded
    rw [← Runner.bounded_eq] at hsignals
    have hscript : runScript code globals clock =
        runProgram code.toList amplyBounded globals clock program := by
      unfold runScript
      rw [hread]
    rw [hscript, runProgram_eq_ok_iff hm]
    exact exists_congr fun m' => by rw [hsignals.statements_eq_ok_iff, and_comm]
  refine ⟨m, hm, hbegins, hrun, fun hsilent output => ?_⟩
  rw [hrun output]
  refine exists_congr fun m' => and_congr_right fun _ => or_iff_left ?_
  intro hcut
  obtain ⟨s, hs, σ, hσ⟩ := hcut.emits
  rw [hsilent s hs σ] at hσ
  cases hσ

/-- No signal may go out from a loop that is left by a `break`. -/
theorem output_of_run_loop :
    ∃ program, readProgram "while (true) \x7b write('a'); break; \x7d write('b');" =
        .ok program ∧
      (∀ s ∈ program, ∀ σ, s.emits σ = false) ∧
      ∃ m m', prepare ⟨"/main.exp", .null⟩ program (.start ⟨none⟩) = .ok () m ∧
        (Runner.bounded "while (true) \x7b write('a'); break; \x7d write('b');".toList
          amplyBounded).Completes Scopes.globalPlace program m m' ∧ m'.output = "ab" := by
  have hsilent : (match readProgram "while (true) \x7b write('a'); break; \x7d write('b');" with
      | .ok program => program.all fun s => [.break, .continue, .return].all fun σ => !s.emits σ
      | .error _ => false) = true := by decide +kernel
  cases hread : readProgram "while (true) \x7b write('a'); break; \x7d write('b');" with
  | error fault =>
    rw [hread] at hsilent
    cases hsilent
  | ok program =>
    rw [hread] at hsilent
    have hprogram : ∀ s ∈ program, ∀ σ, s.emits σ = false := fun s hs σ => by
      have hs := List.all_eq_true.mp hsilent s hs
      cases σ <;> simp_all
    obtain ⟨m, hm, -, -, hwhole⟩ := output_of_run hread ⟨"/main.exp", .null⟩ ⟨none⟩
    obtain ⟨m', houtput, hcompletes⟩ := (hwhole hprogram "ab").mp (by decide +kernel)
    exact ⟨program, rfl, hprogram, m, m', hm, hcompletes, houtput⟩

/-- A statement that is a bare `break`. -/
def Stmt.isBreak : Stmt → Bool
  | .break => true
  | _ => false

theorem Stmt.eq_of_isBreak {s : Stmt} (h : s.isBreak = true) : s = .break := by
  cases s with
  | «break» => rfl
  | _ => cases h

/-- A `break` among the statements of a program ends the run, with an output that does not hold what
the statement behind it writes. -/
theorem break_hides_statement :
    ∃ program, readProgram "write('a'); break; write('b');" = .ok program ∧
      runScript "write('a'); break; write('b');" ⟨"/main.exp", .null⟩ ⟨none⟩ = .ok "a" ∧
      ∀ m m', ¬ (Runner.bounded "write('a'); break; write('b');".toList amplyBounded).Completes
        Scopes.globalPlace program m m' := by
  have hbreak : ∀ source bound depth scope m mid,
      (Runner.deep source bound depth).statement .break scope m ≠ .ok .normal mid := by
    intro source bound depth scope m mid h
    cases depth with
    | zero | succ depth => cases h
  have hstatements : (readProgram "write('a'); break; write('b');").toOption.map
      (List.map Stmt.isBreak) = some [false, true, false] := by decide +kernel
  cases hread : readProgram "write('a'); break; write('b');" with
  | error fault =>
    rw [hread] at hstatements
    cases hstatements
  | ok program =>
    rw [hread] at hstatements
    have hlist : program.map Stmt.isBreak = [false, true, false] := Option.some.inj hstatements
    obtain ⟨first, rest, rfl, -, hrest⟩ := List.map_eq_cons_iff.mp hlist
    obtain ⟨second, last, rfl, hsecond, -⟩ := List.map_eq_cons_iff.mp hrest
    obtain rfl := Stmt.eq_of_isBreak hsecond
    refine ⟨_, rfl, by decide +kernel, fun m m' h => ?_⟩
    obtain - | ⟨-, - | ⟨hstatement, -⟩⟩ := h
    exact hbreak _ _ _ _ _ _ hstatement

end Stencil.Script
