import Stencil.Proofs.Engine.Virtual
import Stencil.Proofs.Script.Expiry

/-! # Renderings whose time is over

An engine tells by the kind of an error whether the time of a script was over, and of what a script
throws the kind is the script's own choice.  So a rendering is told to have taken too long if its
script was stopped when its time was over, or if the script has thrown an object that calls itself
so.  Everything else that a script throws is told with its own kind and message, and traced.
-/
namespace Stencil
open Script (Abort Machine amplyBounded execProgram markAt readProgram runScript timeoutKind)

namespace Engine

variable (e : Engine) (p : Program) (context : Json)

/-- An engine comes to execute the script of a program, and it stops in a machine for a reason. -/
structure Stops (why : Abort) (m : Machine) : Prop where
  failures : e.includePolicy = .fail → p.failures = []
  stops : ∃ script, readProgram p.code = .ok script ∧
    execProgram p.code.toList amplyBounded ⟨p.root.path, context⟩ script
      (.start (.ofMillis e.timeoutMillis)) = .error why m

/-- How a rendering of what was compiled tells of the time limit: it was exceeded if the script was
stopped when its time was over, or if it has thrown a value that has just this kind; all other
values that it throws are told with their kind and message, and traced from their place. -/
structure TellsTimeouts (compiled : Except CompileError Program) (rendering : Rendering) :
    Prop where
  timeout (millis : Nat) : rendering = .error (.timeout millis) ↔
    millis = e.timeoutMillis ∧ ∃ p why m, compiled = .ok p ∧ e.Stops p context why m ∧
      ((why = .timeout ∧ m.Expired) ∨
        ∃ v place, why = .throw v place ∧ (m.heap.describe v).1 = timeoutKind)
  thrown (p : Program) (v : Script.Value) (place : Nat) (m : Machine) (hcompiled : compiled = .ok p)
    (hstops : e.Stops p context (.throw v place) m)
    (hkind : (m.heap.describe v).1 ≠ timeoutKind) :
    rendering = .error (.traced (m.heap.describe v).1 (m.heap.describe v).2
      (p.diagnose (markAt p.code.toList place)))

variable {e p context}

/-- Unless a directive that has failed forbids it, a program is executed as a script. -/
theorem execute_eq_runScript (hexecutor : e.executor = scriptExecutor)
    (hfailures : e.includePolicy = .fail → p.failures = []) :
    e.execute p context =
      match runScript p.code ⟨p.root.path, context⟩ (.ofMillis e.timeoutMillis) with
      | .ok output => .ok ⟨output, p.failures.map p.failureError⟩
      | .error error => .error (p.scriptError e.timeoutMillis [error]) := by
  unfold execute
  split
  · rename_i hpolicy hlist
    rw [hfailures hpolicy] at hlist
    cases hlist
  · rw [hexecutor, scriptExecutor]
    cases runScript p.code ⟨p.root.path, context⟩ (.ofMillis e.timeoutMillis) <;> rfl

/-- What is told of a script that stops. -/
theorem execute_of_stops (hexecutor : e.executor = scriptExecutor) {why : Abort} {m : Machine}
    (h : e.Stops p context why m) :
    e.execute p context = .error (p.scriptError e.timeoutMillis
      [Script.reportAbort p.code.toList m.heap why]) := by
  obtain ⟨script, hread, hexec⟩ := h.stops
  rw [execute_eq_runScript hexecutor h.failures]
  unfold runScript Script.runProgram
  rw [hread]
  simp only
  rw [hexec]

/-- Nothing but the script of a program tells of a time limit. -/
theorem stops_of_timeout (hexecutor : e.executor = scriptExecutor) {millis : Nat}
    (h : e.execute p context = .error (.timeout millis)) :
    ∃ why m, e.Stops p context why m := by
  by_cases hfailures : e.includePolicy = .fail → p.failures = []
  · rw [execute_eq_runScript hexecutor hfailures] at h
    unfold runScript at h
    cases hread : readProgram p.code with
    | error fault =>
      -- that a script cannot be read is an error of another kind
      rw [hread] at h
      simp [Program.scriptError, Script.reportFault, timeoutKind] at h
    | ok script =>
      rw [hread] at h
      unfold Script.runProgram at h
      cases hexec : execProgram p.code.toList amplyBounded ⟨p.root.path, context⟩ script
          (.start (.ofMillis e.timeoutMillis)) with
      | ok _ m =>
        simp only [hexec] at h
        cases h
      | error why m => exact ⟨why, m, hfailures, script, hread, hexec⟩
  · push Not at hfailures
    obtain ⟨hpolicy, hne⟩ := hfailures
    obtain ⟨f, rest, hlist⟩ := List.exists_cons_of_ne_nil hne
    unfold execute at h
    rw [hpolicy, hlist] at h
    cases h

theorem timeout_iff_of_stops (hexecutor : e.executor = scriptExecutor) {why : Abort} {m : Machine}
    (h : e.Stops p context why m) (millis : Nat) :
    e.execute p context = .error (.timeout millis) ↔ millis = e.timeoutMillis ∧
      ((why = .timeout ∧ m.Expired) ∨
        ∃ v place, why = .throw v place ∧ (m.heap.describe v).1 = timeoutKind) := by
  rw [execute_of_stops hexecutor h]
  cases why with
  | throw v place =>
    simp only [Program.scriptError, Script.reportAbort]
    by_cases hkind : (m.heap.describe v).1 = timeoutKind
    · simp [hkind, eq_comm]
    · simp [hkind]
  | timeout =>
    obtain ⟨script, -, hexec⟩ := h.stops
    have hexpired : m.Expired := Script.expired_of_timeout hexec
    simp [Program.scriptError, Script.reportAbort, hexpired, eq_comm]
  | exhausted => simp [Program.scriptError, Script.reportAbort, timeoutKind]

theorem execute_thrown (hexecutor : e.executor = scriptExecutor) {v : Script.Value} {place : Nat}
    {m : Machine} (h : e.Stops p context (.throw v place) m)
    (hkind : (m.heap.describe v).1 ≠ timeoutKind) :
    e.execute p context = .error (.traced (m.heap.describe v).1 (m.heap.describe v).2
      (p.diagnose (markAt p.code.toList place))) := by
  rw [execute_of_stops hexecutor h]
  simp [Program.scriptError, Script.reportAbort, hkind]

theorem execute_eq_timeout_iff (hexecutor : e.executor = scriptExecutor) (millis : Nat) :
    e.execute p context = .error (.timeout millis) ↔ millis = e.timeoutMillis ∧
      ∃ why m, e.Stops p context why m ∧ ((why = .timeout ∧ m.Expired) ∨
        ∃ v place, why = .throw v place ∧ (m.heap.describe v).1 = timeoutKind) := by
  constructor
  · intro h
    obtain ⟨why, m, hstops⟩ := stops_of_timeout hexecutor h
    obtain ⟨hmillis, hwhy⟩ := (timeout_iff_of_stops hexecutor hstops millis).mp h
    exact ⟨hmillis, why, m, hstops, hwhy⟩
  · rintro ⟨hmillis, why, m, hstops, hwhy⟩
    exact (timeout_iff_of_stops hexecutor hstops millis).mpr ⟨hmillis, hwhy⟩

theorem tellsTimeouts_execute (hexecutor : e.executor = scriptExecutor) :
    e.TellsTimeouts context (.ok p) (e.execute p context) := by
  refine ⟨fun millis => ?_, fun p v place m hcompiled hstops hkind => ?_⟩
  · rw [execute_eq_timeout_iff hexecutor]
    simp
  · obtain rfl := Except.ok.inj hcompiled
    exact execute_thrown hexecutor hstops hkind

theorem tellsTimeouts_executeCompiled (hexecutor : e.executor = scriptExecutor)
    (compiled : Except CompileError Program) :
    e.TellsTimeouts context compiled (e.executeCompiled compiled context) := by
  cases compiled with
  | error reason => exact ⟨fun millis => by simp [executeCompiled], nofun⟩
  | ok p => exact tellsTimeouts_execute hexecutor

/-- **The time limit is told of scripts whose time is over, and of those that say so themselves.**
Whatever an engine that executes programs as scripts renders, a file or a text that stands for one,
it tells that the time limit was exceeded just if the script was stopped, and then its time was over;
or if what the script has thrown, and not caught, is an object that has the kind of that error. Every
other value that a script throws and does not catch is told with its kind and its message, and traced
from the place where it was thrown. -/
theorem render_tellsTimeouts (hexecutor : e.executor = scriptExecutor) (path : String)
    (context : Json) (w : World) :
    e.TellsTimeouts context (e.compile path w).1 (e.render path context w).1 ∧
    ∀ source, e.TellsTimeouts context (e.compileSource path source w).1
      (e.renderSource path source context w).1 := by
  refine ⟨?_, fun source => ?_⟩
  · rw [rendering_render]
    exact tellsTimeouts_executeCompiled hexecutor _
  · rw [rendering_renderSource]
    exact tellsTimeouts_executeCompiled hexecutor _

/-- A file whose script never ends. -/
def endlessFile : Files := Files.empty.write "/main.exp" (.text "<?exp while (true) \x7b\x7d ?>")

/-- Without any time the script is stopped. -/
theorem render_tellsTimeouts_endlessFile :
    let e := { default with timeoutMillis := 0 }
    let w := e.history endlessFile .session []
    e.executor = scriptExecutor ∧ (e.render "/main.exp" .null w).1 = .error (.timeout 0) ∧
      ∃ p why m, (e.compile "/main.exp" w).1 = .ok p ∧ e.Stops p .null why m ∧
        ((why = .timeout ∧ m.Expired) ∨
          ∃ v place, why = .throw v place ∧ (m.heap.describe v).1 = timeoutKind) := by
  intro e w
  have hexecutor : e.executor = scriptExecutor := rfl
  have hrender : (e.render "/main.exp" .null w).1 = .error (.timeout 0) := by decide +kernel
  have htells := (render_tellsTimeouts hexecutor "/main.exp" .null w).1
  exact ⟨hexecutor, hrender, ((htells.timeout 0).mp hrender).2⟩

/-! ## A script that says its time is over -/

/-- The kind and the message of what a script throws in an engine and does not catch, and whether
its time is over then. -/
def thrown? (e : Engine) (p : Program) (context : Json) : Option ((String × String) × Bool) :=
  match p.failures, readProgram p.code with
  | [], .ok script =>
    match execProgram p.code.toList amplyBounded ⟨p.root.path, context⟩ script
      (.start (.ofMillis e.timeoutMillis)) with
    | .error (.throw v _) m => some (m.heap.describe v, m.Expired)
    | _ => none
  | _, _ => none

theorem stops_of_thrown? {told : String × String} {expired : Bool}
    (h : e.thrown? p context = some (told, expired)) :
    ∃ v place m, e.Stops p context (.throw v place) m ∧ m.heap.describe v = told ∧
      decide m.Expired = expired := by
  unfold thrown? at h
  split at h
  · rename_i script hfailures hread
    split at h
    · rename_i v place m hexec
      obtain ⟨htold, hexpired⟩ := Prod.mk.inj (Option.some.inj h)
      exact ⟨v, place, m, ⟨fun _ => hfailures, script, hread, hexec⟩, htold, hexpired⟩
    · cases h
  · cases h

/-- A file whose script throws an object that it has made itself. -/
def lateFile : Files := Files.empty.write "/main.exp"
  (.text "<?exp throw \x7b name: 'TimeoutError', message: 'x' \x7d ?>")

/-- The time of a script is told to be over because the script says so, while it is not. -/
theorem thrown_timeout_is_told :
    let e := Engine.ofOptions .default
    let w := e.history lateFile .session []
    (e.render "/main.exp" .null w).1 = .error (.timeout 30000) ∧
      ∃ p v place m, (e.compile "/main.exp" w).1 = .ok p ∧ e.Stops p .null (.throw v place) m ∧
        m.heap.describe v = ("TimeoutError", "x") ∧ ¬ m.Expired := by
  dsimp only
  rw [ofOptions_default]
  refine ⟨by decide +kernel, ?_⟩
  have hthrown : (default.compile "/main.exp" (default.history lateFile .session [])).1.toOption.bind
      (default.thrown? · .null) = some (("TimeoutError", "x"), false) := by
    decide +kernel
  cases hcompiled : (default.compile "/main.exp" (default.history lateFile .session [])).1 with
  | error reason =>
    rw [hcompiled] at hthrown
    cases hthrown
  | ok p =>
    rw [hcompiled] at hthrown
    obtain ⟨v, place, m, hstops, htold, hexpired⟩ := stops_of_thrown? hthrown
    exact ⟨p, v, place, m, rfl, hstops, htold, of_decide_eq_false hexpired⟩

end Engine

end Stencil
