import Stencil.Proofs.Script.AccordStatement

/-! # Where errors come from

A run that throws names the place where a part of the script begins, whatever has been thrown before
and caught, and however deep in calls.  So a script all of whose parts stand in its source throws
from there only.
-/
namespace Stencil.Script

/-- The demand that all parts stand in a source and take up some of it. -/
def Demand.within (source : List Char) : Demand :=
  ⟨fun span => span.start < span.stop ∧ span.stop ≤ source.length, false⟩

theorem Demand.lt_of_place_within {source : List Char} {place : Nat}
    (h : (Demand.within source).place place) : place < source.length := by
  obtain ⟨span, ⟨hlt, hle⟩, rfl⟩ := h
  omega

variable {source : List Char} {bound : Nat} {D : Demand}

/-- **Every runner does what it does from allowed places**, by induction on the depth that it goes
down. -/
theorem coupled_self (hloud : D.silent = false) (source : List Char) (bound depth d : Nat) :
    (Runner.mk source bound (runTask source bound depth)).Coupled D false d
      (runTask source bound depth) := by
  induction depth generalizing d with
  | zero => exact ⟨fun _ _ => accord_exhausted⟩
  | succ depth ih =>
    refine ⟨fun task htask => ?_⟩
    let r : Runner := ⟨source, bound, runTask source bound depth⟩
    have hcall : ∀ closure values place, closure.Meets D → D.place place →
        Accord D d (r.callClosure closure values place) (r.callClosure closure values place) :=
      fun closure values place hclosure hplace =>
        accord_enter (hloud.symm ▸ ih d) (fun _ => ih (d + 1)) hclosure values hplace
    have hstep : Accord D d (r.step task) (r.stepWith r.callClosure task) :=
      (ih d).step (fun _ => hcall) htask
    rwa [Runner.stepWith_callClosure] at hstep

/-- A run throws from allowed places only. -/
theorem place_of_throw (hloud : D.silent = false) {globals : Globals} {clock : Clock}
    {program : Program} (hprogram : MeetStmts D false program) {v : Value} {place : Nat}
    {m : Machine}
    (h : execProgram source bound globals program (.start clock) = .error (.throw v place) m) :
    D.place place := by
  have hends := (accord_execWith (coupled_self hloud source bound bound 0) globals hprogram _
    (Machine.at_start clock)).2
  rw [show execWith source bound (runTask source bound bound) globals program =
    execProgram source bound globals program from rfl, h] at hends
  exact hends.2

end Stencil.Script
