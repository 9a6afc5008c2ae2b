import Stencil.Proofs.Script.LastingRun

/-! # When the time is over

A clock that has come to its end stays there, and that the time is over is only ever the reason for
a stop where the clock has come to its end.  So a run that stops for this reason ends on such a
clock, whatever finalizers have been executed on the way out.
-/
namespace Stencil.Script

/-- The time of a machine is over. -/
def Machine.Expired (m : Machine) : Prop := m.clock.looksLeft = some 0

instance (m : Machine) : Decidable m.Expired := inferInstanceAs (Decidable (_ = _))

/-- Out of time a look at the clock stops, and nothing comes behind it. -/
theorem Machine.Expired.tick_bind {α : Type} {m : Machine} (hm : m.Expired)
    (next : Unit → Exec α) : (tick >>= next) m = .error .timeout m := by
  obtain ⟨scopes, heap, closures, output, depth, ⟨looks⟩⟩ := m
  obtain rfl : looks = some 0 := hm
  rfl

/-- The time stays over, and a step stops for this reason only if it is. -/
structure Machine.RunsOut (m : Machine) (why? : Option Abort) (m' : Machine) : Prop where
  stays (h : m.Expired) : m'.Expired
  stopped (h : why? = some .timeout) : m'.Expired

/-- A change that leaves the clock as it is. -/
theorem Machine.RunsOut.of_clock {m m' : Machine} (h : m'.clock = m.clock) :
    m.RunsOut none m' where
  stays hm := (congrArg Clock.looksLeft h).trans hm
  stopped := nofun

instance : Lasting Machine.RunsOut where
  refl _ := .of_clock rfl
  trans h h' := ⟨h'.stays ∘ h.stays, h'.stopped⟩
  handled h h' := ⟨h'.stays ∘ h.stays, h'.stopped⟩
  passed h h' := ⟨h'.stays ∘ h.stays, h'.stays ∘ h.stopped⟩
  throw _ _ _ := ⟨id, nofun⟩
  exhausted _ := ⟨id, nofun⟩
  timeout h := ⟨id, fun _ => h⟩
  look h := ⟨fun hm => (by rw [Machine.Expired, h] at hm; cases hm), nofun⟩
  heap _ _ := .of_clock rfl
  closure _ _ := .of_clock rfl
  child _ _ _ := .of_clock rfl
  declare _ _ _ _ _ := .of_clock rfl
  output _ _ := .of_clock rfl
  depth _ _ := .of_clock rfl

/-- **A run stops because the time is over only when it is.** -/
theorem expired_of_timeout {source : List Char} {bound : Nat} {globals : Globals}
    {program : Program} {m m' : Machine}
    (h : execProgram source bound globals program m = .error .timeout m') : m'.Expired := by
  have hruns : m.RunsOut _ _ := follows_execProgram source bound globals program m
  rw [h] at hruns
  exact hruns.stopped rfl

end Stencil.Script
