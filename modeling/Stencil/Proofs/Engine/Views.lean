import Mathlib.Algebra.GroupWithZero.Nat
import Stencil.Proofs.Concurrent.Register
import Stencil.Proofs.Engine.Retry
import Stencil.Proofs.Program.Distinct

/-! # Two views of failed directives

A cache does not keep a document if a directive has failed in it or in one that it includes.  A
rendering goes by the failures that its program reports, and these were collected while the document
was woven.  Both views come to the same, since all documents of a tree are in one register: numbers
tell them apart, so that weaving leaves out the failures of none.
-/
namespace Stencil

namespace Document

/-- What the cache and a rendering are told of the failed directives of a document. -/
structure Accounts (d : Dialect) (root : Document) : Prop where
  /-- Each document of the tree accounts for all directives of its template. -/
  resolves : ∀ x ∈ root.withIncluded, d.Resolves x
  /-- The cache sees gaps if and only if a rendering sees failures. -/
  views : root.hasGaps = true ↔ root.program.failures ≠ []
  nodup : root.distinct.Nodup
  mem_distinct : ∀ x, x ∈ root.distinct ↔ x ∈ root.withIncluded
  /-- A rendering sees the failed directives of the distinct documents. -/
  failures : root.program.failures.map PlacedFailure.failure =
    root.distinct.flatMap Document.failures
  count : root.program.failures.length = (root.distinct.map (·.failures.length)).sum

variable {d : Dialect} {root : Document}

/-- A registered document accounts for its failed directives. -/
theorem Registered.accounts {now : Register} (h : root.Registered now)
    (hall : ∀ n x, now.document? n = some x → d.Resolves x) : root.Accounts d where
  resolves x hx := hall x.number x (h x hx)
  views := Identified.hasGaps_iff_failures fun _ hx _ hy => h.eq_of_number hx hy
  nodup := root.nodup_distinct
  mem_distinct _ := Identified.mem_distinct fun _ hx _ hy => h.eq_of_number hx hy
  failures := root.map_failure_program
  count := by
    rw [← List.length_map (f := PlacedFailure.failure), root.map_failure_program,
      List.length_flatMap]

theorem Accounts.failures_eq_nil (h : root.Accounts d) (hwhole : root.hasGaps = false) :
    root.program.failures = [] :=
  not_not.mp fun hsome => ne_true_of_eq_false hwhole (h.views.mpr hsome)

end Document

namespace Engine

/-- Executes a program and does not look at failed directives. -/
def executeWhole (e : Engine) (p : Program) (context : Json) : Rendering :=
  match e.executor p ⟨p.root.path, context⟩ e.timeoutMillis with
  | .output output => .ok ⟨output, []⟩
  | .errors list => .error (p.scriptError e.timeoutMillis list)
  | .endless => .error (.timeout e.timeoutMillis)

variable {e : Engine} {w : World}

/-- Where no directive has failed, the policy for failed directives does not matter. -/
theorem execute_eq_executeWhole {p : Program} (h : p.failures = []) (context : Json) :
    e.execute p context = e.executeWhole p context := by
  unfold execute executeWhole
  rw [h]
  cases e.includePolicy <;> rfl

/-- A document that is found is what a compilation ends with. -/
theorem compile_of_found {path : String} {root : Document}
    (h : w.found? (Path.normalize path) = some root) : (e.compile path w).1 = .ok root.program := by
  have hfound : w.newOwner.2.found? (Path.normalize path) = some root := h
  rcases w.newOwner.2.enter_cases w.nextOwner (Path.normalize path) with ⟨x, hx, henter⟩ |
    ⟨hnone, -⟩ | ⟨other, -, -, hslot, -⟩
  · obtain rfl := Option.some.inj (hx.symm.trans hfound)
    simp only [compile, compileWith, compileFile, Job.obtainDocument, Job.run, World.obtain,
      World.newOwner] at henter ⊢
    rw [henter]
    rfl
  · rw [hnone] at hfound
    cases hfound
  · obtain ⟨hready, -⟩ := World.found?_eq_some_iff.mp hfound
    rw [hslot] at hready
    cases hready

/-! ## Histories -/

/-- If a program has been compiled, it is that of a document with a property. -/
def Rooted (P : Document → Prop) (compiled : Except CompileError Program) : Prop :=
  ∀ program, compiled = .ok program → ∃ root, program = Document.program root ∧ P root

/-- What is compiled in a world with a register is registered, and leaves behind such a world. -/
theorem registers_compileWith {P : Document → Prop} {now : Register}
    {job : (depth : Nat) → Job Outcome}
    (hjob : ∀ depth, (job depth).Registers P now Outcome.Registered) (hw : w.Registers P now) :
    ∃ later, (compileWith job w).2.Registers P later ∧
      Rooted (·.Registered later) (compileWith job w).1 := by
  have hstart : w.newOwner.2.Registers P now := hw.ofKeeps rfl hw.kept
  obtain ⟨later, -, hafter, houtcome⟩ :=
    Job.run_registers (hjob (w.files.size + 1)) w.nextOwner hstart
  refine ⟨later, hafter, fun program hprogram => ?_⟩
  simp only [compileWith, World.newOwner] at hprogram houtcome
  cases hrun : ((job (w.files.size + 1)).run w.nextOwner
      { w with nextOwner := w.nextOwner + 1 }).1 with
  | ok root =>
    rw [hrun] at hprogram houtcome
    exact ⟨root, (Except.ok.inj hprogram).symm, houtcome root rfl⟩
  | error reason =>
    rw [hrun] at hprogram
    cases hprogram

theorem registers_compile {now : Register} (hw : w.Registers e.dialect.Resolves now)
    (path : String) : ∃ later, (e.compile path w).2.Registers e.dialect.Resolves later ∧
      Rooted (·.Registered later) (e.compile path w).1 :=
  registers_compileWith
    (fun depth => Job.registers_compileFile e.dialect depth (Path.normalize path) now) hw

theorem registers_compileSource {now : Register} (hw : w.Registers e.dialect.Resolves now)
    (path source : String) :
    ∃ later, (e.compileSource path source w).2.Registers e.dialect.Resolves later ∧
      Rooted (·.Registered later) (e.compileSource path source w).1 :=
  registers_compileWith
    (fun depth => Job.registers_compileText e.dialect depth [] (Path.normalize path) source now) hw

theorem registers_meet {now : Register} (hw : w.Registers e.dialect.Resolves now) (event : Event) :
    ∃ later, (e.meet w event).Registers e.dialect.Resolves later := by
  match event with
  | .write _ _ | .remove _ => exact ⟨now, hw.ofKeeps rfl hw.kept⟩
  | .request (.compile path) =>
    obtain ⟨later, hlater, -⟩ := registers_compile hw path
    exact ⟨later, hlater⟩
  | .request (.compileSource path source) =>
    obtain ⟨later, hlater, -⟩ := registers_compileSource hw path source
    exact ⟨later, hlater⟩
  | .request (.render path context) =>
    obtain ⟨later, hlater, -⟩ := registers_compile hw path
    rw [meet, serve, world_render]
    exact ⟨later, hlater⟩
  | .request (.renderSource path source context) =>
    obtain ⟨later, hlater, -⟩ := registers_compileSource hw path source
    rw [meet, serve, world_renderSource]
    exact ⟨later, hlater⟩
  | .request (.invalidate path) =>
    refine ⟨now, hw.ofKeeps rfl fun q x hx => ?_⟩
    have hdrop := (w.cache.slot?_drop (Path.normalize path) q).symm.trans hx
    split at hdrop
    · cases hdrop
    · exact hw.kept q x hdrop
  | .request .clear => exact ⟨now, hw.ofKeeps rfl fun q x hx => by cases hx⟩

/-- **Whatever happens, there is a register of what an engine keeps.** -/
theorem exists_registers_course (e : Engine) (files : Files) (mode : CacheMode)
    (events : List Event) : ∃ now, (e.course files mode events).Registers e.dialect.Resolves now := by
  have hfold : ∀ w : World, (∃ now, w.Registers e.dialect.Resolves now) →
      ∃ now, (events.foldl e.meet w).Registers e.dialect.Resolves now := by
    induction events with
    | nil => exact fun w hw => hw
    | cons event events ih => exact fun w ⟨now, hw⟩ => ih _ (registers_meet hw event)
  exact hfold _ ⟨.empty, fun path x hx => (by cases hx), fun n _ => rfl, fun n x hx => by cases hx⟩

/-! ## The two views -/

/-- In a world, all that can be compiled accounts for its failed directives.  What is kept has none,
and is rendered without regard to them. -/
structure AccountsIn (e : Engine) (w : World) : Prop where
  compile : ∀ path, Rooted (·.Accounts e.dialect) (e.compile path w).1
  compileSource : ∀ path source, Rooted (·.Accounts e.dialect) (e.compileSource path source w).1
  kept : ∀ path root, w.cache.slot? path = some (.ready root) →
    root.Accounts e.dialect ∧ root.hasGaps = false
  served : ∀ path root context, w.found? (Path.normalize path) = some root →
    (e.render path context w).1 = e.executeWhole root.program context

/-- The same of a pool of compilations at the same time. -/
structure AccountsAmong (e : Engine) (s : Pool) : Prop where
  ended : ∀ i root, s.result? i = some (.ok root) → root.Accounts e.dialect
  kept : ∀ path root, s.slot? path = some (.ready root) →
    root.Accounts e.dialect ∧ root.hasGaps = false
  /-- What a compilation has found in the cache and goes on with. -/
  served : ∀ t ∈ s.threads, ∀ call root left, t.phase = .judge call root left →
    root.Accounts e.dialect ∧
      ∀ context, e.execute root.program context = e.executeWhole root.program context

theorem accountsIn_of_registers {now : Register} (hw : w.Registers e.dialect.Resolves now) :
    e.AccountsIn w := by
  have hkept (path : String) (root : Document) (hslot : w.cache.slot? path = some (.ready root)) :
      root.Accounts e.dialect ∧ root.hasGaps = false := by
    obtain ⟨hregistered, hwhole⟩ := hw.kept path root hslot
    exact ⟨hregistered.accounts hw.holds, hwhole⟩
  refine ⟨fun path program hprogram => ?_, fun path source program hprogram => ?_, hkept,
    fun path root context hfound => ?_⟩
  · obtain ⟨later, hlater, hcompiled⟩ := registers_compile hw path
    obtain ⟨root, hroot, hregistered⟩ := hcompiled program hprogram
    exact ⟨root, hroot, hregistered.accounts hlater.holds⟩
  · obtain ⟨later, hlater, hcompiled⟩ := registers_compileSource hw path source
    obtain ⟨root, hroot, hregistered⟩ := hcompiled program hprogram
    exact ⟨root, hroot, hregistered.accounts hlater.holds⟩
  · obtain ⟨haccounts, hwhole⟩ := hkept _ root (World.found?_eq_some_iff.mp hfound).1
    rw [rendering_render, compile_of_found hfound]
    exact execute_eq_executeWhole (haccounts.failures_eq_nil hwhole) context

theorem accountsAmong_of_registers {s : Pool} {now : Register}
    (hs : s.Registers e.dialect.Resolves now) : e.AccountsAmong s := by
  refine ⟨fun i root hresult => ?_, fun path root hslot => ?_, fun t ht call root left hphase => ?_⟩
  · obtain ⟨t, ht, hresult⟩ := Option.bind_eq_some_iff.mp hresult
    have hregistered := (hs.threads t (List.mem_of_getElem? ht)).registered_of_result? hresult
    exact hregistered.accounts hs.world.holds
  · obtain ⟨hregistered, hwhole⟩ := hs.world.kept path root hslot
    exact ⟨hregistered.accounts hs.world.holds, hwhole⟩
  · have hjudge := (hs.threads t ht).phase
    rw [hphase] at hjudge
    obtain ⟨-, hregistered, hwhole⟩ := hjudge
    have haccounts := hregistered.accounts hs.world.holds
    exact ⟨haccounts, execute_eq_executeWhole (haccounts.failures_eq_nil hwhole)⟩

/-- **The cache and a rendering agree on failed directives.**

This holds whatever has happened to an engine before, and at every time in a pool of compilations at
the same time.  A document has gaps if and only if its program reports failures.  A program reports
as many failures as there are failed directives in the distinct documents of the tree.  What is
served from the cache is rendered without regard to failed directives, whatever the policy for them
is. -/
theorem accounts_agree (e : Engine) (files : Files) (mode : CacheMode) :
    (∀ events, e.AccountsIn (e.course files mode events)) ∧
    ∀ roots acts, e.AccountsAmong ((Pool.fromRoots e.dialect files mode roots).after acts) := by
  refine ⟨fun events => ?_, fun roots acts => ?_⟩
  · obtain ⟨now, h⟩ := e.exists_registers_course files mode events
    exact accountsIn_of_registers h
  · obtain ⟨now, h⟩ := Pool.exists_registers e.dialect files mode roots acts
    exact accountsAmong_of_registers h

/-- A file with a failed directive is compiled again for each directive that includes it, and a
failure is reported for each of these documents. -/
example :
    let files := missingPart.write "/s.exp" (.text "<?exp include('q') ?><?exp include('q') ?>")
    ((default.compile "/s.exp" (.fresh files .session)).1.toOption.map fun program =>
      (program.root.distinct.map (·.failures.length), program.failures.length)) =
        some ([0, 1, 1], 2) := by
  decide +kernel

end Engine

end Stencil
