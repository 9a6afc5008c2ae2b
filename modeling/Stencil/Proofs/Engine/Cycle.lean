import Stencil.Proofs.Compile.Refusal
import Stencil.Proofs.Engine.Attribution

/-! # Compilations end alike

An engine in use ends a compilation as a new engine does, and with the very same error if it fails:
it reports a cycle of includes if the file leads into one, and then the first that is met.  The
bound on the length of chains plays no part in this.
-/
namespace Stencil

/-- Two compilations have ended alike: with programs that are the same but for the numbers of
documents, or with the same error. -/
inductive Alike : (a b : Except CompileError Program) → Prop
  | ok {p q : Program} (same : p.Same q) : Alike (.ok p) (.ok q)
  | error (reason : CompileError) : Alike (.error reason) (.error reason)

/-- Compilations that fail alike end alike, if their documents have the same program. -/
theorem Alike.of_failure? {outcome outcome' : Outcome}
    (herror : failure? outcome = failure? outcome')
    (hsame : ∀ document document', outcome = .ok document → outcome' = .ok document' →
      document.program.Same document'.program) :
    Alike (outcome.map Document.program) (outcome'.map Document.program) := by
  cases outcome with
  | ok document =>
    cases outcome' with
    | ok document' => exact .ok (hsame document document' rfl rfl)
    | error reason' => cases herror
  | error reason =>
    cases outcome' with
    | ok document' => cases herror
    | error reason' =>
      obtain rfl : reason = reason' := Option.some.inj herror
      exact .error reason

/-- Correct answers for the same root are alike, if they do not differ in the error. -/
theorem Terms.Answer.alike {d : Dialect} {files : Files} {root : String} {lo hi lo' hi' : Nat}
    {outcome outcome' : Outcome} (h : (Terms.strict d files).Answer [] root lo outcome hi)
    (h' : (Terms.strict d files).Answer [] root lo' outcome' hi')
    (herror : failure? outcome = failure? outcome') :
    Alike (outcome.map Document.program) (outcome'.map Document.program) := by
  refine .of_failure? herror ?_
  rintro document document' rfl rfl
  obtain ⟨hcompiles, hapart⟩ := h
  obtain ⟨hcompiles', hapart'⟩ := h'
  exact Document.same_program (hcompiles.bare_eq hcompiles') hcompiles.tidy hapart hapart'

namespace Engine

variable {e : Engine} {files : Files} {w : World}

/-- A compilation of its own ends with the error that its job decides on. -/
theorem Idle.decides_compileWith {T : Terms} (hT : T.Closed) {bound : Nat}
    (hbound : T.files.size + 1 ≤ bound) {met : List String}
    (hmet : ∀ p q, p ∉ met → T.asks p q → T.dialect.Includes T.files.read p q)
    (job : (depth : Nat) → Job Outcome) {chain : List String} {post : Outcome → Nat → Prop}
    {post' : Outcome → Prop} (h : Idle T.dialect T.files w)
    (hshuns : w.Shuns T.dialect T.files.read met) (hchain : met ⊆ chain)
    (hjob : T.Ensures (job (T.files.size + 1)) chain 0 post)
    (hdecides : T.Decides bound (job (T.files.size + 1)) chain post') :
    ∃ outcome hi, (Engine.compileWith job w).1 = outcome.map Document.program ∧
      post outcome hi ∧ post' outcome := by
  obtain ⟨-, -, hpost⟩ := Job.run_ensures hjob h.serves (List.nil_subset chain) (Nat.zero_le _)
  obtain ⟨-, hpost'⟩ := Job.run_decides hT hbound hmet hjob hdecides h.serves hshuns
    (List.nil_subset chain) hchain (Nat.zero_le _)
  unfold Engine.compileWith
  simp only [World.newOwner, h.reads] at hpost hpost' ⊢
  exact ⟨_, _, rfl, hpost, hpost'⟩

/-- With any bound on chains that all files together keep to, a compilation ends with a correct
answer, and with the same error. -/
theorem Idle.compile_bounded (h : Idle e.dialect files w) {depth : Nat}
    (hdepth : files.size + 1 ≤ depth) (path : String) :
    ∃ outcome hi,
      (Engine.compileWith (fun _ => compileFile e.dialect depth (Path.normalize path)) w).1 =
        outcome.map Document.program ∧
      (Terms.strict e.dialect files).Answer [] (Path.normalize path) 0 outcome hi ∧
      failure? outcome = e.dialect.refusal files (files.size + 1) [] (Path.normalize path) := by
  have hT := Terms.closed_strict e.dialect files
  have hjob := Terms.ensures_compileFile hT hdepth (Path.normalize_normalize path) 0
  have hdecides : (Terms.strict e.dialect files).Decides depth
      (compileFile e.dialect depth (Path.normalize path)) [] _ :=
    Terms.decides_compileFile hT (Path.normalize path)
  have hshuns : w.Shuns e.dialect files.read [] := fun _ _ _ _ _ => List.not_mem_nil
  obtain ⟨outcome, hi, hresult, hanswer, hfailure⟩ :=
    Idle.decides_compileWith hT hdepth (fun _ _ _ hasks => hasks)
      (fun _ => compileFile e.dialect depth (Path.normalize path)) h hshuns (List.nil_subset [])
      hjob hdecides
  exact ⟨outcome, hi, hresult, hanswer, hfailure.trans (Terms.refusal_root hT hdepth _)⟩

/-- A compilation with a larger bound on chains, in any idle world, ends alike. -/
theorem Idle.alike_bounded (h : Idle e.dialect files w) {w' : World}
    (h' : Idle e.dialect files w') {depth depth' : Nat} (hdepth : files.size + 1 ≤ depth)
    (hdepth' : files.size + 1 ≤ depth') (path : String) :
    Alike (Engine.compileWith (fun _ => compileFile e.dialect depth (Path.normalize path)) w).1
      (Engine.compileWith (fun _ => compileFile e.dialect depth' (Path.normalize path)) w').1 := by
  obtain ⟨outcome, hi, hresult, hanswer, hfailure⟩ := h.compile_bounded hdepth path
  obtain ⟨outcome', hi', hresult', hanswer', hfailure'⟩ := h'.compile_bounded hdepth' path
  rw [hresult, hresult']
  exact hanswer.alike hanswer' (hfailure.trans hfailure'.symm)

/-- The bound of a compilation is the number of entries, and one more. -/
theorem Idle.compile_eq (h : Idle e.dialect files w) (path : String) :
    e.compile path w = Engine.compileWith
      (fun _ => compileFile e.dialect (files.size + 1) (Path.normalize path)) w := by
  unfold Engine.compile Engine.compileWith
  simp only [World.newOwner, h.reads]

/-- An engine in use ends a compilation like any other engine in use over the same files. -/
theorem Idle.alike_compile (h : Idle e.dialect files w) {w' : World}
    (h' : Idle e.dialect files w') (path : String) :
    Alike (e.compile path w).1 (e.compile path w').1 := by
  rw [h.compile_eq, h'.compile_eq]
  exact h.alike_bounded h' (Nat.le_refl _) (Nat.le_refl _) path

/-- A compilation fails as it is refused. -/
theorem Idle.failure_compile (h : Idle e.dialect files w) (path : String) :
    failure? (e.compile path w).1 =
      e.dialect.refusal files (files.size + 1) [] (Path.normalize path) := by
  obtain ⟨outcome, hi, hresult, -, hfailure⟩ := h.compile_bounded (Nat.le_refl _) path
  rw [h.compile_eq, hresult, ← hfailure]
  cases outcome <;> rfl

/-- **A new engine reports a cycle of includes if and only if the file leads into one.**  What it
reports is a cycle, each file of which has a directive that names the next one.  Otherwise it
compiles the file, whatever else its includes fail with.  All this takes chains of includes no
longer than the file table; with a larger bound the compilation ends alike. -/
theorem compile_finds_cycles (e : Engine) (files : Files) (mode : CacheMode) (path : String) :
    let root := Path.normalize path
    let w := World.fresh files mode
    (∀ more, Alike (e.compile path w).1 (compileWith
      (fun _ => compileFile e.dialect (files.size + 1 + more) root) w).1) ∧
    match files.read root, (e.compile path w).1 with
    | .error fault, compiled => compiled = .error (.template root fault.message)
    | .ok _, .ok _ => ¬ e.dialect.Loops files.read root
    | .ok _, .error (.cycle chain) =>
      e.dialect.Loops files.read root ∧ e.dialect.Closed files.read chain
    | .ok _, .error _ => False := by
  dsimp only
  have hidle : Idle e.dialect files (.fresh files mode) := idle_fresh e.dialect files mode
  refine ⟨fun more => ?_, ?_⟩
  · have hcompile := hidle.compile_eq path
    have hmore : files.size + 1 ≤ files.size + 1 + more := Nat.le_add_right _ more
    rw [hcompile]
    exact hidle.alike_bounded hidle (Nat.le_refl _) hmore path
  · have hfailure := hidle.failure_compile path
    generalize (e.compile path (.fresh files mode)).1 = compiled at hfailure ⊢
    cases hread : files.read (Path.normalize path) with
    | error fault =>
      simp only [Dialect.refusal, hread] at hfailure
      exact eq_error_of_failure? hfailure
    | ok content =>
      rcases Terms.refusal_of_read hread with ⟨hnone, hfree⟩ | ⟨cycle, hcycle, hloops, hclosed⟩
      · rw [hnone] at hfailure
        cases compiled with
        | ok program => exact hfree
        | error reason => cases hfailure
      · obtain rfl := eq_error_of_failure? (hfailure.trans hcycle)
        exact ⟨hloops, hclosed⟩

end Engine

end Stencil
