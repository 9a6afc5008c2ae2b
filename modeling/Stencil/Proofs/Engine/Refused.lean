import Stencil.Proofs.Engine.Failures
import Stencil.Proofs.Include.Static
import Stencil.Proofs.Template.Written

/-! # Directives without a path

The arguments of a directive are evaluated in order, and the first one that has no text decides why
the directive fails.  So a directive with a blank argument fails: because it has no path, unless an
argument in front of the blank one has no text for another reason.  It fails before it names a file,
and the failure is reported for each of its places.
-/
namespace Stencil
open Relation (ReflTransGen)
open Template (originAt Inclusion Blank Separated)

/-! ## Requests that fail -/

namespace Include

/-- The first of some arguments that has no text has none for a reason. -/
inductive FailsFirst : List String → ArgumentError → Prop
  | here {argument : String} {rest : List String} {reason : ArgumentError}
    (h : argumentText argument = .error reason) : FailsFirst (argument :: rest) reason
  | behind {argument text : String} {rest : List String} {reason : ArgumentError}
    (h : argumentText argument = .ok text) (hrest : FailsFirst rest reason) :
    FailsFirst (argument :: rest) reason

variable {arguments before after : List String} {reason : ArgumentError}

theorem argumentText_of_blank {argument : String} (h : Blank argument.toList) :
    argumentText argument = .error .empty := by
  have hempty : trimText argument = "" := trimText_eq_empty.mpr h
  unfold argumentText
  rw [hempty]
  rfl

/-- What is made of a result fails as the result does. -/
theorem except_return_eq_error {ε α β : Type} {x : Except ε α} {f : α → β} {e : ε} :
    (do return f (← x)) = Except.error e ↔ x = .error e := by
  cases x with
  | error e' => exact ⟨fun h => by cases h; rfl, fun h => by cases h; rfl⟩
  | ok a => exact iff_of_false (fun h => by cases h) fun h => by cases h

/-- **A request fails as the first of its arguments that has no text.** -/
theorem request_eq_error : request arguments = .error reason ↔ FailsFirst arguments reason := by
  refine except_return_eq_error.trans ?_
  induction arguments with
  | nil => exact iff_of_false (fun h => by cases h) fun h => by cases h
  | cons argument rest ih =>
    rw [List.mapM_cons]
    cases hfirst : argumentText argument with
    | error reason' =>
      constructor
      · rintro ⟨⟩
        exact .here hfirst
      · rintro (h | ⟨h, -⟩)
        · obtain rfl := Except.error.inj (hfirst.symm.trans h)
          rfl
        · cases hfirst.symm.trans h
    | ok text =>
      refine except_return_eq_error.trans (ih.trans ⟨.behind hfirst, ?_⟩)
      rintro (h | ⟨-, hrest⟩)
      · cases hfirst.symm.trans h
      · exact hrest

/-- Where an argument has no text, a request fails. -/
theorem exists_failsFirst (h : ∃ a ∈ arguments, ∃ why, argumentText a = .error why) :
    ∃ reason, FailsFirst arguments reason := by
  induction arguments with
  | nil =>
    obtain ⟨a, ha, -⟩ := h
    cases ha
  | cons argument rest ih =>
    cases hfirst : argumentText argument with
    | error reason => exact ⟨reason, .here hfirst⟩
    | ok text =>
      obtain ⟨a, ha, why, hwhy⟩ := h
      rcases List.mem_cons.mp ha with rfl | ha
      · cases hfirst.symm.trans hwhy
      · obtain ⟨reason, hreason⟩ := ih ⟨a, ha, why, hwhy⟩
        exact ⟨reason, .behind hfirst hreason⟩

/-- Arguments fail first behind those that have texts. -/
theorem FailsFirst.of_append (h : FailsFirst (before ++ after) reason)
    (hbefore : ∀ a ∈ before, ∃ text, argumentText a = .ok text) : FailsFirst after reason := by
  induction before with
  | nil => exact h
  | cons a before ih =>
    obtain ⟨⟨text, htext⟩, hrest⟩ := List.forall_mem_cons.mp hbefore
    rcases h with h | ⟨-, h⟩
    · cases htext.symm.trans h
    · exact ih h hrest

end Include

/-! ## Directives that name no file -/

/-- A program reports that a directive fails for a reason that its arguments give. -/
def Program.ReportsAt (program : Program) (directive : Origin) (reason : Include.ArgumentError) :
    Prop :=
  ∃ f ∈ program.failures, f.failure = ⟨directive, .argument reason⟩ ∧
    ∃ diagnosis, program.failureError f =
      .traced "IncludeResolutionError" reason.message diagnosis

namespace Dialect

variable {d : Dialect} {read : String → Except ReadError String} {i : Inclusion}

/-- A directive that names no file becomes a gap, and nothing is read or asked for. -/
theorem insert_of_target {file : String} {reason : Include.IncludeError}
    (h : d.target i.arguments file = .error reason)
    (chain : List String) (compile : (path content : String) → Job Outcome) :
    insert d chain file compile i = pure (.gap reason) := by
  unfold insert
  rw [h]

/-- A text that stands at a path leads to a template: to itself, or to the text of a file to which
its directives lead. -/
def LeadsTo (d : Dialect) (read : String → Except ReadError String)
    (path content file inner : String) : Prop :=
  file = path ∧ inner = content ∨
    (∃ q ∈ d.targets path content, ReflTransGen (d.Includes read) q file) ∧ read file = .ok inner

/-- A directive that names no file is unresolved in every text that leads to its own. -/
theorem LeadsTo.exists_mem_unresolved {depth : Nat} {path content file inner : String}
    {reason : Include.IncludeError}
    (h : d.LeadsTo read path content file inner) (hsettles : d.Settles read depth path content)
    (hi : i ∈ (d.tree inner).inclusions) (htarget : d.target i.arguments file = .error reason) :
    ∃ around, ⟨⟨originAt file i.location.start, reason⟩, around⟩ ∈
      d.unresolved read depth path content := by
  induction depth generalizing path content with
  | zero => exact hsettles.elim
  | succ depth ih =>
    rcases h with ⟨rfl, rfl⟩ | ⟨⟨q, hq, hreach⟩, hinner⟩
    · refine ⟨[], List.mem_flatMap.mpr ⟨i, hi, ?_⟩⟩
      simp [leaves, htarget]
    · obtain ⟨text, htext, hleads⟩ :
          ∃ text, read q = .ok text ∧ d.LeadsTo read q text file inner := by
        rcases ReflTransGen.cases_head hreach with rfl | ⟨next, ⟨text, htext, hnext⟩, hreach⟩
        · exact ⟨inner, hinner, .inl ⟨rfl, rfl⟩⟩
        · exact ⟨text, htext, .inr ⟨⟨next, hnext, hreach⟩, hinner⟩⟩
      obtain ⟨around, hmem⟩ := ih hleads (hsettles q hq text htext)
      obtain ⟨j, hj, hnamed⟩ := List.mem_filterMap.mp hq
      have hj' : d.target j.arguments path = .ok q := by
        cases htarget : d.target j.arguments path with
        | error reason => simp [htarget, Except.toOption] at hnamed
        | ok target => simpa [htarget, Except.toOption] using hnamed
      refine ⟨around ++ [originAt path j.location.start], List.mem_flatMap.mpr ⟨j, hj, ?_⟩⟩
      simp only [leaves, hj', htext]
      exact List.mem_map.mpr ⟨_, hmem, rfl⟩

/-- The program of a document reports every directive without a request, in every template to which
the text of the document leads. -/
theorem LeadsTo.reportsAt {depth lo hi : Nat} {path content file inner : String}
    {document : Document} {reason : Include.ArgumentError}
    (h : d.LeadsTo read path content file inner) (hsettles : d.Settles read depth path content)
    (hbare : document.bare = d.document read depth path content)
    (hapart : Apart lo hi document.withIncluded) (hi : i ∈ (d.tree inner).inclusions)
    (htarget : d.target i.arguments file = .error (.argument reason)) :
    document.program.ReportsAt (originAt file i.location.start) reason := by
  obtain ⟨around, hmem⟩ := h.exists_mem_unresolved hsettles hi htarget
  rw [← d.map_unresolved_document depth path content .origin, ← hbare, document.gaps_bare] at hmem
  obtain ⟨g, hg, hgap⟩ := List.mem_map.mp hmem
  have hfailure : g.failure = ⟨originAt file i.location.start, .argument reason⟩ :=
    congrArg Unresolved.failure hgap
  have hplaced := (Document.perm_failures hapart).mem_iff.mpr (List.mem_map.mpr ⟨g, hg, rfl⟩)
  refine ⟨_, hplaced, hfailure, ?_⟩
  rw [Program.failureError, Gap.placedAt, hfailure]
  exact ⟨_, rfl⟩

end Dialect

/-! ## Blank arguments -/

namespace Engine

/-- A directive of a template, which stands in a file, fails for a reason that its arguments
give. -/
structure Refuses (e : Engine) (file content : String) (i : Inclusion)
    (reason : Include.ArgumentError) : Prop where
  /-- Its request fails, -/
  request : Include.request i.arguments = .error reason
  /-- as the first argument that has no text, -/
  first : Include.FailsFirst i.arguments reason
  /-- which is the first blank one if those in front of it have texts. -/
  blank (before after : List String) (h : i.arguments = before ++ "" :: after)
    (hbefore : ∀ a ∈ before, ∃ text, Include.argumentText a = .ok text) : reason = .empty
  /-- It becomes a gap, and nothing is read or asked for. -/
  unasked (chain : List String) (compile : (path content : String) → Job Outcome) :
    insert e.dialect chain file compile i = pure (.gap (.argument reason))
  /-- Every program of a file that leads to the template reports it, whatever has been asked for
  before, -/
  reported (files : Files) (mode : CacheMode) (requests : List Request) (path root : String)
    (program : Program)
    (hprogram : (e.compile path (e.history files mode requests)).1 = .ok program)
    (hroot : files.read (Path.normalize path) = .ok root)
    (hleads : e.dialect.LeadsTo files.read (Path.normalize path) root file content) :
    program.ReportsAt (originAt file i.location.start) reason
  /-- and so does every program of a text that stands for a file. -/
  reportedInText (files : Files) (mode : CacheMode) (requests : List Request)
    (path source : String) (program : Program)
    (hprogram : (e.compileSource path source (e.history files mode requests)).1 = .ok program)
    (hleads : e.dialect.LeadsTo files.read (Path.normalize path) source file content) :
    program.ReportsAt (originAt file i.location.start) reason

section

variable {e : Engine} {files : Files} {mode : CacheMode} {requests : List Request}
  {path file content : String} {program : Program} {i : Inclusion}
  {reason : Include.ArgumentError}

theorem reportsAt_of_compile {root : String}
    (hprogram : (e.compile path (e.history files mode requests)).1 = .ok program)
    (hroot : files.read (Path.normalize path) = .ok root)
    (hleads : e.dialect.LeadsTo files.read (Path.normalize path) root file content)
    (hi : i ∈ (e.dialect.tree content).inclusions)
    (htarget : e.dialect.target i.arguments file = .error (.argument reason)) :
    program.ReportsAt (originAt file i.location.start) reason := by
  obtain ⟨-, outcome, _, hresult, hanswer⟩ := (e.idle_history files mode requests).compile path
  have hcompiled := hresult.symm.trans hprogram
  cases outcome with
  | error reason => cases hcompiled
  | ok document =>
    obtain ⟨⟨content', hread, hsettles, hbare⟩, hapart⟩ := hanswer
    obtain rfl := Except.ok.inj (hroot.symm.trans hread)
    obtain rfl : document.program = program := Except.ok.inj hcompiled
    exact hleads.reportsAt hsettles hbare hapart hi htarget

theorem reportsAt_of_compileSource {source : String}
    (hprogram : (e.compileSource path source (e.history files mode requests)).1 = .ok program)
    (hleads : e.dialect.LeadsTo files.read (Path.normalize path) source file content)
    (hi : i ∈ (e.dialect.tree content).inclusions)
    (htarget : e.dialect.target i.arguments file = .error (.argument reason)) :
    program.ReportsAt (originAt file i.location.start) reason := by
  obtain ⟨-, outcome, _, hresult, hanswer⟩ := Idle.compileWith (T := .lax e.dialect files)
    (fun depth => compileText e.dialect depth [] (Path.normalize path) source)
    (e.idle_history files mode requests) (e.ensures_compileSource files path source)
  have hcompiled := hresult.symm.trans hprogram
  cases outcome with
  | error reason => cases hcompiled
  | ok document =>
    obtain ⟨hsettles, hbare, hapart⟩ := hanswer
    obtain rfl : document.program = program := Except.ok.inj hcompiled
    exact hleads.reportsAt hsettles hbare hapart hi htarget

end

/-- A file with a directive whose arguments are given as they are written. -/
def askingFile (written : String) : Files :=
  Files.empty.write "/r.exp" (.text ("<?exp include(" ++ written ++ ") ?>"))

end Engine

end Stencil
