import Stencil.Proofs.Compile.Unresolved
import Stencil.Proofs.Engine.Attribution
import Stencil.Proofs.Engine.Virtual

/-! # Traces of failed directives

A program has one gap for each place in its expansion where a directive could not be resolved, and
records one failure for each gap.  The place of a failure is looked up by the position of its
directive alone: it is the place of the first gap that the directive has left.  So a failure is
traced through its own gap as long as no directive fails in two places; of a directive that does,
because its file is included more than once, all failures are traced through the first of them.
-/
namespace Stencil

/-- The first gap that the directive of a gap has left. -/
def Gap.firstIn (gaps : List Gap) (g : Gap) : Gap :=
  (gaps.find? (·.failure.origin = g.failure.origin)).getD g

/-- The first place of a program that is mapped to the directive of a gap. -/
def Gap.placeIn (program : Program) (g : Gap) : Mark :=
  (program.map.generatedFor g.failure.origin).head?.getD g.place

/-- The error of a directive with the trace of what it leaves unresolved. -/
def Unresolved.report (u : Unresolved) : RenderError :=
  .traced Include.IncludeError.kindName u.failure.error.message
    ⟨u.failure.origin :: u.around, false⟩

namespace Gap

variable {gaps : List Gap} {g : Gap}

theorem find?_eq_firstIn (h : g ∈ gaps) :
    gaps.find? (·.failure.origin = g.failure.origin) = some (g.firstIn gaps) := by
  obtain ⟨first, hfirst⟩ := Option.isSome_iff_exists.mp
    (List.find?_isSome (p := fun x : Gap => decide (x.failure.origin = g.failure.origin)) |>.mpr
      ⟨g, h, by simp⟩)
  rw [firstIn, hfirst, Option.getD_some]

theorem firstIn_mem (h : g ∈ gaps) : g.firstIn gaps ∈ gaps :=
  List.mem_of_find?_eq_some (find?_eq_firstIn h)

/-- A gap of a directive that has left no other is the first one. -/
theorem firstIn_eq (hnodup : (gaps.map (·.failure.origin)).Nodup) (h : g ∈ gaps) :
    g.firstIn gaps = g := by
  have hsame : (g.firstIn gaps).failure.origin = g.failure.origin := by
    simpa using List.find?_some (find?_eq_firstIn h)
  exact List.inj_on_of_nodup_map hnodup (firstIn_mem h) h hsame

end Gap

namespace Document

variable {root : Document}

/-- A gap is a blank in the code, and its place is diagnosed by its directive and the directives
around it. -/
theorem diagnose_of_mem_gaps (htidy : root.Tidy) (hunnested : root.Unnested) {g : Gap}
    (hg : g ∈ root.gaps .origin) :
    (∃ pre post, root.program.code.toList = pre ++ gapCode.toList ++ post ∧
      g.place = Mark.origin.after pre) ∧
    root.program.diagnose g.place = ⟨g.failure.origin :: g.around, false⟩ := by
  obtain ⟨c, hc, hplace, hemitted⟩ := exists_cell_of_mem_gaps hg
  refine ⟨?_, ?_⟩
  · obtain ⟨before, after, hsplit⟩ := List.append_of_mem hc
    have hchars := root.map_char_cells .origin
    have hplaces := root.map_place_cells .origin
    refine ⟨before.map Cell.char, after.map Cell.char, ?_, ?_⟩
    · have hblank : c.char = ' ' := congrArg Emitted.char hemitted
      rw [root.code_program htidy, ← hchars, hsplit, List.map_append, List.map_cons, hblank]
      simp [gapCode]
    · rw [← hchars, hsplit, List.map_append, List.map_append, Mark.along_append, List.map_cons,
        List.map_cons, Mark.along] at hplaces
      have hhead := (List.append_inj hplaces (by simp)).2
      rw [← hplace]
      exact (List.cons.inj hhead).1
  · rw [← hplace, root.diagnose_program htidy hunnested c hc]
    have horigin : c.origin = g.failure.origin := congrArg Emitted.origin hemitted
    have haround : c.stack.map Occurrence.directive = g.around := congrArg Emitted.around hemitted
    rw [horigin, haround]

end Document

namespace Dialect.Compiles

variable {d : Dialect} {files : Files} {path : String} {document : Document}

/-- The gaps of a compiled document are what its file leaves unresolved. -/
theorem map_unresolved_gaps (h : d.Compiles files path document) :
    ∃ content, files.read path = .ok content ∧
      (document.gaps .origin).map Gap.toUnresolved =
        d.unresolved files.read (files.size + 1) path content := by
  obtain ⟨content, hread, -, hbare⟩ := h
  refine ⟨content, hread, ?_⟩
  rw [← document.gaps_bare, hbare, d.map_unresolved_document]

/-- The first place that is mapped to the origin of a gap is not behind the gap, and the code comes
from this origin there. -/
theorem exists_head?_generatedFor (h : d.Compiles files path document) {g : Gap}
    (hg : g ∈ document.gaps .origin) :
    ∃ place, (document.program.map.generatedFor g.failure.origin).head? = some place ∧
      place.upTo g.place = true ∧
      document.program.map.origin? place = some ⟨g.failure.origin, false⟩ := by
  have htidy := document.tidy_bare.mpr h.tidy
  obtain ⟨content, hread, -, hbare⟩ := h
  generalize files.size + 1 = depth at hbare
  have hclear := Dialect.clear_document_none (d := d) depth hread
  rw [← hbare] at hclear
  rw [← document.gaps_bare] at hg
  obtain ⟨c, hc, horigin, hle, hhead⟩ := Document.exists_head?_generatedFor htidy hclear hg
  have hfound := document.bare.origin?_program htidy c hc
  rw [document.map_program_bare] at hhead hfound
  exact ⟨c.place, hhead, hle, horigin ▸ hfound⟩

/-- If a syntax takes the files apart, this is the first gap that the directive has left. -/
theorem head?_generatedFor (h : d.Compiles files path document) {s : Template.Syntax}
    (hclassifier : d.classifier = s.classify) {g : Gap} (hg : g ∈ document.gaps .origin) :
    (document.program.map.generatedFor g.failure.origin).head? =
      some (g.firstIn (document.gaps .origin)).place := by
  have htidy := document.tidy_bare.mpr h.tidy
  obtain ⟨content', hread', hunresolved⟩ := h.map_unresolved_gaps
  have hmem : g.toUnresolved ∈ d.unresolved files.read (files.size + 1) path content' := by
    rw [← hunresolved]
    exact List.mem_map_of_mem hg
  have hdirects := Dialect.directs_of_mem_unresolved _ hread' _ hmem
  obtain ⟨content, hread, -, hbare⟩ := h
  generalize files.size + 1 = depth at hbare
  have hclear := Dialect.clear_document_directs hclassifier depth hread
  rw [← hbare] at hclear
  have hgap : g ∈ document.bare.gaps .origin := by rwa [document.gaps_bare]
  rw [← document.map_program_bare, Document.head?_generatedFor htidy hclear hgap hdirects,
    document.gaps_bare, Gap.find?_eq_firstIn hg]
  rfl

theorem placeIn_upTo (h : d.Compiles files path document) {g : Gap}
    (hg : g ∈ document.gaps .origin) :
    (g.placeIn document.program).upTo g.place = true ∧
      document.program.map.origin? (g.placeIn document.program) =
        some ⟨g.failure.origin, false⟩ := by
  obtain ⟨place, hhead, hle, horigin⟩ := h.exists_head?_generatedFor hg
  rw [Gap.placeIn, hhead, Option.getD_some]
  exact ⟨hle, horigin⟩

theorem placeIn_eq_firstIn (h : d.Compiles files path document) {s : Template.Syntax}
    (hclassifier : d.classifier = s.classify) {g : Gap} (hg : g ∈ document.gaps .origin) :
    g.placeIn document.program = (g.firstIn (document.gaps .origin)).place := by
  rw [Gap.placeIn, h.head?_generatedFor hclassifier hg, Option.getD_some]

/-- The failures of a program are those of its gaps, each at the first place that its directive is
mapped to. -/
theorem perm_failures (h : d.Compiles files path document) {lo hi : Nat}
    (hapart : Apart lo hi document.withIncluded) :
    document.program.failures.Perm
      ((document.gaps .origin).map fun g => g.placedAt (some (g.placeIn document.program))) := by
  refine (Document.perm_failures hapart).trans (.of_eq (List.map_congr_left fun g hg => ?_))
  obtain ⟨place, hhead, -⟩ := h.exists_head?_generatedFor hg
  rw [Gap.placeIn, hhead, Option.getD_some]

/-- A failure that is placed at its gap is reported with the trace of what the gap is left for. -/
theorem failureError_placedAt (h : d.Compiles files path document) {g : Gap}
    (hg : g ∈ document.gaps .origin) :
    document.program.failureError (g.placedAt (some g.place)) = g.report := by
  obtain ⟨-, hdiagnosis⟩ := Document.diagnose_of_mem_gaps h.tidy h.unnested hg
  simp only [Program.failureError, Gap.placedAt, hdiagnosis]
  rfl

end Dialect.Compiles

namespace Engine

/-- **Failures are traced through the first gap of their directive.**  Whatever an engine has been
asked for before, the gaps in a program that it compiles are what the expansion of the file leaves
unresolved, one for each place, in order; each is a blank in the code, and a failure that is placed
there is reported with the position of the directive and the directives that have inserted it, up to
the root.

The failures of the program are those of the gaps, one for each, and each one is placed at its gap
or in front of it, where the code comes from the same position.  If the texts are taken apart by a
syntax, this is the first gap that the directive has left.  So if no directive has left two gaps,
each failure is placed at its own gap and traced through the directives around it. -/
theorem failures_compile (e : Engine) (files : Files) (mode : CacheMode)
    (requests : List Request) (path : String) :
    let root := Path.normalize path
    match (e.compile path (e.history files mode requests)).1 with
    | .error _ => True
    | .ok program => ∃ content, files.read root = .ok content ∧
      let gaps := program.root.gaps .origin
      gaps.map Gap.toUnresolved =
        e.dialect.unresolved files.read (files.size + 1) root content ∧
      (∀ g ∈ gaps,
        (∃ pre post, program.code.toList = pre ++ gapCode.toList ++ post ∧
          g.place = Mark.origin.after pre) ∧
        program.failureError (g.placedAt (some g.place)) = g.report) ∧
      ∃ placeOf : Gap → Mark,
        program.failures.Perm (gaps.map fun g => g.placedAt (some (placeOf g))) ∧
        (∀ g ∈ gaps, (placeOf g).upTo g.place = true ∧
          program.map.origin? (placeOf g) = some ⟨g.failure.origin, false⟩) ∧
        ∀ s : Template.Syntax, e.dialect.classifier = s.classify →
          (∀ g ∈ gaps, placeOf g = (g.firstIn gaps).place) ∧
          ((gaps.map (·.failure.origin)).Nodup →
            (∀ g ∈ gaps, placeOf g = g.place) ∧
            (program.failures.map program.failureError).Perm
              (gaps.map fun g => g.report)) := by
  intro root
  have hidle := e.idle_history files mode requests
  obtain ⟨-, outcome, hi, hresult, hanswer⟩ := hidle.compile path
  rw [hresult]
  match outcome, hanswer with
  | .error _, _ => trivial
  | .ok document, ⟨hcompiles, hapart⟩ =>
    obtain ⟨content, hread, hunresolved⟩ := hcompiles.map_unresolved_gaps
    refine ⟨content, hread, hunresolved, fun g hg => ⟨?_, hcompiles.failureError_placedAt hg⟩,
      Gap.placeIn document.program, hcompiles.perm_failures hapart,
      fun g hg => hcompiles.placeIn_upTo hg, fun s hclassifier => ?_⟩
    · exact (Document.diagnose_of_mem_gaps hcompiles.tidy hcompiles.unnested hg).1
    · have hfirst : ∀ g ∈ document.gaps .origin,
          g.placeIn document.program = (g.firstIn (document.gaps .origin)).place :=
        fun g hg => hcompiles.placeIn_eq_firstIn hclassifier hg
      refine ⟨hfirst, fun hnodup => ?_⟩
      have hown : ∀ g ∈ document.gaps .origin, g.placeIn document.program = g.place :=
        fun g hg => by
          rw [hfirst g hg]
          exact congrArg Gap.place (Gap.firstIn_eq hnodup hg)
      refine ⟨hown, ((hcompiles.perm_failures hapart).map _).trans (.of_eq ?_)⟩
      rw [List.map_map]
      refine List.map_congr_left fun g hg => ?_
      rw [Function.comp_apply, hown g hg, hcompiles.failureError_placedAt hg]

/-- A file with a directive for a file that is not there, and another one that includes it twice. -/
def partTwice : Files :=
  (Files.empty.write "/p.exp" (.text "<?exp include('gone') ?>")).write "/r.exp"
    (.text "<?exp include('p') ?>\n<?exp include('p') ?>")

/-- The gaps of a program, its failures and what it reports of them. -/
def failuresOf (compiled : Except CompileError Program) :
    Option (List Gap × List PlacedFailure × List RenderError) :=
  compiled.toOption.map fun program =>
    (program.root.gaps .origin, program.failures, program.failures.map program.failureError)

theorem exists_of_failuresOf {compiled : Except CompileError Program} {gaps : List Gap}
    {failures : List PlacedFailure} {reports : List RenderError}
    (h : failuresOf compiled = some (gaps, failures, reports)) :
    ∃ program, compiled = .ok program ∧ program.root.gaps .origin = gaps ∧
      program.failures = failures ∧ program.failures.map program.failureError = reports := by
  cases compiled with
  | error reason => cases h
  | ok program =>
    simp only [failuresOf, Except.toOption, Option.map_some, Option.some.injEq, Prod.mk.injEq] at h
    exact ⟨program, rfl, h⟩

/-- A directive that fails in two places has two gaps, but both failures are placed at the first of
them, and no error is reported with the trace of the second one. -/
theorem second_gap_has_no_failure :
    let e := Engine.ofOptions .default
    ∃ program, (e.compile "/r.exp" (e.history partTwice .session [])).1 = .ok program ∧
      (program.root.gaps .origin).map (·.place) = [⟨1, 3⟩, ⟨3, 16⟩] ∧
      program.failures.map (·.generated) = [some ⟨1, 3⟩, some ⟨1, 3⟩] ∧
      ∃ g ∈ program.root.gaps .origin, g.around = [⟨"/r.exp", ⟨2, 7⟩⟩] ∧
        g.report ∉ program.failures.map program.failureError := by
  dsimp only
  rw [ofOptions_default]
  have hfailure : failuresOf (default.compile "/r.exp" (default.history partTwice .session [])).1 =
      some (
        [⟨⟨⟨⟨"/p.exp", ⟨1, 7⟩⟩, .notFound "/gone.exp"⟩, [⟨"/r.exp", ⟨1, 7⟩⟩]⟩, ⟨1, 3⟩⟩,
          ⟨⟨⟨⟨"/p.exp", ⟨1, 7⟩⟩, .notFound "/gone.exp"⟩, [⟨"/r.exp", ⟨2, 7⟩⟩]⟩, ⟨3, 16⟩⟩],
        List.replicate 2 ⟨⟨⟨"/p.exp", ⟨1, 7⟩⟩, .notFound "/gone.exp"⟩, some ⟨1, 3⟩⟩,
        List.replicate 2 (.traced "IncludeResolutionError"
          "ENOENT: no such file or directory, open '/gone.exp'"
          ⟨[⟨"/p.exp", ⟨1, 7⟩⟩, ⟨"/r.exp", ⟨1, 7⟩⟩], false⟩)) := by
    decide +kernel
  obtain ⟨program, hprogram, hgaps, hfailures, hreports⟩ := exists_of_failuresOf hfailure
  refine ⟨program, hprogram, by rw [hgaps]; rfl, by rw [hfailures]; rfl, ?_⟩
  rw [hgaps, hreports]
  exact ⟨_, List.mem_cons_of_mem _ List.mem_cons_self, rfl, by decide⟩

end Engine

end Stencil
