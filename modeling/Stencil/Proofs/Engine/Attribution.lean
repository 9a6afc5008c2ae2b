import Stencil.Proofs.Engine.Request

/-! # Where generated code comes from

A program that an engine has compiled leads every character of its code back to the template files:
to the character that was copied, or to the beginning of the node or directive that stands for it,
and from there through the directives around it to the root.
-/
namespace Stencil
open Relation (ReflTransGen TransGen)

/-! ## Compiled documents -/

namespace Dialect.Compiles

variable {d : Dialect} {files : Files} {path : String} {document : Document}

theorem tidy (h : d.Compiles files path document) : document.Tidy := by
  obtain ⟨content, -, -, hbare⟩ := h
  rw [← document.tidy_bare, hbare]
  exact tidy_document _ _ _

theorem unnested (h : d.Compiles files path document) : document.Unnested := by
  obtain ⟨content, hread, hsettles, hbare⟩ := h
  rw [← document.unnested_bare, hbare]
  exact unnested_document hread hsettles

theorem path_eq (h : d.Compiles files path document) : document.path = path := by
  obtain ⟨content, -, -, hbare⟩ := h
  rw [← document.path_bare, hbare, path_document]

theorem not_loops (h : d.Compiles files path document) : ¬ d.Loops files.read path := by
  obtain ⟨content, hread, hsettles, -⟩ := h
  exact hsettles.not_loops hread

/-- The cells of a compiled document are the expansion of its file. -/
theorem map_emitted_cells (h : d.Compiles files path document) :
    ∃ content, files.read path = .ok content ∧ ∀ place,
      (document.cells place).map Cell.emitted =
        d.expansion files.read (files.size + 1) path content := by
  obtain ⟨content, hread, -, hbare⟩ := h
  refine ⟨content, hread, fun place => ?_⟩
  rw [← document.map_emitted_cells_bare, hbare, map_emitted_document]

end Dialect.Compiles

/-! ## Answers for roots -/

/-- A file that leads into an include cycle can be read. -/
theorem Dialect.Loops.exists_read {d : Dialect} {read : String → Except ReadError String}
    {p : String} (h : d.Loops read p) : ∃ content, read p = .ok content := by
  obtain ⟨q, hreach, hcycle⟩ := h
  rcases ReflTransGen.cases_head hreach with rfl | ⟨next, ⟨content, hread, -⟩, -⟩
  · obtain ⟨next, ⟨content, hread, -⟩, -⟩ := TransGen.head'_iff.mp hcycle
    exact ⟨content, hread⟩
  · exact ⟨content, hread⟩

namespace Terms.Answer

variable {d : Dialect} {files : Files} {root : String} {lo hi : Nat} {outcome : Outcome}

/-- There is a document for a root if it can be read and its includes lead into no cycle. -/
theorem ok_iff (h : (Terms.strict d files).Answer [] root lo outcome hi) :
    (∃ document, outcome = .ok document) ↔
      (∃ content, files.read root = .ok content) ∧ ¬ d.Loops files.read root := by
  match outcome, h with
  | .ok document, ⟨hcompiles, _⟩ =>
    have hfree : ¬ d.Loops files.read root := hcompiles.not_loops
    obtain ⟨content, hread, -⟩ := hcompiles
    exact iff_of_true ⟨document, rfl⟩ ⟨⟨content, hread⟩, hfree⟩
  | .error (.cycle _), hloops =>
    exact iff_of_false (fun ⟨_, hdocument⟩ => by cases hdocument) fun hboth => hboth.2 hloops
  | .error (.inclusion _), ⟨hchain, _⟩ => exact absurd rfl hchain
  | .error (.template _ _), ⟨_, fault, hfault⟩ =>
    refine iff_of_false (fun ⟨_, hdocument⟩ => by cases hdocument) fun ⟨⟨content, hread⟩, _⟩ => ?_
    cases hfault.symm.trans hread

/-- A cycle is reported for a root if its includes lead into one, and only then. -/
theorem cycle_iff (h : (Terms.strict d files).Answer [] root lo outcome hi) :
    (∃ reason, outcome = .error reason ∧ reason.kindName = "CacheConsistencyError") ↔
      d.Loops files.read root := by
  match outcome, h with
  | .ok document, ⟨hcompiles, _⟩ =>
    refine iff_of_false ?_ hcompiles.not_loops
    rintro ⟨reason, hreason, -⟩
    cases hreason
  | .error (.cycle _), hloops => exact iff_of_true ⟨_, rfl, rfl⟩ hloops
  | .error (.inclusion _), ⟨hchain, _⟩ => exact absurd rfl hchain
  | .error (.template _ _), ⟨_, fault, hfault⟩ =>
    refine iff_of_false ?_ fun hloops => ?_
    · rintro ⟨reason, hreason, hkind⟩
      obtain rfl := Except.error.inj hreason
      exact absurd hkind (show ¬ "TemplateError" = "CacheConsistencyError" by decide)
    · obtain ⟨content, hread⟩ := Dialect.Loops.exists_read hloops
      cases hfault.symm.trans hread

end Terms.Answer

/-! ## Documents with a known expansion -/

namespace Document

variable {d : Document} {es : List Emitted}

theorem code_program_eq (htidy : d.Tidy) (hcells : (d.cells .origin).map Cell.emitted = es) :
    d.program.code.toList = es.map Emitted.char := by
  rw [d.code_program htidy, ← d.map_char_cells .origin, ← hcells, List.map_map]
  rfl

/-- The cell of a character stands at the place behind all characters in front of it. -/
theorem exists_cell (htidy : d.Tidy) (hcells : (d.cells .origin).map Cell.emitted = es)
    (i : Fin es.length) :
    ∃ c ∈ d.cells .origin, c.emitted = es[i] ∧
      c.place = Mark.origin.after (d.program.code.toList.take i) := by
  subst hcells
  have hi : i < (d.cells .origin).length := by simpa using i.isLt
  refine ⟨(d.cells .origin)[i], List.getElem_mem hi, by simp, ?_⟩
  have hplaces := d.map_place_cells .origin
  have halong : i < (Mark.origin.along d.text.toList).length := by
    rw [← hplaces]
    simpa using hi
  rw [d.code_program htidy, ← Mark.getElem_along _ _ _ halong]
  simp only [← hplaces, List.getElem_map]
  rfl

/-- Each character of the code is mapped to the origin that the expansion gives to it. -/
theorem origin?_getElem (htidy : d.Tidy) (hcells : (d.cells .origin).map Cell.emitted = es)
    (i : Fin es.length) :
    d.program.map.origin? (Mark.origin.after (d.program.code.toList.take i)) =
      some ⟨es[i].origin, false⟩ := by
  obtain ⟨c, hc, hemitted, hplace⟩ := exists_cell htidy hcells i
  rw [← hplace, d.origin?_program htidy c hc, ← hemitted]
  rfl

/-- The diagnosis of each character is its origin and the directives that the expansion has around
it; the last of them stands in the root. -/
theorem diagnose_getElem (htidy : d.Tidy) (hunnested : d.Unnested)
    (hcells : (d.cells .origin).map Cell.emitted = es) (i : Fin es.length) :
    d.program.diagnose (Mark.origin.after (d.program.code.toList.take i)) =
        ⟨es[i].origin :: es[i].around, false⟩ ∧
      ((es[i].origin :: es[i].around).getLast (List.cons_ne_nil _ _)).source = d.path := by
  obtain ⟨c, hc, hemitted, hplace⟩ := exists_cell htidy hcells i
  rw [← hplace, d.diagnose_program htidy hunnested c hc]
  simp only [← hemitted]
  exact ⟨rfl, (d.liesIn .origin htidy hunnested c hc).leads.getLast_frames⟩

end Document

namespace Engine

variable {e : Engine} {files : Files} {w : World}

/-- An engine in use compiles a file if it can be read and its includes lead into no cycle. -/
theorem Idle.exists_ok_iff (h : Idle e.dialect files w) (path : String) :
    (∃ program, (e.compile path w).1 = .ok program) ↔
      (∃ content, files.read (Path.normalize path) = .ok content) ∧
        ¬ e.dialect.Loops files.read (Path.normalize path) := by
  obtain ⟨-, outcome, hi, hresult, hanswer⟩ := h.compile path
  rw [hresult, ← hanswer.ok_iff]
  constructor
  · rintro ⟨program, hprogram⟩
    match outcome, hprogram with
    | .ok document, _ => exact ⟨document, rfl⟩
  · rintro ⟨document, rfl⟩
    exact ⟨document.program, rfl⟩

/-- What an engine in use compiles is the program of the document that the file has to be compiled
to. -/
theorem Idle.compiles_of_ok (h : Idle e.dialect files w) {path : String} {program : Program}
    (hprogram : (e.compile path w).1 = .ok program) :
    ∃ document, program = document.program ∧
      e.dialect.Compiles files (Path.normalize path) document := by
  obtain ⟨-, outcome, hi, hresult, hanswer⟩ := h.compile path
  rw [hresult] at hprogram
  match outcome, hanswer with
  | .ok document, ⟨hcompiles, _⟩ => exact ⟨document, (Except.ok.inj hprogram).symm, hcompiles⟩
  | .error _, _ => cases hprogram

/-- What an engine in use compiles a text to is the program of the document that it has to be
compiled to. -/
theorem Idle.settles_of_compileSource (h : Idle e.dialect files w) {path source : String}
    {program : Program} (hprogram : (e.compileSource path source w).1 = .ok program) :
    ∃ document : Document, program = document.program ∧
      e.dialect.Settles files.read (files.size + 2) (Path.normalize path) source ∧
      document.bare = e.dialect.document files.read (files.size + 2) (Path.normalize path)
        source := by
  unfold Engine.compileSource at hprogram
  obtain ⟨-, outcome, hi, hresult, hanswer⟩ := Idle.compileWith (T := .lax e.dialect files)
    (fun depth => compileText e.dialect depth [] (Path.normalize path) source) h
    (e.ensures_compileSource files path source)
  rw [hresult] at hprogram
  match outcome, hanswer with
  | .ok document, ⟨hsettles, hbare, _⟩ =>
    exact ⟨document, (Except.ok.inj hprogram).symm, hsettles, hbare⟩
  | .error _, _ => cases hprogram

end Engine

end Stencil
