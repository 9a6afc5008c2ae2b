import Stencil.Proofs.Engine.Attribution
import Stencil.Proofs.Program.Code

/-! # Templates that stand alone

A template without directives includes no other file.  It is compiled in any state of an engine, to
a program whose code is the outline of the template, and executing the program is running a script
of that code.
-/
namespace Stencil
open Template (symbols)

/-- The program of a file at a path, of some code, in which nothing is left out. -/
structure Program.OfCode (program : Program) (path code : String) : Prop where
  path : program.root.path = path
  code : program.code = code
  failures : program.failures = []

namespace Template.Tree

variable {tree : Tree} {code : String}

/-- A tree becomes some code, without directives in it. -/
def IsCode (tree : Tree) (code : String) : Prop := tree.outline = symbols code.toList

theorem IsCode.inclusions (h : tree.IsCode code) : tree.inclusions = [] := by
  have hnone : tree.inclusions.map Inclusion.arguments = [] := by
    rw [← tree.directivesOf_outline, h]
    exact directivesOf_symbols _
  exact List.map_eq_nil_iff.mp hnone

theorem IsCode.text_fill (h : tree.IsCode code) (source : String) :
    textOfChunks (tree.fill source []) = code := by
  rw [← String.toList_inj, tree.text_fill, h]
  exact fillSymbols_symbols _ _

/-- The pieces of the nodes of a tree are the filled tree. -/
theorem map_piece (tree : Tree) (source : String) (insert : Inclusion → Chunk) :
    tree.nodes.map (Node.piece source insert) = tree.fill source (tree.inclusions.map insert) := by
  have hchunks : (tree.chunks source fun i => (pure (insert i) : Id Chunk)) = _ := tree.chunks_eq
  have hnodes : (tree.chunks source fun i => (pure (insert i) : Id Chunk)).run =
      tree.nodes.map (Node.piece source insert) := by
    rw [Tree.chunks, List.idRun_mapM]
    rfl
  rw [← hnodes, hchunks, Id.run_map, List.idRun_mapM]
  rfl

end Template.Tree

namespace Document

variable {tree : Template.Tree} {code : String}

/-- In a document of a template without directives nothing is included and nothing left out. -/
theorem directives_of_isCode (h : tree.IsCode code) (stamp : Stamp) (source : String) :
    (Document.mk stamp (tree.fill source [])).sites = [] ∧
      (Document.mk stamp (tree.fill source [])).failures = [] := by
  have hlength : ([] : List Chunk).length = tree.inclusions.length := by
    rw [h.inclusions, List.length_nil, List.length_nil]
  have hfill := directives_fill stamp source hlength
  rw [h.inclusions] at hfill
  exact hfill

theorem text_of_isCode (h : tree.IsCode code) (stamp : Stamp) (source : String) :
    (Document.mk stamp (tree.fill source [])).text = code := by
  rw [text]
  exact h.text_fill source

theorem hasGaps_of_isCode (h : tree.IsCode code) (stamp : Stamp) (source : String) :
    (Document.mk stamp (tree.fill source [])).hasGaps = false := by
  obtain ⟨hsites, hfailures⟩ := directives_of_isCode h stamp source
  refine Bool.eq_false_iff.mpr fun hgaps => ?_
  rw [hasGaps_iff, hsites, hfailures] at hgaps
  simp at hgaps

theorem apart_of_isCode (h : tree.IsCode code) (stamp : Stamp) (source : String) :
    Apart stamp.number (stamp.number + 1)
      (Document.mk stamp (tree.fill source [])).withIncluded := by
  have hsites : sitesOfChunks (tree.fill source []) = [] := (directives_of_isCode h stamp source).1
  have hnil : Apart stamp.number (Document.mk stamp (tree.fill source [])).number [] :=
    Apart.nil (Nat.le_refl _)
  rw [withIncluded, documentsOfChunks_eq_flatMap, hsites]
  exact hnil.cons

/-- The program of a document without gaps is made of the text of the document. -/
theorem ofCode_program {d : Document} {lo hi : Nat} (htext : d.text = code)
    (hgaps : d.hasGaps = false) (hapart : Apart lo hi d.withIncluded) :
    d.program.OfCode d.path code where
  path := rfl
  code := d.code_program_eq_text.trans htext
  failures := by
    have hfailures : d.withIncluded.flatMap Document.failures = [] :=
      List.flatMap_eq_nil_iff.mpr fun x hx => failures_eq_nil hgaps hx
    rw [failures_program hapart, hfailures, List.map_nil]

/-- The program of a document without directives. -/
theorem ofCode_of_isCode (h : tree.IsCode code) (stamp : Stamp) (source : String) :
    (Document.mk stamp (tree.fill source [])).program.OfCode stamp.path code :=
  ofCode_program (text_of_isCode h stamp source) (hasGaps_of_isCode h stamp source)
    (apart_of_isCode h stamp source)

end Document

namespace Dialect

variable {d : Dialect} {text code : String} {read : String → Except ReadError String}

/-- Compiling a template without directives takes no more than a number for the document. -/
theorem compileText_of_isCode (h : (d.tree text).IsCode code) (depth : Nat) (chain : List String)
    (path : String) :
    compileText d (depth + 1) chain path text = .number fun n => .done (.ok
      (.mk ⟨n, path, contentHash text, (d.tree text).malformed⟩ ((d.tree text).fill path []))) := by
  rw [Terms.compileText_succ, Template.Tree.chunks_eq, h.inclusions]
  rfl

theorem document_of_isCode (h : (d.tree text).IsCode code) (depth : Nat) (path : String) :
    d.document read (depth + 1) path text =
      .mk ⟨0, path, contentHash text, (d.tree text).malformed⟩ ((d.tree text).fill path []) := by
  rw [document, Template.Tree.map_piece, h.inclusions]
  rfl

/-- A template without directives leads into no cycle. -/
theorem not_loops_of_isCode (h : (d.tree text).IsCode code) {path : String}
    (hread : read path = .ok text) : ¬ d.Loops read path := by
  have hsettles : d.Settles read 1 path text := by
    intro q hq
    rw [Dialect.targets, h.inclusions] at hq
    cases hq
  exact hsettles.not_loops hread

end Dialect

namespace Engine

variable {e : Engine} {files : Files} {w : World} {text code : String}

/-- A text that stands for a file is compiled if there are no directives in it. -/
theorem ofCode_compileSource (h : (e.dialect.tree text).IsCode code) (path : String) (w : World) :
    ∃ program, (e.compileSource path text w).1 = .ok program ∧
      program.OfCode (Path.normalize path) code := by
  have hjob := Dialect.compileText_of_isCode h w.files.size [] (Path.normalize path)
  generalize e.dialect.tree text = tree at h hjob
  have hprogram := Document.ofCode_of_isCode h
    ⟨w.nextDocument, Path.normalize path, contentHash text, tree.malformed⟩ (Path.normalize path)
  refine ⟨_, ?_, hprogram⟩
  unfold Engine.compileSource Engine.compileWith
  simp only [World.newOwner, hjob]
  rfl

/-- A file without directives is compiled, whatever is kept. -/
theorem Idle.ofCode_compile (hidle : Idle e.dialect files w)
    (h : (e.dialect.tree text).IsCode code) {path : String}
    (hread : files.read (Path.normalize path) = .ok text) :
    ∃ program, (e.compile path w).1 = .ok program ∧
      program.OfCode (Path.normalize path) code := by
  obtain ⟨-, outcome, hi, hresult, hanswer⟩ := hidle.compile path
  obtain ⟨document, rfl⟩ := hanswer.ok_iff.mpr ⟨⟨text, hread⟩, Dialect.not_loops_of_isCode h hread⟩
  obtain ⟨⟨content, hcontent, -, hbare⟩, hapart⟩ := hanswer
  obtain rfl : content = text := Except.ok.inj (hcontent.symm.trans hread)
  have hbare : document.bare = _ := hbare.trans (Dialect.document_of_isCode h _ _)
  generalize e.dialect.tree content = tree at h hbare
  have htext := Document.text_of_isCode h
    ⟨0, Path.normalize path, contentHash content, tree.malformed⟩ (Path.normalize path)
  have hgaps := Document.hasGaps_of_isCode h
    ⟨0, Path.normalize path, contentHash content, tree.malformed⟩ (Path.normalize path)
  have hpath : document.path = Path.normalize path := by
    rw [← document.path_bare, hbare]
    rfl
  rw [← hbare, document.text_bare] at htext
  rw [← hbare, document.hasGaps_bare] at hgaps
  exact ⟨document.program, hresult, hpath ▸ Document.ofCode_program htext hgaps hapart⟩

/-- The script of a program is run, and what it writes is the output. -/
theorem execute_of_ofCode {o : Options} {program : Program} {path output : String} {context : Json}
    (hprogram : program.OfCode path code)
    (hrun : Script.runScript code ⟨path, context⟩ (.ofMillis o.timeoutMillis) = .ok output) :
    (Engine.ofOptions o).execute program context = .ok ⟨output, []⟩ := by
  have hscript : scriptExecutor program ⟨program.root.path, context⟩ o.timeoutMillis =
      .output output := by
    unfold scriptExecutor
    rw [hprogram.code, hprogram.path, hrun]
  unfold Engine.execute
  simp only [hprogram.failures, List.map_nil, Engine.ofOptions, hscript]
  cases o.includePolicy
  all_goals rfl

/-- **A template without directives is rendered as its code runs.**  Whatever an engine has been
asked for before, the output is what the script of that code writes: for the text of a file as well
as for one that stands for a file. -/
theorem render_of_isCode {o : Options} (files : Files) (mode : CacheMode)
    (requests : List Request) {path output : String} {context : Json}
    (h : ((Engine.ofOptions o).dialect.tree text).IsCode code)
    (hrun : Script.runScript code ⟨Path.normalize path, context⟩ (.ofMillis o.timeoutMillis) =
      .ok output) :
    let e := Engine.ofOptions o
    let w := e.history files mode requests
    (e.renderSource path text context w).1 = .ok ⟨output, []⟩ ∧
    (files.read (Path.normalize path) = .ok text →
      (e.render path context w).1 = .ok ⟨output, []⟩) := by
  dsimp only
  have hidle := (Engine.ofOptions o).idle_history files mode requests
  generalize (Engine.ofOptions o).history files mode requests = w at hidle ⊢
  constructor
  · obtain ⟨program, hprogram, hcode⟩ := ofCode_compileSource h path w
    rw [rendering_renderSource, hprogram, executeCompiled]
    exact execute_of_ofCode hcode hrun
  · intro hread
    obtain ⟨program, hprogram, hcode⟩ := hidle.ofCode_compile h hread
    rw [rendering_render, hprogram, executeCompiled]
    exact execute_of_ofCode hcode hrun

end Engine

end Stencil
