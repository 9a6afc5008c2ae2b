import Stencil.Proofs.Engine.Cycle
import Stencil.Proofs.Template.Default

/-! # Texts that stand for a file

A text that is compiled as if it were the file at a path may lead back to that path, through files
on the disk that include it.  This is a cycle as well, and an engine finds it as long as it keeps no
document of a file on the way.  A kept document is taken as it is: it was made when the path stood
for what is on the disk, and the path may be anywhere in it.
-/
namespace Stencil
open Relation (ReflTransGen TransGen)

/-- The includes of a text that stands for the file at a path lead back to that path. -/
def Dialect.LeadsBack (d : Dialect) (read : String → Except ReadError String)
    (root source : String) : Prop :=
  ∃ q ∈ d.targets root source, ReflTransGen (d.Includes read) q root

/-- The terms of a text that stands for the file at a path: there it may ask for any file, whatever
is on the disk. -/
def Terms.virtual (d : Dialect) (files : Files) (root : String) : Terms :=
  ⟨d, files, fun p q => p = root ∨ d.Includes files.read p q, fun _ => True⟩

theorem Terms.closed_virtual (d : Dialect) (files : Files) (root : String) :
    (Terms.virtual d files root).Closed where
  includes _ _ h := .inr h
  around _ _ := trivial
  toward _ _ _ _ := trivial

/-- A text reports a cycle if it leads back to the path that it stands for. -/
theorem Dialect.LeadsBack.cycles_ne_nil {d : Dialect} {read : String → Except ReadError String}
    {root source : String} (h : d.LeadsBack read root source) (depth : Nat) :
    d.cycles read depth [] root source ≠ [] := by
  intro hnone
  obtain ⟨q, hq, hback⟩ := h
  obtain ⟨-, havoids⟩ := settles_of_cycles_eq_nil hnone
  exact havoids q hq root hback (by simp)

namespace Terms.TextAnswer

variable {T : Terms} {root source : String} {lo hi lo' hi' : Nat}

/-- Compiled texts that report the same are alike. -/
theorem alike {outcome outcome' : Outcome} (h : T.TextAnswer root source lo outcome hi)
    (h' : T.TextAnswer root source lo' outcome' hi')
    (herror : failure? outcome = failure? outcome') :
    Alike (outcome.map Document.program) (outcome'.map Document.program) := by
  refine .of_failure? herror ?_
  rintro document document' rfl rfl
  obtain ⟨-, hbare, hapart⟩ := h
  obtain ⟨-, hbare', hapart'⟩ := h'
  have htidy : document.Tidy := by
    rw [← document.tidy_bare, hbare]
    exact Dialect.tidy_document _ _ _
  exact Document.same_program (hbare.trans hbare'.symm) htidy hapart hapart'

/-- The documents in a compiled text are those of files that it leads to. -/
theorem exists_of_mem {document x : Document} (h : T.TextAnswer root source lo (.ok document) hi)
    (hx : x ∈ documentsOfChunks document.chunks) :
    ∃ q ∈ T.dialect.targets root source,
      ReflTransGen (T.dialect.Includes T.files.read) q x.path := by
  obtain ⟨hsettles, hbare, -⟩ := h
  have hmem : x.bare ∈ documentsOfChunks document.bare.chunks := by
    rw [document.chunks_bare, documents_bareChunks]
    exact List.mem_map_of_mem hx
  rw [hbare] at hmem
  obtain ⟨q, inner, hq, hread, hinner, hin⟩ := Dialect.exists_of_mem_chunks_document hsettles hmem
  obtain ⟨hreach, -⟩ := Dialect.reaches_of_mem_document hread hinner hin
  exact ⟨q, hq, x.path_bare ▸ hreach⟩

end Terms.TextAnswer

namespace Engine

variable {e : Engine} {files : Files} {w : World}

/-- The compilation of a text reports the first cycle that is met on the way through its directives,
if nothing that is kept leads to the path that it stands for. -/
theorem Idle.reports_compileSource (h : Idle e.dialect files w) {path root : String}
    (source : String) (hroot : Path.normalize path = root)
    (hshuns : w.Shuns e.dialect files.read [root]) :
    ∃ outcome hi, (e.compileSource path source w).1 = outcome.map Document.program ∧
      (Terms.virtual e.dialect files root).TextAnswer root source 0 outcome hi ∧
      Reports (e.dialect.cycles files.read (files.size + 1) [] root source) outcome := by
  subst hroot
  have hT := Terms.closed_virtual e.dialect files (Path.normalize path)
  have hlinked : (Terms.virtual e.dialect files (Path.normalize path)).Linked
      ([] ++ [Path.normalize path]) := Terms.linked_singleton _ _
  have hasks : ∀ q ∈ e.dialect.targets (Path.normalize path) source,
      (Terms.virtual e.dialect files (Path.normalize path)).asks (Path.normalize path) q :=
    fun q _ => .inl rfl
  have hjob := Terms.ensures_compileText_root hT (Nat.le_refl (files.size + 1)) hlinked 0 hasks
  have hdecides := Terms.decides_compileText hT (Nat.zero_add (files.size + 1)) hlinked hasks
  have hmet : ∀ p q, p ∉ [Path.normalize path] →
      (Terms.virtual e.dialect files (Path.normalize path)).asks p q →
      e.dialect.Includes files.read p q :=
    fun p q hp hasks => hasks.resolve_left fun heq => hp (List.mem_singleton.mpr heq)
  unfold Engine.compileSource
  exact Idle.decides_compileWith hT (Nat.le_refl (files.size + 1)) hmet
    (fun depth => compileText e.dialect depth [] (Path.normalize path) source) h hshuns
    (List.Subset.refl _) hjob hdecides

/-! ## The default engine -/

/-- The engine of the default options, with its openers written down. -/
def default : Engine where
  dialect :=
    { classifier := fun cs => Template.rangesFrom 0 (Template.classifyFrom .default
        Template.defaultOpeners Template.ne_nil_of_mem_defaultOpeners cs)
      extension := "exp"
      resolve := Path.resolve "exp" }
  includePolicy := .fail
  timeoutMillis := 30000
  executor := scriptExecutor

theorem ofOptions_default : Engine.ofOptions .default = default := by
  have hclassify : Options.default.templateSyntax.classify = default.dialect.classifier :=
    Template.Syntax.classify_default
  unfold Engine.ofOptions
  rw [hclassify]
  rfl

/-- Two files, of which the second one includes the first. -/
def twoFiles : Files :=
  (Files.empty.write "/p.exp" (.text "plain")).write "/q.exp" (.text "<?exp include('p') ?>")

/-! ## The cycles that are found -/

/-- **A text that leads back to the path which it stands for is not compiled**, as long as the
cache keeps no document of a file that leads there.  The engine then ends the compilation as a new
engine does: either it reports a cycle, or the text does not lead back, and no document of the path
is nested in the program. -/
theorem compileSource_finds_cycles (e : Engine) (files : Files) (mode : CacheMode)
    (requests : List Request) (path source : String)
    (hkept : (e.history files mode requests).Shuns e.dialect files.read [Path.normalize path]) :
    let root := Path.normalize path
    let compiled := (e.compileSource path source (e.history files mode requests)).1
    Alike compiled (e.compileSource path source (.fresh files mode)).1 ∧
    match compiled with
    | .error reason => ∃ chain, reason = .cycle chain
    | .ok program => ¬ e.dialect.LeadsBack files.read root source ∧
      ∀ x ∈ documentsOfChunks program.root.chunks, x.path ≠ root := by
  dsimp only
  have hidle := e.idle_history files mode requests
  have hfresh := idle_fresh e.dialect files mode
  have hnone : (World.fresh files mode).Shuns e.dialect files.read [Path.normalize path] := by
    intro q document hslot
    cases hslot
  obtain ⟨outcome, hi, hresult, hanswer, hreports⟩ :=
    hidle.reports_compileSource source rfl hkept
  obtain ⟨outcome', hi', hresult', hanswer', hreports'⟩ :=
    hfresh.reports_compileSource source rfl hnone
  rw [hresult, hresult']
  refine ⟨hanswer.alike hanswer' (hreports.trans hreports'.symm), ?_⟩
  rcases hreports.cases with ⟨hnil, document, rfl⟩ | ⟨cycle, rest, hcycles, rfl⟩
  · have hfree : ¬ e.dialect.LeadsBack files.read (Path.normalize path) source :=
      fun hback => hback.cycles_ne_nil _ hnil
    refine ⟨hfree, fun x hx hpath => hfree ?_⟩
    obtain ⟨q, hq, hreach⟩ := hanswer.exists_of_mem hx
    exact ⟨q, hq, hpath ▸ hreach⟩
  · exact ⟨cycle, rfl⟩

/-- The document of the first file leads to no other, and a text for the second one that includes
itself through it is compiled as by a new engine. -/
theorem compileSource_finds_cycles_twoFiles :
    (default.history twoFiles .session [.compile "/p.exp"]).Shuns default.dialect twoFiles.read
      [Path.normalize "/q.exp"] ∧
    Alike (default.compileSource "/q.exp" "<?exp include('p'); include('q') ?>"
        (default.history twoFiles .session [.compile "/p.exp"])).1
      (default.compileSource "/q.exp" "<?exp include('p'); include('q') ?>"
        (.fresh twoFiles .session)).1 := by
  have hkept : (default.history twoFiles .session [.compile "/p.exp"]).Shuns default.dialect
      twoFiles.read [Path.normalize "/q.exp"] := by
    intro path document hslot r hr
    have hkeys : (default.history twoFiles .session
        [.compile "/p.exp"]).cache.slots.map Prod.fst = ["/p.exp"] := by
      decide +kernel
    obtain ⟨before, after, hslots, -⟩ := List.lookup_eq_some_iff.mp hslot
    obtain rfl : path = "/p.exp" := by
      have hmem : path ∈ ["/p.exp"] := by
        rw [← hkeys, hslots]
        simp
      exact List.mem_singleton.mp hmem
    rcases ReflTransGen.cases_head hr with rfl | ⟨next, ⟨content, hread, hnext⟩, -⟩
    · decide +kernel
    · have hplain : twoFiles.read "/p.exp" = .ok "plain" := by decide +kernel
      obtain rfl : "plain" = content := Except.ok.inj (hplain.symm.trans hread)
      have hnone : default.dialect.targets "/p.exp" "plain" = [] := by decide +kernel
      rw [hnone] at hnext
      cases hnext
  exact ⟨hkept, (compileSource_finds_cycles default twoFiles .session [.compile "/p.exp"] "/q.exp"
    "<?exp include('p'); include('q') ?>" hkept).1⟩

/-- A document that is kept hides a cycle: the text for the first file includes the second one,
which leads back, and yet it is compiled, with a document of its own path in it. A new engine
reports the cycle. -/
theorem kept_document_hides_cycle :
    let e := Engine.ofOptions .default
    let source := "<?exp include('q') ?>"
    e.dialect.LeadsBack twoFiles.read "/p.exp" source ∧
    (∃ program,
      (e.compileSource "/p.exp" source (e.history twoFiles .session [.compile "/q.exp"])).1 =
        .ok program ∧ ∃ x ∈ documentsOfChunks program.root.chunks, x.path = "/p.exp") ∧
    (e.compileSource "/p.exp" source (.fresh twoFiles .session)).1 =
      .error (.cycle ["/p.exp", "/q.exp", "/p.exp"]) := by
  dsimp only
  rw [ofOptions_default]
  refine ⟨?_, ?_, ?_⟩
  · have hincludes : default.dialect.Includes twoFiles.read "/q.exp" "/p.exp" :=
      ⟨"<?exp include('p') ?>", by decide +kernel, by decide +kernel⟩
    exact ⟨"/q.exp", by decide +kernel, .single hincludes⟩
  · have hnested : (default.compileSource "/p.exp" "<?exp include('q') ?>"
        (default.history twoFiles .session [.compile "/q.exp"])).1.toOption.any fun program =>
          (documentsOfChunks program.root.chunks).any (·.path == "/p.exp") := by
      decide +kernel
    generalize (default.compileSource "/p.exp" "<?exp include('q') ?>"
      (default.history twoFiles .session [.compile "/q.exp"])).1 = compiled at hnested ⊢
    cases compiled with
    | ok program =>
      obtain ⟨x, hx, hpath⟩ := List.any_eq_true.mp hnested
      exact ⟨program, rfl, x, hx, eq_of_beq hpath⟩
    | error reason => cases hnested
  · have hfailure : failure? (default.compileSource "/p.exp" "<?exp include('q') ?>"
        (.fresh twoFiles .session)).1 = some (.cycle ["/p.exp", "/q.exp", "/p.exp"]) := by
      decide +kernel
    exact eq_error_of_failure? hfailure

end Engine

end Stencil
