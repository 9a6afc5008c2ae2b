import Stencil.Proofs.Engine.Alone
import Stencil.Proofs.Engine.Retry
import Stencil.Proofs.Engine.Virtual
import Stencil.Proofs.Template.Replacement

/-! # Directives that fail

A directive that fails leaves one space in the code, and nothing else of it counts: a template with
a space in its place has the same outline but for the directive, names the same files that can be
read, leads into the same cycles, and so is compiled to the same code.
-/
namespace Stencil
open Relation (ReflTransGen TransGen)
open Template (Symbol directivesOf fillSymbols splitArguments)

namespace Dialect

variable (d : Dialect) (read : String → Except ReadError String)

/-! ## What directives become -/

/-- The code that a directive of a file becomes, with includes up to a depth. -/
def directiveText (depth : Nat) (path : String) (arguments : List String) : String :=
  match d.target arguments path with
  | .error _ => gapCode
  | .ok q =>
    match read q with
    | .ok inner => (d.document read depth q inner).text
    | .error _ => gapCode

/-- A directive of a file fails, and not because it closes a cycle. -/
def Fails (path : String) (arguments : List String) : Prop :=
  (∃ reason, d.target arguments path = .error reason) ∨
    ∃ q fault, d.target arguments path = .ok q ∧ q ≠ path ∧ read q = .error fault

/-- Two texts have the same outline, but for a directive of the one that is a space in the other. -/
def SpaceFor (arguments : List String) (content content' : String) : Prop :=
  ∃ a b, (d.tree content).outline = a ++ .directive arguments :: b ∧
    (d.tree content').outline = a ++ .char ' ' :: b

variable {d read} {path : String} {arguments : List String} {content content' : String}

theorem text_inserted (depth : Nat) (path : String) (i : Template.Inclusion) :
    (d.inserted read path (d.document read depth) i).text =
      d.directiveText read depth path i.arguments := by
  unfold inserted directiveText
  cases d.target i.arguments path with
  | error reason => rfl
  | ok q =>
    dsimp only
    cases read q with
    | error fault => rfl
    | ok inner => rfl

/-- The code of a document is the outline of its text, with what the directives become. -/
theorem toList_text_document (depth : Nat) (path content : String) :
    (d.document read (depth + 1) path content).text.toList =
      fillSymbols (d.tree content).outline
        ((directivesOf (d.tree content).outline).map (d.directiveText read depth path)) := by
  have htexts : ∀ is : List Template.Inclusion,
      (is.map (d.inserted read path (d.document read depth))).map Chunk.text =
        (is.map Template.Inclusion.arguments).map (d.directiveText read depth path) := by
    intro is
    rw [List.map_map, List.map_map]
    exact List.map_congr_left fun i _ => text_inserted depth path i
  rw [document, Document.text, Template.Tree.map_piece, Template.Tree.text_fill, htexts,
    Template.Tree.directivesOf_outline]

/-- The files that a text names are those that the directives of its outline name. -/
theorem targets_eq (path content : String) :
    d.targets path content = (directivesOf (d.tree content).outline).filterMap fun arguments =>
      (d.target arguments path).toOption := by
  rw [targets, Template.Tree.directivesOf_outline, List.filterMap_map]
  rfl

/-- A directive that fails becomes a space. -/
theorem Fails.directiveText (h : d.Fails read path arguments) (depth : Nat) :
    d.directiveText read depth path arguments = gapCode := by
  unfold Dialect.directiveText
  rcases h with ⟨reason, htarget⟩ | ⟨q, fault, htarget, -, hfault⟩
  · rw [htarget]
  · rw [htarget]
    simp only [hfault]

namespace SpaceFor

variable (h : d.SpaceFor arguments content content')
include h

/-- The directives of the one text are those of the other one, and the one that is a space
there. -/
theorem exists_directivesOf : ∃ xs ys,
    directivesOf (d.tree content).outline = xs ++ arguments :: ys ∧
      directivesOf (d.tree content').outline = xs ++ ys := by
  obtain ⟨a, b, houtline, houtline'⟩ := h
  refine ⟨directivesOf a, directivesOf b, ?_, ?_⟩
  · rw [houtline, Template.directivesOf_append]
    rfl
  · rw [houtline', Template.directivesOf_append]
    rfl

theorem directives_subset : directivesOf (d.tree content').outline ⊆
    directivesOf (d.tree content).outline := by
  obtain ⟨xs, ys, hdirectives, hdirectives'⟩ := h.exists_directivesOf
  rw [hdirectives, hdirectives']
  exact List.append_subset.mpr ⟨List.subset_append_left _ _,
    List.subset_append_of_subset_right _ (List.subset_cons_self _ _)⟩

/-- **The two texts have the same code**, if the directive fails, and the others become the same. -/
theorem text_document (hfails : d.Fails read path arguments)
    {read' : String → Except ReadError String} (depth : Nat)
    (hsame : ∀ other ∈ directivesOf (d.tree content').outline,
      d.directiveText read depth path other = d.directiveText read' depth path other) :
    (d.document read (depth + 1) path content).text =
      (d.document read' (depth + 1) path content').text := by
  rw [← String.toList_inj, toList_text_document, toList_text_document,
    ← List.map_congr_left hsame]
  obtain ⟨a, b, houtline, houtline'⟩ := h
  have hdirectives : directivesOf (a ++ .directive arguments :: b) =
      directivesOf a ++ arguments :: directivesOf b := by
    rw [Template.directivesOf_append]
    rfl
  have hdirectives' : directivesOf (a ++ .char ' ' :: b) = directivesOf a ++ directivesOf b := by
    rw [Template.directivesOf_append]
    rfl
  rw [houtline, houtline', hdirectives, hdirectives', Template.fillSymbols_append,
    Template.fillSymbols_append, List.map_append, List.map_append, List.map_cons]
  have hlength : (directivesOf a).length =
      ((directivesOf a).map (d.directiveText read depth path)).length := (List.length_map _).symm
  have htake : ∀ more : List String,
      fillSymbols a ((directivesOf a).map (d.directiveText read depth path) ++ more) =
        fillSymbols a ((directivesOf a).map (d.directiveText read depth path)) := by
    intro more
    rw [← Template.fillSymbols_take, hlength, List.take_left]
  rw [htake, htake, hlength, List.drop_left, List.drop_left, hfails.directiveText]
  have hgap : gapCode.toList = [' '] := by decide
  rw [fillSymbols, fillSymbols, List.head?_cons, Option.getD_some, hgap]
  rfl

/-- The files that the two texts name are the same, but for one that cannot be read. -/
theorem mem_targets_iff (hfails : d.Fails read path arguments) {q : String}
    (hread : ∃ inner, read q = .ok inner) :
    q ∈ d.targets path content ↔ q ∈ d.targets path content' := by
  obtain ⟨xs, ys, hdirectives, hdirectives'⟩ := h.exists_directivesOf
  have hnot : (d.target arguments path).toOption ≠ some q := by
    rcases hfails with ⟨reason, htarget⟩ | ⟨q', fault, htarget, -, hfault⟩
    · rw [htarget]
      nofun
    · rw [htarget]
      rintro heq
      obtain rfl : q' = q := Option.some.inj heq
      obtain ⟨inner, hinner⟩ := hread
      rw [hfault] at hinner
      cases hinner
  rw [targets_eq, targets_eq, hdirectives, hdirectives']
  simp only [List.filterMap_append, List.mem_append, List.filterMap_cons]
  cases htarget : (d.target arguments path).toOption with
  | none => rfl
  | some q' =>
    have hne : q ≠ q' := by
      rintro rfl
      exact hnot htarget
    simp [hne]

/-- The two texts meet the same cycles. -/
theorem cycles_eq (hfails : d.Fails read path arguments) (depth : Nat) :
    d.cycles read (depth + 1) [] path content = d.cycles read (depth + 1) [] path content' := by
  obtain ⟨xs, ys, hdirectives, hdirectives'⟩ := h.exists_directivesOf
  rw [Template.Tree.directivesOf_outline] at hdirectives hdirectives'
  have hcycles : ∀ content, d.cycles read (depth + 1) [] path content =
      ((d.tree content).inclusions.map Template.Inclusion.arguments).flatMap fun arguments =>
        d.cyclesAt read [path] path (d.cycles read depth [path]) ⟨default, arguments⟩ := by
    intro content
    rw [cycles, List.flatMap_map]
    rfl
  have hnone : d.cyclesAt read [path] path (d.cycles read depth [path]) ⟨default, arguments⟩ = [] := by
    unfold cyclesAt
    rcases hfails with ⟨reason, htarget⟩ | ⟨q, fault, htarget, hne, hfault⟩
    · simp only [htarget]
    · simp [htarget, hfault, hne.symm]
  rw [hcycles, hcycles, hdirectives, hdirectives', List.flatMap_append, List.flatMap_append,
    List.flatMap_cons, hnone, List.nil_append]

end SpaceFor

/-! ## Files that differ in one place -/

/-- Two ways to read files find the same texts, but for the file at a path. -/
def SameBut (root : String) (read read' : String → Except ReadError String) : Prop :=
  ∀ p, Path.normalize p = p → p ≠ root → ∀ content, read p = .ok content ↔ read' p = .ok content

theorem SameBut.symm {root : String} {read' : String → Except ReadError String}
    (h : SameBut root read read') : SameBut root read' read :=
  fun p hp hne content => (h p hp hne content).symm

/-- Files in which different entries have been written at a path differ there at most. -/
theorem sameBut_write (files : Files) (path : String) (entry entry' : Entry) :
    SameBut (Path.normalize path) (files.write path entry).read (files.write path entry').read := by
  intro p hp hne content
  have hnames : Path.names p ≠ Path.names path := by
    intro heq
    refine hne ?_
    rw [← hp, Path.normalize, heq]
    rfl
  have hread : ∀ entry, (files.write path entry).read p = .ok content ↔
      (files.read p).toOption = some content := by
    intro entry
    rw [← files.toOption_read_write entry hnames]
    cases (files.write path entry).read p <;> simp [Except.toOption]
  rw [hread, hread]

/-- A directive becomes the same if the file that it names has the same text and code. -/
theorem directiveText_congr {read' : String → Except ReadError String} {depth : Nat}
    (h : ∀ q, d.target arguments path = .ok q → (∀ inner, read q = .ok inner ↔ read' q = .ok inner) ∧
      ∀ inner, read q = .ok inner →
        (d.document read depth q inner).text = (d.document read' depth q inner).text) :
    d.directiveText read depth path arguments = d.directiveText read' depth path arguments := by
  unfold directiveText
  cases htarget : d.target arguments path with
  | error reason => rfl
  | ok q =>
    obtain ⟨hread, htext⟩ := h q htarget
    dsimp only
    cases hq : read q with
    | ok inner =>
      rw [(hread inner).mp hq]
      exact htext inner hq
    | error fault =>
      cases hq' : read' q with
      | ok inner => cases hq.symm.trans ((hread inner).mpr hq')
      | error fault' => rfl

/-- A file from which no way leads to the path has the same code. -/
theorem text_document_congr {root : String} {read' : String → Except ReadError String}
    (hsame : SameBut root read read') (depth : Nat) {q inner : String} (hread : read q = .ok inner)
    (havoids : ¬ ReflTransGen (d.Includes read) q root) :
    (d.document read depth q inner).text = (d.document read' depth q inner).text := by
  induction depth generalizing q inner with
  | zero => rfl
  | succ depth ih =>
    have htexts : ∀ arguments ∈ directivesOf (d.tree inner).outline,
        d.directiveText read depth q arguments = d.directiveText read' depth q arguments := by
      refine fun arguments harguments => directiveText_congr fun t htarget => ?_
      have hmem : t ∈ d.targets q inner := by
        rw [targets_eq]
        exact List.mem_filterMap.mpr ⟨arguments, harguments, by rw [htarget]; rfl⟩
      have hstep : d.Includes read q t := ⟨inner, hread, hmem⟩
      have hne : t ≠ root := by
        rintro rfl
        exact havoids (.single hstep)
      refine ⟨hsame t (normalize_of_target htarget) hne, fun inner hinner => ih hinner ?_⟩
      exact fun hback => havoids (.head hstep hback)
    rw [← String.toList_inj, toList_text_document, toList_text_document,
      List.map_congr_left htexts]

/-- A cycle that can be reached is there as well if the ways are kept that go on. -/
theorem exists_cycle_of_edges {α : Type} {r r' : α → α → Prop} {P : α → Prop} {root : α}
    (hroot : P root) (hP : ∀ p x, r p x → P x)
    (hkept : ∀ p x y, P p → r p x → r x y → r' p x)
    (h : ∃ q, ReflTransGen r root q ∧ TransGen r q q) :
    ∃ q, ReflTransGen r' root q ∧ TransGen r' q q := by
  have hway : ∀ p x y, P p → TransGen r p x → r x y → TransGen r' p x := by
    intro p x y hp hpx hy
    induction hpx generalizing y with
    | single hedge => exact .single (hkept _ _ _ hp hedge hy)
    | tail hpb hedge ih =>
      refine .tail (ih _ hedge) (hkept _ _ _ ?_ hedge hy)
      cases hpb with
      | single hlast => exact hP _ _ hlast
      | tail _ hlast => exact hP _ _ hlast
  obtain ⟨q, hreach, hcycle⟩ := h
  obtain ⟨next, hnext, -⟩ := TransGen.head'_iff.mp hcycle
  have hq : P q := by
    rcases ReflTransGen.cases_tail hreach with rfl | ⟨last, -, hlast⟩
    · exact hroot
    · exact hP _ _ hlast
  refine ⟨q, ?_, hway q q next hq hcycle hnext⟩
  rcases Relation.reflTransGen_iff_eq_or_transGen.mp hreach with rfl | hreach
  · exact .refl
  · exact (hway root q next hroot hreach hnext).to_reflTransGen

section
variable {root : String} {read' : String → Except ReadError String}

/-- The one text leads into a cycle if the other one does. -/
theorem SpaceFor.loops_iff (h : d.SpaceFor arguments content content')
    (hfails : d.Fails read root arguments) (hnormal : Path.normalize root = root)
    (hsame : SameBut root read read') (hread : read root = .ok content)
    (hread' : read' root = .ok content') : d.Loops read root ↔ d.Loops read' root := by
  have hP : ∀ read p x, d.Includes read p x → Path.normalize x = x :=
    fun _ _ _ ⟨_, _, hmem⟩ => normalize_of_mem_targets hmem
  constructor
  · refine exists_cycle_of_edges (P := fun p => Path.normalize p = p) hnormal (hP read) ?_
    rintro p x y hp ⟨text, htext, hmem⟩ ⟨inner, hinner, -⟩
    by_cases hne : p = root
    · subst hne
      obtain rfl := Except.ok.inj (hread.symm.trans htext)
      exact ⟨content', hread', (h.mem_targets_iff hfails ⟨inner, hinner⟩).mp hmem⟩
    · exact ⟨text, (hsame p hp hne text).mp htext, hmem⟩
  · refine exists_cycle_of_edges (P := fun p => Path.normalize p = p) hnormal (hP read') ?_
    rintro p x y hp ⟨text, htext, hmem⟩ ⟨inner, hinner, -⟩
    by_cases hne : p = root
    · subst hne
      obtain rfl := Except.ok.inj (hread'.symm.trans htext)
      refine ⟨content, hread, (h.mem_targets_iff hfails ?_).mpr hmem⟩
      by_cases hx : x = p
      · subst hx
        exact ⟨content, hread⟩
      · exact ⟨inner, (hsame x (normalize_of_mem_targets hmem) hx inner).mpr hinner⟩
    · exact ⟨text, (hsame p hp hne text).mpr htext, hmem⟩

/-- The two files have the same code, if they lead into no cycle. -/
theorem SpaceFor.text_document_root (h : d.SpaceFor arguments content content')
    (hfails : d.Fails read root arguments) (hsame : SameBut root read read')
    (hread : read root = .ok content) (hfree : ¬ d.Loops read root) (depth : Nat) :
    (d.document read (depth + 1) root content).text =
      (d.document read' (depth + 1) root content').text := by
  refine h.text_document hfails depth fun other hother => directiveText_congr fun t htarget => ?_
  have hmem : t ∈ d.targets root content := by
    rw [targets_eq]
    exact List.mem_filterMap.mpr ⟨other, h.directives_subset hother, by rw [htarget]; rfl⟩
  have hstep : d.Includes read root t := ⟨content, hread, hmem⟩
  -- a way from the file back to the root would close a cycle
  have havoids : ¬ ReflTransGen (d.Includes read) t root := fun hback =>
    hfree ⟨root, .refl, .head' hstep hback⟩
  have hne : t ≠ root := by
    rintro rfl
    exact havoids .refl
  exact ⟨hsame t (normalize_of_target htarget) hne,
    fun inner hinner => text_document_congr hsame depth hinner havoids⟩

end

end Dialect

/-! ## Templates -/

namespace Template

/-- The text with a space in the place of the directive that its pieces have between those in front
and those behind: from its keyword to its parenthesis, and a semicolon behind that. -/
def withSpace (front back : List Piece) : String :=
  .ofList (front.flatMap Piece.text ++ ' ' :: dropSemicolon (back.flatMap Piece.text))

end Template

open Template in
theorem Dialect.spaceFor_withSpace {d : Dialect} (hdefault : d.classifier = Syntax.default.classify)
    {source : String} {front back : List Piece} {head args : List Char}
    (h : pieces .default source.toList =
      front ++ ⟨.includeBegin, head⟩ :: (linePieces .block args ++ ⟨.includeEnd, [')']⟩ :: back))
    (hkey : ¬ EndsInKeyword none (front.flatMap Piece.text)) :
    d.SpaceFor (splitArguments (.ofList args)) source (withSpace front back) := by
  have htop : Draft.start.AtTop := ⟨rfl, rfl⟩
  rw [pieces_default] at h
  obtain ⟨a, b, houtline, houtline'⟩ := spaceFor_of_pieces htop h hkey
  refine ⟨a, b, ?_, ?_⟩
  · rw [tree, hdefault, outline_ofSpans_scan, pieces_default, houtline]
  · rw [tree, hdefault, outline_ofSpans_scan, pieces_default, withSpace, String.toList_ofList,
      houtline']

/-! ## Engines -/

namespace Engine

variable {e : Engine} {files files' : Files} {w w' : World} {path root : String}
  {arguments : List String} {source source' : String}

/-- What has been compiled, as its code. -/
def codeOf (compiled : Except CompileError Program) : Option String :=
  compiled.toOption.map Program.code

/-- A file is compiled to the same code if a directive of it fails and becomes a space. -/
theorem Idle.code_compile_space (h : Idle e.dialect files w) (h' : Idle e.dialect files' w')
    (hspace : e.dialect.SpaceFor arguments source source')
    (hfails : e.dialect.Fails files.read (Path.normalize path) arguments)
    (hread : files.read (Path.normalize path) = .ok source)
    (hread' : files'.read (Path.normalize path) = .ok source')
    (hsame : Dialect.SameBut (Path.normalize path) files.read files'.read) :
    codeOf (e.compile path w).1 = codeOf (e.compile path w').1 := by
  have hloops := hspace.loops_iff hfails (Path.normalize_normalize path) hsame hread hread'
  have hok : (∃ program, (e.compile path w).1 = .ok program) ↔
      ∃ program, (e.compile path w').1 = .ok program := by
    rw [h.exists_ok_iff, h'.exists_ok_iff, hloops]
    simp [hread, hread']
  cases hcompiled : (e.compile path w).1 with
  | error reason =>
    cases hcompiled' : (e.compile path w').1 with
    | error reason' => rfl
    | ok program' =>
      obtain ⟨program, hprogram⟩ := hok.mpr ⟨program', hcompiled'⟩
      cases hcompiled.symm.trans hprogram
  | ok program =>
    obtain ⟨program', hcompiled'⟩ := hok.mp ⟨program, hcompiled⟩
    have hfree := ((h.exists_ok_iff path).mp ⟨program, hcompiled⟩).2
    rw [hcompiled']
    obtain ⟨document, rfl, content, hcontent, hsettles, hbare⟩ := h.compiles_of_ok hcompiled
    obtain ⟨document', rfl, content', hcontent', hsettles', hbare'⟩ := h'.compiles_of_ok hcompiled'
    obtain rfl := Except.ok.inj (hread.symm.trans hcontent)
    obtain rfl := Except.ok.inj (hread'.symm.trans hcontent')
    -- beyond both bounds the documents stay what they are
    have hlarge := Dialect.document_eq hsettles
      (show files.size + 1 ≤ files.size + files'.size + 1 by omega)
    have hlarge' := Dialect.document_eq hsettles'
      (show files'.size + 1 ≤ files.size + files'.size + 1 by omega)
    have htext := hspace.text_document_root hfails hsame hread hfree (files.size + files'.size)
    rw [hlarge, hlarge', ← hbare, ← hbare', Document.text_bare, Document.text_bare] at htext
    simp only [codeOf, Except.toOption, Option.map_some, Document.code_program_eq_text, htext]

/-- A text that stands for a file is compiled to the same code, whenever both texts are compiled. -/
theorem Idle.code_compileSource_space (h : Idle e.dialect files w) (h' : Idle e.dialect files w')
    (hspace : e.dialect.SpaceFor arguments source source')
    (hfails : e.dialect.Fails files.read (Path.normalize path) arguments)
    {program program' : Program} (hprogram : (e.compileSource path source w).1 = .ok program)
    (hprogram' : (e.compileSource path source' w').1 = .ok program') :
    program.code = program'.code := by
  obtain ⟨document, rfl, -, hbare⟩ := h.settles_of_compileSource hprogram
  obtain ⟨document', rfl, -, hbare'⟩ := h'.settles_of_compileSource hprogram'
  have htext := hspace.text_document hfails (files.size + 1) fun _ _ => rfl
  rw [Document.code_program_eq_text, Document.code_program_eq_text, ← document.text_bare,
    ← document'.text_bare, hbare, hbare']
  exact htext

/-- It is compiled if the other text is, unless something is kept that leads to its path. -/
theorem Idle.codeOf_compileSource_space (h : Idle e.dialect files w) (h' : Idle e.dialect files w')
    (hspace : e.dialect.SpaceFor arguments source source')
    (hfails : e.dialect.Fails files.read (Path.normalize path) arguments)
    (hkept : w.Shuns e.dialect files.read [Path.normalize path])
    (hkept' : w'.Shuns e.dialect files.read [Path.normalize path]) :
    codeOf (e.compileSource path source w).1 = codeOf (e.compileSource path source' w').1 := by
  obtain ⟨outcome, hi, hresult, -, hreports⟩ := h.reports_compileSource source rfl hkept
  obtain ⟨outcome', hi', hresult', -, hreports'⟩ := h'.reports_compileSource source' rfl hkept'
  have hsame : failure? outcome = failure? outcome' := by
    rw [hreports, hreports', hspace.cycles_eq hfails]
  match outcome, outcome', hsame with
  | .ok document, .ok document', _ =>
    have hcode := h.code_compileSource_space h' hspace hfails hresult hresult'
    rw [hresult, hresult']
    exact congrArg some hcode
  | .error _, .error _, _ => rw [hresult, hresult']; rfl

/-- **A directive that fails counts for one space.**  A template in which a space stands for a
directive that cannot be resolved, from its keyword to its parenthesis, and for a semicolon behind
that, is compiled to the same code, whatever engines have been asked for before, unless a keyword
stands in front that would take the parenthesis behind the space for its own.  This goes for a file,
and for a text that stands for a file: if only one of the texts is compiled, something is kept that
leads to the path. -/
theorem compile_space (o : Options) (hdefault : o.templateSyntax = .default) (files files' : Files)
    (mode mode' : CacheMode) (requests requests' : List Request) (path source : String)
    {front back : List Template.Piece} {head args : List Char}
    (hpieces : Template.pieces .default source.toList = front ++ ⟨.includeBegin, head⟩ ::
      (Template.linePieces .block args ++ ⟨.includeEnd, [')']⟩ :: back))
    (hkey : ¬ Template.EndsInKeyword none (front.flatMap Template.Piece.text))
    (hfails : (Engine.ofOptions o).dialect.Fails files.read (Path.normalize path)
      (splitArguments (.ofList args))) :
    let e := Engine.ofOptions o
    let w := e.history files mode requests
    let space := Template.withSpace front back
    (files.read (Path.normalize path) = .ok source →
      files'.read (Path.normalize path) = .ok space →
      Dialect.SameBut (Path.normalize path) files.read files'.read →
      codeOf (e.compile path w).1 =
        codeOf (e.compile path (e.history files' mode' requests')).1) ∧
    let w' := e.history files mode' requests'
    (∀ program program', (e.compileSource path source w).1 = .ok program →
      (e.compileSource path space w').1 = .ok program' → program.code = program'.code) ∧
    (w.Shuns e.dialect files.read [Path.normalize path] →
      w'.Shuns e.dialect files.read [Path.normalize path] →
      codeOf (e.compileSource path source w).1 = codeOf (e.compileSource path space w').1) := by
  intro e w space
  have hspace : e.dialect.SpaceFor (splitArguments (.ofList args)) source space :=
    Dialect.spaceFor_withSpace (congrArg Template.Syntax.classify hdefault) hpieces hkey
  have hidle := e.idle_history files mode requests
  refine ⟨fun hread hread' hsame => ?_, ?_⟩
  · exact hidle.code_compile_space (e.idle_history files' mode' requests') hspace hfails hread
      hread' hsame
  · have hidle' := e.idle_history files mode' requests'
    exact ⟨fun program program' => hidle.code_compileSource_space hidle' hspace hfails,
      hidle.codeOf_compileSource_space hidle' hspace hfails⟩

/-- A file with a directive that names a missing one, and the file with a space in its place. -/
theorem compile_space_missing :
    let e := Engine.ofOptions .default
    let files := Files.empty.write "/a.exp" (.text "a<?exp include('x'); b ?>c")
    let files' := Files.empty.write "/a.exp" (.text "a<?exp   b ?>c")
    codeOf (e.compile "/a.exp" (e.history files .session [])).1 =
        codeOf (e.compile "/a.exp" (e.history files' .session [])).1 ∧
      (codeOf (e.compile "/a.exp" (e.history files .session [])).1).isSome := by
  let files := Files.empty.write "/a.exp" (.text "a<?exp include('x'); b ?>c")
  have hpieces : Template.pieces .default "a<?exp include('x'); b ?>c".toList =
      [⟨.text, ['a']⟩, ⟨.blockOpen, "<?exp".toList⟩, ⟨.block, [' ']⟩] ++
        ⟨.includeBegin, "include(".toList⟩ ::
          (Template.linePieces .block "'x'".toList ++ ⟨.includeEnd, [')']⟩ ::
            [⟨.delimiter, [';']⟩, ⟨.block, " b ".toList⟩, ⟨.blockClose, ['?', '>']⟩,
              ⟨.text, ['c']⟩]) := by
    rw [Template.pieces_default]
    decide +kernel
  have hfails : (Engine.ofOptions .default).dialect.Fails files.read (Path.normalize "/a.exp")
      (splitArguments "'x'") := by
    rw [ofOptions_default]
    exact .inr ⟨"/x.exp", .notFound, by decide +kernel, by decide +kernel, by decide +kernel⟩
  have hkey : ¬ Template.EndsInKeyword none "a<?exp ".toList := by
    rintro ⟨text, gap, heq, -, -⟩
    have hmem : 'n' ∈ text ++ Template.keyword ++ gap := by simp [Template.keyword]
    rw [← heq] at hmem
    exact absurd hmem (by decide)
  have hread : files.read (Path.normalize "/a.exp") = .ok "a<?exp include('x'); b ?>c" := by
    decide +kernel
  refine ⟨(compile_space .default rfl files
    (Files.empty.write "/a.exp" (.text "a<?exp   b ?>c")) .session .session [] [] "/a.exp"
    "a<?exp include('x'); b ?>c" hpieces hkey hfails).1 hread ?_
    (Dialect.sameBut_write _ _ _ _), ?_⟩
  · decide +kernel
  · rw [ofOptions_default]
    decide +kernel

end Engine

end Stencil
