import Stencil.Proofs.Compile.Making
import Stencil.Proofs.Engine.Revalidate
import Stencil.Proofs.Engine.Virtual

/-! # Giving up documents

To give up the document of a path empties the slot of that path.  Whatever happens afterwards, each
document of the path that is made is made from the text that its file has then.  But documents that
include it hold it as a part of theirs, and slots of other paths keep them: there, and only there,
an old form of the file lives on.
-/
namespace Stencil

namespace Engine

variable {e : Engine} {files : Files} {w : World} {lo : Nat} {G : Document → Prop}

/-- New documents that are made from files have a property. -/
def Renews (d : Dialect) (files : Files) (lo : Nat) (G : Document → Prop) : Prop :=
  ∀ x content, files.read x.path = .ok content → lo ≤ x.number → d.MadeFrom content x → G x

/-! ## Requests -/

/-- A compilation of its own ends with what its job makes. -/
theorem holds_compileWith {P : Document → Prop} {job : (depth : Nat) → Job Outcome}
    {post : Outcome → Prop} (hjob : ∀ depth, (job depth).Makes files lo P post)
    (hw : w.Holds files lo P) :
    (compileWith job w).2.Holds files lo P ∧
      ∃ outcome, (compileWith job w).1 = outcome.map Document.program ∧ post outcome := by
  have hstart : w.newOwner.2.Holds files lo P := ⟨hw.reads, hw.late, hw.kept⟩
  obtain ⟨hafter, hpost⟩ := Job.run_makes (hjob (w.files.size + 1)) w.nextOwner hstart
  exact ⟨hafter, _, rfl, hpost⟩

/-- In a compiled program, all documents have the property. -/
theorem holds_compile (hnew : Renews e.dialect files lo G)
    (hw : w.Holds files lo (Document.All G)) (path : String) :
    (e.compile path w).2.Holds files lo (Document.All G) ∧
      ∀ program, (e.compile path w).1 = .ok program → program.root.All G := by
  have hjob := fun depth =>
    Job.makes_compileFile hnew depth (Path.normalize path)
  obtain ⟨hafter, outcome, hresult, hpost⟩ := holds_compileWith hjob hw
  refine ⟨hafter, fun program hprogram => ?_⟩
  rw [compile, hresult] at hprogram
  match outcome, hpost, hprogram with
  | .ok document, hpost, hprogram =>
    obtain rfl := Except.ok.inj hprogram
    exact hpost document rfl

/-- So it is in what the cache keeps after any request. -/
theorem holds_serve (hnew : Renews e.dialect files lo G)
    (hw : w.Holds files lo (Document.All G)) (request : Request) :
    (e.serve w request).Holds files lo (Document.All G) := by
  have htext (path source : String) :
      (e.compileSource path source w).2.Holds files lo (Document.All G) :=
    (holds_compileWith
      (fun depth => Job.makes_compileText hnew depth [] (Path.normalize path) source) hw).1
  have hfewer {cache : Cache}
      (hslot : ∀ path slot, cache.slot? path = some slot → w.cache.slot? path = some slot) :
      World.Holds files lo (Document.All G) { w with cache } :=
    ⟨hw.reads, hw.late, fun path document hready => hw.kept path document (hslot path _ hready)⟩
  cases request with
  | compile path => exact (holds_compile hnew hw path).1
  | compileSource path source => exact htext path source
  | render path context =>
    rw [serve, world_render]
    exact (holds_compile hnew hw path).1
  | renderSource path source context =>
    rw [serve, world_renderSource]
    exact htext path source
  | invalidate path =>
    refine hfewer fun q slot hslot => ?_
    have hdrop := (w.cache.slot?_drop (Path.normalize path) q).symm.trans hslot
    split at hdrop
    · cases hdrop
    · exact hdrop
  | clear => exact hfewer fun q slot hslot => by cases hslot

/-! ## Events -/

/-- Through any events the property stays, if documents that are made have it at all times. -/
theorem holds_events (events : List Event)
    (hnew : ∀ since, since <+: events → Renews e.dialect (since.foldl Event.change files) lo G)
    (hw : w.Holds files lo (Document.All G)) :
    (events.foldl e.meet w).Holds (events.foldl Event.change files) lo (Document.All G) := by
  induction events generalizing files w with
  | nil => exact hw
  | cons event events ih =>
    refine ih (fun since hfront => hnew (event :: since) (List.cons_prefix_cons.mpr ⟨rfl, hfront⟩))
      ?_
    have hchange (event : Event) : World.Holds (event.change files) lo (Document.All G)
        { w with files := event.change w.files } :=
      ⟨congrArg event.change hw.reads, hw.late, hw.kept⟩
    cases event with
    | write path entry => exact hchange (.write path entry)
    | remove path => exact hchange (.remove path)
    | request request => exact holds_serve (hnew [] (List.nil_prefix ..)) hw request

/-- **After a path was given up, old documents of the path come from other slots only.**  However
files were written before and after, and whatever an engine was asked for, a document of the path in
a program that is compiled later was made since the path was given up, from the text that its file
had at some time since; or it was at that time a part of a document that the slot of another path
kept. -/
theorem renewed_or_kept_elsewhere (e : Engine) (files : Files) (mode : CacheMode)
    (events more : List Event) (path root : String) (program : Program)
    (hprogram : (e.compile root
      (e.course files mode (events ++ .request (.invalidate path) :: more))).1 = .ok program)
    (x : Document) (hx : x ∈ program.root.withIncluded) (hpath : x.path = Path.normalize path) :
    let before := e.course files mode events
    (before.nextDocument ≤ x.number ∧ ∃ since content, since <+: more ∧
      (since.foldl Event.change before.files).read x.path = .ok content ∧
        e.dialect.MadeFrom content x) ∨
    ∃ q kept, q ≠ x.path ∧ before.cache.slot? q = some (.ready kept) ∧ x ∈ kept.withIncluded := by
  intro before
  let G (x : Document) : Prop := x.path = Path.normalize path →
    (before.nextDocument ≤ x.number ∧ ∃ since content, since <+: more ∧
      (since.foldl Event.change before.files).read x.path = .ok content ∧
        e.dialect.MadeFrom content x) ∨
    ∃ q kept, q ≠ x.path ∧ before.cache.slot? q = some (.ready kept) ∧ x ∈ kept.withIncluded
  have hnew : ∀ since, since <+: more →
      Renews e.dialect (since.foldl Event.change before.files) before.nextDocument G :=
    fun since hfront x content hread hlate hmade _ =>
      .inl ⟨hlate, since, content, hfront, hread, hmade⟩
  -- what is kept when the path has just been given up is in the slots of other paths
  have hgiven : (e.meet before (.request (.invalidate path))).Holds before.files
      before.nextDocument (Document.All G) := by
    refine ⟨rfl, Nat.le_refl _, fun q kept hslot x hx hpath => .inr ⟨q, kept, ?_, ?_, hx⟩⟩
    · rintro rfl
      have hdrop := (before.cache.slot?_drop (Path.normalize path) x.path).symm.trans hslot
      rw [if_pos hpath] at hdrop
      cases hdrop
    · have hdrop := (before.cache.slot?_drop (Path.normalize path) q).symm.trans hslot
      split at hdrop
      · cases hdrop
      · exact hdrop
  have hcourse : e.course files mode (events ++ .request (.invalidate path) :: more) =
      more.foldl e.meet (e.meet before (.request (.invalidate path))) := List.foldl_append ..
  rw [hcourse] at hprogram
  exact (holds_compile (hnew more (List.prefix_refl _)) (holds_events more hnew hgiven) root).2
    program hprogram x hx hpath

/-! ## A root that is kept -/

/-- A file, and another one that consists of a directive for it. -/
def partAndRoot : Files :=
  (Files.empty.write "/p.exp" (.text "one")).write "/r.exp" (.text "<?exp include('p') ?>")

/-- The paths and numbers of all documents in a program, and its code. -/
def outline (compiled : Except CompileError Program) : Option (List (String × Nat) × String) :=
  compiled.toOption.map fun program =>
    (program.root.withIncluded.map fun x => (x.path, x.number), program.code)

theorem exists_of_outline {compiled : Except CompileError Program} {code : String}
    {documents : List (String × Nat)} (h : outline compiled = some (documents, code)) :
    ∃ program, compiled = .ok program ∧ program.code = code ∧
      ∀ entry ∈ documents,
        ∃ x ∈ program.root.withIncluded, x.path = entry.1 ∧ x.number = entry.2 := by
  cases compiled with
  | error reason => cases h
  | ok program =>
    obtain ⟨hdocuments, hcode⟩ := Prod.mk.inj (Option.some.inj h)
    refine ⟨program, rfl, hcode, fun entry hentry => ?_⟩
    rw [← hdocuments] at hentry
    obtain ⟨x, hx, rfl⟩ := List.mem_map.mp hentry
    exact ⟨x, hx, rfl, rfl⟩

/-- Where only the file itself is kept, its next document is made from the new text, in a root that
includes it as well. -/
theorem renewed_in_new_root :
    ∃ program x, (default.compile "/r.exp" (default.course partAndRoot .session
        ([.request (.compile "/p.exp"), .write "/p.exp" (.text "two")] ++
          [.request (.invalidate "/p.exp")]))).1 = .ok program ∧
      x ∈ program.root.withIncluded ∧ x.path = "/p.exp" ∧
      default.dialect.MadeFrom "two" x := by
  have houtline : outline (default.compile "/r.exp" (default.course partAndRoot .session
      ([.request (.compile "/p.exp"), .write "/p.exp" (.text "two")] ++
        [.request (.invalidate "/p.exp")]))).1 =
      some ([("/r.exp", 2), ("/p.exp", 1)], " ;write(\"two\"); \n") := by
    decide +kernel
  obtain ⟨program, hprogram, -, hdocuments⟩ := exists_of_outline houtline
  obtain ⟨x, hx, hpath, -⟩ := hdocuments ("/p.exp", 1) (by decide)
  refine ⟨program, x, hprogram, hx, hpath, ?_⟩
  rcases renewed_or_kept_elsewhere default partAndRoot .session
    [.request (.compile "/p.exp"), .write "/p.exp" (.text "two")] [] "/p.exp" "/r.exp" program
    hprogram x hx (hpath.trans (by decide +kernel)) with ⟨-, since, content, hsince, hread, hmade⟩ |
    ⟨q, kept, hq, hslot, -⟩
  · obtain rfl := List.prefix_nil.mp hsince
    have hnow : (default.course partAndRoot .session
        [.request (.compile "/p.exp"), .write "/p.exp" (.text "two")]).files.read "/p.exp" =
        .ok "two" := by
      decide +kernel
    rw [hpath] at hread
    obtain rfl := Except.ok.inj (hnow.symm.trans hread)
    exact hmade
  · -- no other slot was in use
    have hkeys : (default.course partAndRoot .session
        [.request (.compile "/p.exp"), .write "/p.exp" (.text "two")]).cache.slots.map Prod.fst =
        ["/p.exp"] := by
      decide +kernel
    obtain ⟨before, after, hslots, -⟩ := List.lookup_eq_some_iff.mp hslot
    have hmem : q ∈ ["/p.exp"] := by
      rw [← hkeys, hslots]
      simp
    exact absurd ((List.mem_singleton.mp hmem).trans hpath.symm) hq

/-- A root that is kept hides that a file in it was given up: the file is written and given up, and
yet the next program of the root has the old document of the file in it, and writes the old text. -/
theorem kept_root_hides_invalidation :
    let e := Engine.ofOptions .default
    let before := e.course partAndRoot .session
      [.request (.compile "/r.exp"), .write "/p.exp" (.text "two")]
    before.files.read "/p.exp" = .ok "two" ∧
    ∃ program, (e.compile "/r.exp" (e.meet before (.request (.invalidate "/p.exp")))).1 =
        .ok program ∧ program.code = " ;write(\"one\"); \n" ∧
      ∃ x ∈ program.root.withIncluded, x.path = "/p.exp" ∧ x.number < before.nextDocument := by
  dsimp only
  rw [ofOptions_default]
  refine ⟨by decide +kernel, ?_⟩
  have houtline : outline (default.compile "/r.exp" (default.meet (default.course partAndRoot
      .session [.request (.compile "/r.exp"), .write "/p.exp" (.text "two")])
      (.request (.invalidate "/p.exp")))).1 =
      some ([("/r.exp", 1), ("/p.exp", 0)], " ;write(\"one\"); \n") := by
    decide +kernel
  obtain ⟨program, hprogram, hcode, hdocuments⟩ := exists_of_outline houtline
  obtain ⟨x, hx, hpath, hnumber⟩ := hdocuments ("/p.exp", 0) (by decide)
  refine ⟨program, hprogram, hcode, x, hx, hpath, ?_⟩
  rw [hnumber]
  decide +kernel

end Engine

end Stencil
