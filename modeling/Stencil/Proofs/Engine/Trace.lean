import Stencil.Proofs.Engine.Virtual
import Stencil.Proofs.Script.Thrown
import Stencil.Proofs.Text.Offset

/-! # Where thrown errors are traced to

A script counts places in its code, and tells of an error the line and the column there; the weaver
has counted lines and columns while it wrote the code.  Both count alike, so that an error which a
script throws has the place of a character of the code, and that leads through the directives around
it to the root.
-/
namespace Stencil
open Relation (ReflTransGen)
open Script (Demand Globals Clock MeetStmts ScriptError execProgram readProgram runProgram)

/-! ## Texts that lead nowhere back -/

/-- The document of a text that does not lead back to its path contains none of its own path. -/
theorem Dialect.unnested_document_text {d : Dialect} {read : String → Except ReadError String}
    {bound : Nat} {path source : String} (h : d.Settles read bound path source)
    (hfree : ¬ d.LeadsBack read path source) : (d.document read bound path source).Unnested := by
  obtain _ | bound := bound
  · exact h.elim
  intro x hx y hy heq
  rw [Document.withIncluded_eq] at hx
  rcases List.mem_cons.mp hx with rfl | hx
  · obtain ⟨q, inner, hq, hread, hsettles, hy⟩ := exists_of_mem_chunks_document h hy
    obtain ⟨hreach, -⟩ := reaches_of_mem_document hread hsettles hy
    rw [path_document] at heq
    exact hfree ⟨q, hq, heq ▸ hreach⟩
  · obtain ⟨q, inner, hq, hread, hsettles, hx⟩ := exists_of_mem_chunks_document h hx
    exact unnested_document hread hsettles x hx y hy heq

/-! ## Thrown errors -/

/-- An error of a program leads exactly to its root: it has a position, which both the line index of
the code and the weaver give to one of its characters; the diagnosis there is not approximate, and
ends in the root. -/
structure Program.LeadsTo (p : Program) (root : String) (error : ScriptError) (place : Nat) :
    Prop where
  inside : place < p.code.toList.length
  position : error.position = some (Mark.origin.after (p.code.toList.take place))
  indexed : ((LineIndex.ofString p.code).position (utf8Length (p.code.toList.take place))).mark =
    Mark.origin.after (p.code.toList.take place)
  exact :
    (p.diagnose (Mark.origin.after (p.code.toList.take place))).approximate = false
  ends : (p.diagnose (Mark.origin.after (p.code.toList.take place))).frames.getLast?.map
    Origin.source = some root

/-- All errors that the script of a program throws lead to its root, provided that all parts of the
script stand in the code and take up some of it. -/
def Program.TracesThrown (p : Program) (root : String) : Prop :=
  ∀ script, readProgram p.code = .ok script → MeetStmts (.within p.code.toList) false script →
    ∀ bound globals clock v place m,
      execProgram p.code.toList bound globals script (.start clock) = .error (.throw v place) m →
      ∃ error, runProgram p.code.toList bound globals clock script = .error error ∧
        p.LeadsTo root error place

theorem LineIndex.mark_position_take (text : String) (n : Nat) :
    ((LineIndex.ofString text).position (utf8Length (text.toList.take n))).mark =
      Mark.origin.after (text.toList.take n) := by
  have hposition := LineIndex.position_utf8Length (text.toList.take n) (text.toList.drop n)
  rw [List.take_append_drop, String.ofList_toList] at hposition
  rw [hposition, Position.mark_after]
  rfl

/-- The programs of tidy documents that are not nested in themselves trace what is thrown. -/
theorem Document.tracesThrown {d : Document} (htidy : d.Tidy) (hunnested : d.Unnested) :
    d.program.TracesThrown d.path := by
  intro script _ hmeets bound globals clock v place m hthrow
  have hplace := Script.Demand.lt_of_place_within (Script.place_of_throw rfl hmeets hthrow)
  have hlength := congrArg List.length (d.code_program_eq htidy rfl)
  rw [List.length_map] at hlength
  obtain ⟨hdiagnosis, hlast⟩ := d.diagnose_getElem htidy hunnested rfl ⟨place, hlength ▸ hplace⟩
  refine ⟨Script.reportAbort d.program.code.toList m.heap (.throw v place), ?_, hplace, ?_,
    LineIndex.mark_position_take _ _, ?_, ?_⟩
  · unfold runProgram
    rw [hthrow]
  · show some (Script.markAt _ _) = _
    rw [Script.markAt, Position.mark_after]
    rfl
  · exact congrArg Diagnosis.approximate hdiagnosis
  · rw [hdiagnosis]
    show Option.map Origin.source (List.getLast? (_ :: _)) = _
    rw [List.getLast?_eq_some_getLast (List.cons_ne_nil _ _), Option.map_some, hlast]

namespace Engine

/-- **Every error that a script throws is traced exactly.**  Whatever an engine has been asked for
before, if it compiles a file, or a text that does not lead back to the path which it stands for, to
a program with a script in it, then each error which that script throws has the position of a
character of the code; the diagnosis of this position is exact, and its last frame is in the root.
-/
theorem thrown_traced (e : Engine) (files : Files) (mode : CacheMode) (requests : List Request)
    (path : String) :
    let root := Path.normalize path
    let w := e.history files mode requests
    (match (e.compile path w).1 with
      | .error _ => True
      | .ok program => program.TracesThrown root) ∧
    ∀ source, ¬ e.dialect.LeadsBack files.read root source →
      match (e.compileSource path source w).1 with
      | .error _ => True
      | .ok program => program.TracesThrown root := by
  intro root w
  have hidle := e.idle_history files mode requests
  refine ⟨?_, fun source hfree => ?_⟩
  · cases hcompiled : (e.compile path w).1 with
    | error reason => trivial
    | ok program =>
      obtain ⟨document, rfl, hcompiles⟩ := hidle.compiles_of_ok hcompiled
      have htraces := Document.tracesThrown hcompiles.tidy hcompiles.unnested
      rwa [hcompiles.path_eq] at htraces
  · cases hcompiled : (e.compileSource path source w).1 with
    | error reason => trivial
    | ok program =>
      obtain ⟨document, rfl, hsettles, hbare⟩ := hidle.settles_of_compileSource hcompiled
      have htidy : document.Tidy := by
        rw [← document.tidy_bare, hbare]
        exact Dialect.tidy_document _ _ _
      have hunnested : document.Unnested := by
        rw [← document.unnested_bare, hbare]
        exact Dialect.unnested_document_text hsettles hfree
      have htraces := Document.tracesThrown htidy hunnested
      rwa [← document.path_bare, hbare, Dialect.path_document] at htraces

/-! ## An error in an included file -/

/-- The literal that a script throws which does nothing else, and the place that its error comes
from. -/
def thrownLiteral? (code : String) (globals : Globals) : Option (Script.Span × Nat) :=
  match readProgram code with
  | .ok [.throw (.string span text)] =>
    match execProgram code.toList 100 globals [.throw (.string span text)] (.start ⟨none⟩) with
    | .error (.throw _ place) _ => some (span, place)
    | _ => none
  | _ => none

theorem exists_of_thrownLiteral? {code : String} {globals : Globals} {span : Script.Span}
    {place : Nat} (h : thrownLiteral? code globals = some (span, place)) :
    ∃ text v m, readProgram code = .ok [.throw (.string span text)] ∧
      execProgram code.toList 100 globals [.throw (.string span text)] (.start ⟨none⟩) =
        .error (.throw v place) m := by
  unfold thrownLiteral? at h
  split at h
  · rename_i span' text hread
    split at h
    · rename_i v place' m hthrow
      obtain ⟨rfl, rfl⟩ := Prod.mk.inj (Option.some.inj h)
      exact ⟨text, v, m, hread, hthrow⟩
    · cases h
  · cases h

/-- A file that includes another one, whose script throws. -/
def throwingPart : Files :=
  (Files.empty.write "/main.exp" (.text "<?exp include('part') ?>")).write "/part.exp"
    (.text "<?exp throw 'x' ?>")

/-- The error in the included file leads to the including one. -/
theorem thrown_traced_throwingPart : ∃ program script v m error,
    (default.compile "/main.exp" (default.history throwingPart .session [])).1 = .ok program ∧
    readProgram program.code = .ok script ∧ MeetStmts (.within program.code.toList) false script ∧
    execProgram program.code.toList 100 ⟨"/main.exp", .null⟩ script (.start ⟨none⟩) =
      .error (.throw v 8) m ∧
    runProgram program.code.toList 100 ⟨"/main.exp", .null⟩ ⟨none⟩ script = .error error ∧
    program.LeadsTo "/main.exp" error 8 := by
  have htraced := (thrown_traced default throwingPart .session [] "/main.exp").1
  have hcode : (default.compile "/main.exp"
      (default.history throwingPart .session [])).1.toOption.map Program.code =
        some "  throw 'x' \n \n" := by
    decide +kernel
  cases hcompiled : (default.compile "/main.exp" (default.history throwingPart .session [])).1 with
  | error reason =>
    rw [hcompiled] at hcode
    cases hcode
  | ok program =>
    rw [hcompiled] at hcode htraced
    have hthrown : thrownLiteral? program.code ⟨"/main.exp", .null⟩ = some (⟨8, 11⟩, 8) := by
      rw [Option.some.inj hcode]
      decide +kernel
    obtain ⟨text, v, m, hread, hthrow⟩ := exists_of_thrownLiteral? hthrown
    have hmeets : MeetStmts (.within program.code.toList) false
        [.throw (.string ⟨8, 11⟩ text)] := by
      rw [Option.some.inj hcode]
      exact ⟨⟨by decide, by decide⟩, trivial⟩
    obtain ⟨error, herror, hleads⟩ := htraced _ hread hmeets 100 _ _ v 8 m hthrow
    have hroot : Path.normalize "/main.exp" = "/main.exp" := by decide +kernel
    exact ⟨program, _, v, m, error, rfl, hread, hmeets, hthrow, herror, hroot ▸ hleads⟩

end Engine

end Stencil
