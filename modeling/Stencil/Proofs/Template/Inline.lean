import Stencil.Proofs.Template.Default
import Stencil.Proofs.Template.Outline
import Stencil.Proofs.Template.Plain

/-! # Regions that write an expression

An inline region is copied into the arguments of a call as it stands.  So a template that is nothing
but such a region becomes the call around its text, whatever the text is, as long as the region ends
with it: no quote in it stays open, and the closer is only found in quoted texts of it.
-/
namespace Stencil.Template

/-! ## Lines -/

namespace Draft

variable {d : Draft} {scope : Scope}

theorem step_content (hscope : scope.isContent = true) {cs : List Char} (hcs : cs ≠ []) :
    d.step ⟨scope, cs⟩ = d.content scope cs := by
  have hdelimiter : scope ≠ .delimiter := by
    rintro rfl
    cases hscope
  simp [step, hdelimiter, hscope, hcs]

theorem run_splitLines (hscope : scope.isContent = true) (done cs : List Char)
    (hne : done.reverse ++ cs ≠ []) :
    d.run ((splitLines done cs).map (⟨scope, ·⟩)) = d.content scope (done.reverse ++ cs) := by
  induction cs generalizing d done with
  | nil =>
    have hdone : done ≠ [] := by simpa using hne
    simp [splitLines, hdone, run, step_content hscope]
  | cons c cs ih =>
    rw [splitLines]
    split
    · have hline : (c :: done).reverse ≠ [] := by simp
      rw [List.map_cons, run, List.foldl_cons, step_content hscope hline]
      cases cs with
      | nil => simp [splitLines]
      | cons b bs =>
        have hrest := ih (d := d.content scope (c :: done).reverse) [] (by simp)
        rw [run, List.reverse_nil, List.nil_append] at hrest
        rw [hrest, content_append]
        simp
    · rw [ih (c :: done) (by simp)]
      simp

/-- The lines of a text are passed as the text is. -/
theorem run_linePieces (hscope : scope.isContent = true) {cs : List Char} (hcs : cs ≠ []) :
    d.run (linePieces scope cs) = d.content scope cs :=
  run_splitLines hscope [] cs hcs

end Draft

/-! ## The end of a region -/

/-- In a text no quote stays open, and the closer of the default syntax is found in quoted texts
alone. -/
structure FitsRegion (cs : List Char) : Prop where
  quoting : cs.foldl Quoting.step .outside = .outside
  closer : ∀ pre post, cs = pre ++ Syntax.default.closer.toList ++ post →
    pre.foldl Quoting.step .outside ≠ .outside

/-- Whether a text fits a region is found by looking for the closer at each of its places. -/
theorem fitsRegion_iff {cs : List Char} : FitsRegion cs ↔
    cs.foldl Quoting.step .outside = .outside ∧
      ∀ n < cs.length, Syntax.default.closer.toList <+: cs.drop n →
        (cs.take n).foldl Quoting.step .outside ≠ .outside := by
  constructor
  · rintro ⟨hquoting, hcloser⟩
    refine ⟨hquoting, fun n _ hprefix => ?_⟩
    obtain ⟨post, hpost⟩ := hprefix
    refine hcloser (cs.take n) post ?_
    rw [List.append_assoc, hpost, List.take_append_drop]
  · rintro ⟨hquoting, hplaces⟩
    refine ⟨hquoting, fun pre post hcs => ?_⟩
    rw [List.append_assoc] at hcs
    have hlength : pre.length < cs.length := by
      rw [hcs, List.length_append, List.length_append]
      exact Nat.lt_add_of_pos_right (Nat.add_pos_left (by decide) _)
    have hplace := hplaces pre.length hlength
    rw [hcs, List.drop_left, List.take_left] at hplace
    exact hplace (List.prefix_append _ _)

instance (cs : List Char) : Decidable (FitsRegion cs) := decidable_of_iff' _ fitsRegion_iff

/-- A region without directives ends at the first closer that is not in a quoted text. -/
theorem readBody_eq {scope : Scope} {cs rest : List Char} {quoting : Quoting} (before : Option Char)
    (chunk : List Char) (hquoting : cs.foldl Quoting.step quoting = .outside)
    (hcloser : ∀ pre post, cs = pre ++ Syntax.default.closer.toList ++ post →
      pre.foldl Quoting.step quoting ≠ .outside) :
    readBody .default scope false before quoting chunk (cs ++ '?' :: '>' :: rest) =
      ⟨linePieces scope (chunk.reverse ++ cs), some rest⟩ := by
  induction cs generalizing before quoting chunk with
  | nil =>
    obtain rfl : quoting = .outside := hquoting
    rw [List.nil_append, readBody]
    simp [toList_closer_default, stripStart?]
  | cons c cs ih =>
    have hrest : ∀ pre post, cs = pre ++ Syntax.default.closer.toList ++ post →
        pre.foldl Quoting.step (quoting.step c) ≠ .outside := fun pre post hcs =>
      hcloser (c :: pre) post (by rw [hcs]; rfl)
    have hread := ih (some c) (c :: chunk) hquoting hrest
    rw [List.reverse_cons, List.append_assoc, List.singleton_append] at hread
    rw [List.cons_append, readBody]
    by_cases houtside : quoting = .outside
    · subst houtside
      have hnone : stripStart? Syntax.default.closer.toList (c :: (cs ++ '?' :: '>' :: rest)) =
          none := by
        rw [toList_closer_default, Option.eq_none_iff_forall_ne_some]
        intro behind hsome
        obtain ⟨rfl, hbehind⟩ := List.cons.inj (stripStart?_eq_some_iff.mp hsome)
        cases cs with
        | nil => cases hbehind
        | cons b cs =>
          obtain ⟨rfl, -⟩ := List.cons.inj hbehind
          exact hcloser [] cs rfl rfl
      simp [hnone, hread]
    · simp [houtside, hread]

/-! ## Templates that write an expression -/

/-- The template that writes an expression. -/
def inlineTemplate (text : String) : String := "<?e=" ++ text ++ "?>"

/-- Such a template is taken apart into an opener, the lines of the text and a closer. -/
theorem pieces_inlineTemplate {text : String} (h : FitsRegion text.toList) :
    pieces .default (inlineTemplate text).toList = ⟨.inlineOpen, "<?e=".toList⟩ ::
      (linePieces .inlineWrite text.toList ++ [⟨.inlineClose, "?>".toList⟩]) := by
  have htext : (inlineTemplate text).toList =
      '<' :: '?' :: 'e' :: '=' :: (text.toList ++ '?' :: '>' :: []) := by
    simp [inlineTemplate]
  have hopener : findOpener? defaultOpeners [] (inlineTemplate text).toList =
      some ([], "<?e=".toList, text.toList ++ '?' :: '>' :: []) := by
    rw [htext]
    rfl
  have hinline : Syntax.default.isInline "<?e=".toList = true := by decide
  have hbody : readBody .default
      (if Syntax.default.isInline "<?e=".toList then .inlineWrite else .block)
      (!Syntax.default.isInline "<?e=".toList) "<?e=".toList.getLast? .outside []
      (text.toList ++ '?' :: '>' :: []) = ⟨linePieces .inlineWrite text.toList, some []⟩ := by
    rw [hinline]
    exact readBody_eq (some '=') [] h.quoting h.closer
  have hempty : classifyFrom .default defaultOpeners ne_nil_of_mem_defaultOpeners [] = [] := by
    rw [classifyFrom]
    rfl
  have hpieces : pieces .default (inlineTemplate text).toList =
      classifyFrom .default defaultOpeners ne_nil_of_mem_defaultOpeners
        (inlineTemplate text).toList := classifyFrom_congr Syntax.openers_default _ _ _
  rw [hpieces, classifyFrom_of_some hopener hbody, hinline]
  simp only [hempty]
  rfl

/-- **The template becomes a call around the text.** -/
theorem outline_inlineTemplate {text : String} (h : FitsRegion text.toList) :
    (Tree.ofSpans (scan Syntax.default.classify (inlineTemplate text))).outline =
      symbols (";write(" ++ text ++ ");").toList := by
  rw [outline_ofSpans_scan, pieces_inlineTemplate h, Draft.run, List.foldl_cons,
    List.foldl_append]
  have hopen : Draft.start.step ⟨.inlineOpen, "<?e=".toList⟩ =
      ⟨symbols ";write(".toList, none, some .inlineWrite, none⟩ := rfl
  have hlines : List.foldl Draft.step ⟨symbols ";write(".toList, none, some .inlineWrite, none⟩
      (linePieces .inlineWrite text.toList) =
        ⟨symbols ";write(".toList ++ symbols text.toList, none, some .inlineWrite, none⟩ := by
    by_cases hempty : text.toList = []
    · rw [hempty]
      rfl
    · exact Draft.run_linePieces rfl hempty
  have hclose : ∀ done : List Symbol,
      (List.foldl Draft.step ⟨done, none, some .inlineWrite, none⟩
        [⟨.inlineClose, "?>".toList⟩]).outline = done ++ symbols ");".toList :=
    fun done => List.append_nil _
  rw [hopen, hlines, hclose, String.toList_append, String.toList_append, symbols_append,
    symbols_append]

end Stencil.Template
