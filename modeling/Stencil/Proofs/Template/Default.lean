import Stencil.Template.Syntax

/-! # The default syntax

The openers of the default syntax in the order in which they are tried, which is by length.  They
are sorted for any syntax; for this one they can be written down, so that texts are taken apart by
computation.
-/
namespace Stencil.Template

/-- The openers of the default syntax, the longest first. -/
def defaultOpeners : List (List Char) :=
  ["<?block".toList, "<?write".toList, "<?exp".toList, "<?e=".toList]

theorem toList_closer_default : Syntax.default.closer.toList = ['?', '>'] := rfl

theorem toList_includeKeyword_default :
    Syntax.default.includeKeyword.toList = ['i', 'n', 'c', 'l', 'u', 'd', 'e'] := rfl

theorem ne_nil_of_mem_defaultOpeners : ∀ o ∈ defaultOpeners, o ≠ [] := by decide

theorem Syntax.openers_default : Syntax.default.openers = defaultOpeners := by
  have hblock : "<?block".utf8ByteSize = 7 := rfl
  have hwrite : "<?write".utf8ByteSize = 7 := rfl
  have hexp : "<?exp".utf8ByteSize = 5 := rfl
  have he : "<?e=".utf8ByteSize = 4 := rfl
  simp [openers, Syntax.default, defaultOpeners, List.mergeSort,
    List.MergeSort.Internal.splitInTwo, hblock, hwrite, hexp, he]

/-- A text is taken apart by the openers alone. -/
theorem classifyFrom_congr {s : Syntax} {openers openers' : List (List Char)}
    (heq : openers = openers') (hne : ∀ o ∈ openers, o ≠ []) (hne' : ∀ o ∈ openers', o ≠ [])
    (cs : List Char) : classifyFrom s openers hne cs = classifyFrom s openers' hne' cs := by
  subst heq
  rfl

/-- The classifier of the default syntax. -/
theorem Syntax.classify_default : Syntax.default.classify = fun cs =>
    rangesFrom 0 (classifyFrom .default defaultOpeners ne_nil_of_mem_defaultOpeners cs) := by
  funext cs
  exact congrArg (rangesFrom 0) (classifyFrom_congr Syntax.openers_default _ _ cs)

end Stencil.Template
