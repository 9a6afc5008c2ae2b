import Stencil.Proofs.Engine.Alone
import Stencil.Proofs.Script.Writing
import Stencil.Proofs.Template.Default
import Stencil.Proofs.Template.Plain

/-! # Plain texts are rendered as they are

A template without any region is compiled to one statement that writes the text, or to no code at
all if there is no text, and the script that executes it ends with the text.  The statement quotes
the text so that the script reads it back unchanged, whatever characters there are in it.
-/
namespace Stencil
open Script (Redefines plainCode)

/-- A template that is nothing but text becomes the statement that writes it. -/
theorem Template.Tree.IsText.isCode {tree : Tree} {text : String} (h : tree.IsText text) :
    tree.IsCode (plainCode text) := by
  rw [IsCode, outline, plainCode]
  rcases h with ⟨hempty, hnodes⟩ | ⟨hne, location, hnodes⟩
  · rw [hnodes, if_pos hempty]
    rfl
  · rw [hnodes, if_neg hne]
    simp [Node.outline]

/-- There is time to look at the clock if any time is given. -/
theorem Script.Clock.running_ofMillis {millis : Nat} (h : 0 < millis) :
    (ofMillis millis).Running := by
  have hlooks : millis * looksPerMilli ≠ 0 := by
    simp [looksPerMilli]
    omega
  exact fun hnone => hlooks (Option.some.inj hnone)

namespace Engine

/-- **A plain text is rendered as it is.**  Whatever an engine has been asked for before, a text in
which no opener occurs is its own output, if the context leaves the function that writes alone and
there is any time at all: the text of a file as well as one that stands for a file. -/
theorem render_plain (o : Options) (files : Files) (mode : CacheMode) (requests : List Request)
    (path text : String) (context : Json) (hplain : o.templateSyntax.IsPlain text.toList)
    (hcontext : ¬ Redefines context "write") (htime : 0 < o.timeoutMillis) :
    let e := Engine.ofOptions o
    let w := e.history files mode requests
    (e.renderSource path text context w).1 = .ok ⟨text, []⟩ ∧
    (files.read (Path.normalize path) = .ok text →
      (e.render path context w).1 = .ok ⟨text, []⟩) := by
  have htree : ((Engine.ofOptions o).dialect.tree text).IsText text :=
    Template.isText_of_isPlain hplain
  exact render_of_isCode files mode requests htree.isCode
    (Script.runScript_plainCode hcontext (Script.Clock.running_ofMillis htime) text)

/-- Quotes, backslashes, line breaks of all kinds, a closer and the beginning of an opener. -/
def oddText : String :=
  "\"'`\\n\\\r\n\t\u0000\u2028\u2029 ?> <?ex <?expo <? write(\"\");//*"

theorem render_plain_odd :
    let e := Engine.ofOptions .default
    let files := Files.empty.write "/odd.exp" (.text oddText)
    let context := Json.object [("name", .string "write")]
    Options.default.templateSyntax.IsPlain oddText.toList ∧ ¬ Redefines context "write" ∧
      0 < Options.default.timeoutMillis ∧ files.read (Path.normalize "/odd.exp") = .ok oddText ∧
      (e.render "/odd.exp" context (.fresh files .session)).1 = .ok ⟨oddText, []⟩ := by
  dsimp only
  have hplain : Options.default.templateSyntax.IsPlain oddText.toList := by
    rw [Options.default, Template.Syntax.isPlain_iff, Template.Syntax.openers_default]
    decide
  have hcontext : ¬ Redefines (.object [("name", .string "write")]) "write" := by
    rintro ⟨fields, json, hfields, hmem⟩
    cases hfields
    simp at hmem
  have htime : 0 < Options.default.timeoutMillis := by decide
  have hread : (Files.empty.write "/odd.exp" (.text oddText)).read (Path.normalize "/odd.exp") =
      .ok oddText := by
    decide +kernel
  have hrender := render_plain .default (Files.empty.write "/odd.exp" (.text oddText)) .session []
    "/odd.exp" oddText (.object [("name", .string "write")]) hplain hcontext htime
  exact ⟨hplain, hcontext, htime, hread, hrender.2 hread⟩

end Engine

end Stencil
