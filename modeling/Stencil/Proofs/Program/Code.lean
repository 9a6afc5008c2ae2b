import Stencil.Proofs.Compile.Filling
import Stencil.Proofs.Template.Outline

/-! # The code of programs

The code of a program is the text of its root document, wherever the documents in it come from; and
the text of a document is the outline of its template, with the texts in it that its directives have
become.
-/
namespace Stencil

/-! ## Weaving -/

namespace Weaver

variable (w : Weaver)

theorem code_mapTo (origin : Option Origin) : (w.mapTo origin).code = w.code := by
  cases origin with
  | none => rfl
  | some o => exact code_map w o false

theorem code_putCode (origin : Option Origin) (cs : List Char) :
    (w.putCode origin cs).code = cs.reverse ++ w.code := by
  induction cs generalizing w with
  | nil => rfl
  | cons c cs ih =>
    rw [putCode, ih]
    split
    · rw [code_mapTo]
      simp [put]
    · simp [put]

theorem code_putCopied (o : Origin) (cs : List Char) :
    (w.putCopied o cs).code = cs.reverse ++ w.code := by
  induction cs generalizing w o with
  | nil => rfl
  | cons c cs ih =>
    simp only [putCopied]
    split
    · rw [ih, code_map]
      simp [put]
    · rw [ih]
      simp [put]

theorem code_putVerbatim (origin : Option Origin) (cs : List Char) :
    (w.putVerbatim origin cs).code = cs.reverse ++ w.code := by
  cases origin with
  | none => exact code_putCode w none cs
  | some o => rw [putVerbatim, code_putCopied, code_map]

theorem code_meet (d : Document) : (w.meet d).code = w.code := by
  unfold meet
  split <;> rfl

end Weaver

mutual

theorem Chunk.code_weave (origin : Option Origin) (w : Weaver) :
    ∀ c : Chunk, (c.weave origin w).code = c.text.toList.reverse ++ w.code
  | .code _ => w.code_putCode origin _
  | .verbatim _ => w.code_putVerbatim origin _
  | .gap _ => w.code_putCode origin _
  | .fragment own chunks => by
    rw [Chunk.weave, Weaver.code_mapTo, code_weaveChunks _ _ chunks, Weaver.code_mapTo, Chunk.text]
  | .inclusion directive document => by
    rw [Chunk.weave, Weaver.code_mapTo, Chunk.text]
    exact document.code_weave w

theorem code_weaveChunks (origin : Option Origin) (w : Weaver) :
    ∀ cs : List Chunk, (weaveChunks origin w cs).code = (textOfChunks cs).toList.reverse ++ w.code
  | [] => rfl
  | c :: cs => by
    rw [weaveChunks, code_weaveChunks origin _ cs, c.code_weave origin w, textOfChunks]
    simp

theorem Document.code_weave (w : Weaver) :
    ∀ d : Document, (d.weave w).code = d.text.toList.reverse ++ w.code
  | .mk stamp chunks => by
    rw [Document.weave, code_weaveChunks none _ chunks, Weaver.code_meet, Document.text]

end

/-- **The code of a program is the text of its root.** -/
theorem Document.code_program_eq_text (root : Document) : root.program.code = root.text := by
  rw [Document.program, root.code_weave]
  simp [Weaver.start]

/-! ## Outlines that are filled in -/

namespace Template

/-- The arguments of the directive that a symbol stands for. -/
def Symbol.directive? : Symbol → Option (List String)
  | .char _ => none
  | .directive arguments => some arguments

/-- The arguments of the directives in an outline. -/
def directivesOf (ss : List Symbol) : List (List String) := ss.filterMap Symbol.directive?

/-- The code of an outline whose directives become some texts, in order. -/
def fillSymbols : List Symbol → List String → List Char
  | [], _ => []
  | .char c :: ss, ts => c :: fillSymbols ss ts
  | .directive _ :: ss, ts => (ts.head?.getD "").toList ++ fillSymbols ss ts.tail

variable {source : String} (cs : List Char) (ss ss' : List Symbol) (ts : List String)

theorem fillSymbols_symbols : fillSymbols (symbols cs) ts = cs := by
  induction cs with
  | nil => rfl
  | cons c cs ih => rw [symbols, List.map_cons, fillSymbols]; exact congrArg (c :: ·) ih

theorem directivesOf_symbols : directivesOf (symbols cs) = [] := by
  simp [directivesOf, symbols, Symbol.directive?]

theorem directivesOf_append : directivesOf (ss ++ ss') = directivesOf ss ++ directivesOf ss' :=
  List.filterMap_append

theorem fillSymbols_append : fillSymbols (ss ++ ss') ts =
    fillSymbols ss ts ++ fillSymbols ss' (ts.drop (directivesOf ss).length) := by
  induction ss generalizing ts with
  | nil => rfl
  | cons s ss ih =>
    cases s with
    | char c =>
      simp only [List.cons_append, fillSymbols, ih]
      rfl
    | directive arguments =>
      simp only [List.cons_append, fillSymbols, ih, List.append_assoc]
      simp [directivesOf, Symbol.directive?]

/-- Texts for directives that there are not count for nothing. -/
theorem fillSymbols_take : fillSymbols ss (ts.take (directivesOf ss).length) = fillSymbols ss ts := by
  induction ss generalizing ts with
  | nil => rfl
  | cons s ss ih =>
    cases s with
    | char c =>
      simp only [fillSymbols]
      exact congrArg (c :: ·) (ih ts)
    | directive arguments =>
      cases ts with
      | nil => simp
      | cons t ts =>
        simp only [fillSymbols, directivesOf, Symbol.directive?, List.filterMap_cons,
          List.length_cons, List.take_succ_cons, List.head?_cons, List.tail_cons]
        exact congrArg _ (ih ts)

variable (cs : List Chunk)

theorem textOfChunks_append (cs cs' : List Chunk) :
    textOfChunks (cs ++ cs') = textOfChunks cs ++ textOfChunks cs' := by
  induction cs with
  | nil => simp [textOfChunks]
  | cons c cs ih => simp [textOfChunks, ih, String.append_assoc]

theorem text_copied (source : String) (children : List Span) :
    (textOfChunks (children.map (copied source))).toList =
      fillSymbols (spanSymbols children) ts := by
  induction children generalizing ts with
  | nil => rfl
  | cons s children ih =>
    rw [spanSymbols, List.flatMap_cons, fillSymbols_append, fillSymbols_symbols, List.map_cons,
      textOfChunks, String.toList_append, ih ts, directivesOf_symbols]
    simp [copied, Chunk.text, textOfChunks, spanSymbols]

theorem text_take_one : (textOfChunks (cs.take 1)).toList =
    ((cs.map Chunk.text).head?.getD "").toList := by
  cases cs with
  | nil => rfl
  | cons c cs => simp [textOfChunks]

theorem text_fillParts (source : String) (parts : List BlockPart) :
    (textOfChunks (fillParts source parts cs)).toList =
      fillSymbols (parts.flatMap BlockPart.outline) (cs.map Chunk.text) := by
  induction parts generalizing cs with
  | nil => rfl
  | cons part parts ih =>
    cases part with
    | script span =>
      rw [List.flatMap_cons, fillParts, textOfChunks, String.toList_append, ih, fillSymbols_append]
      simp [copied, Chunk.text, textOfChunks, BlockPart.outline, fillSymbols_symbols,
        directivesOf_symbols]
    | inclusion i =>
      rw [List.flatMap_cons, fillParts, textOfChunks, String.toList_append, ih]
      simp [Chunk.text, text_take_one, BlockPart.outline, fillSymbols]

/-- The arguments of the directives of a node are those in its outline. -/
theorem Node.directivesOf_outline (n : Node) :
    directivesOf n.outline = n.inclusions.map Inclusion.arguments := by
  cases n with
  | text => exact directivesOf_symbols _
  | inlineWrite location children =>
    have hspans : directivesOf (spanSymbols children) = [] := by
      induction children with
      | nil => rfl
      | cons s children ih =>
        rw [spanSymbols, List.flatMap_cons, directivesOf_append, directivesOf_symbols]
        exact ih
    simp [outline, directivesOf_append, directivesOf_symbols, hspans, inclusions]
  | block location parts =>
    rw [outline, directivesOf_append, directivesOf_symbols, List.append_nil, inclusions]
    induction parts with
    | nil => rfl
    | cons part parts ih =>
      rw [List.flatMap_cons, directivesOf_append, ih]
      cases part with
      | script span =>
        rw [BlockPart.outline, directivesOf_symbols, List.nil_append]
        rfl
      | inclusion i => rfl
  | inclusion i => rfl

/-- The arguments of the directives of a tree are those in its outline. -/
theorem Tree.directivesOf_outline (tree : Tree) :
    directivesOf tree.outline = tree.inclusions.map Inclusion.arguments := by
  unfold Tree.outline Tree.inclusions
  induction tree.nodes with
  | nil => rfl
  | cons n ns ih =>
    rw [List.flatMap_cons, directivesOf_append, ih, n.directivesOf_outline, List.flatMap_cons,
      List.map_append]

/-- The text of a filled node is its outline, filled in. -/
theorem Node.text_fill (source : String) (n : Node) :
    (n.fill source (cs.take n.inclusions.length)).text.toList =
      fillSymbols n.outline (cs.map Chunk.text) := by
  cases n with
  | text location value =>
    rw [outline, fillSymbols_symbols]
    simp [fill, Chunk.text, textOfChunks]
  | inlineWrite location children =>
    rw [outline, fillSymbols_append, fillSymbols_append, ← text_copied _ source]
    simp [fill, Chunk.text, textOfChunks, textOfChunks_append, fillSymbols_symbols]
  | block location parts =>
    have hparts := text_fillParts (cs.take (Node.block location parts).inclusions.length) source
      parts
    have hcount : (Node.block location parts).inclusions.length =
        (directivesOf (Node.block location parts).outline).length := by
      rw [Node.directivesOf_outline, List.length_map]
    have hsame : directivesOf (Node.block location parts).outline =
        directivesOf (parts.flatMap BlockPart.outline) := by
      rw [outline, directivesOf_append, directivesOf_symbols, List.append_nil]
    rw [List.map_take, hcount, hsame, fillSymbols_take] at hparts
    rw [outline, fillSymbols_append, fillSymbols_symbols, ← hparts, hcount, hsame]
    simp [fill, Chunk.text, textOfChunks, textOfChunks_append]
  | inclusion i =>
    simp [fill, Chunk.text, outline, fillSymbols, inclusions, text_take_one]

/-- **The text of a filled tree is its outline, filled in.** -/
theorem Tree.text_fill (source : String) (tree : Tree) :
    (textOfChunks (tree.fill source cs)).toList = fillSymbols tree.outline (cs.map Chunk.text) := by
  unfold Tree.fill Tree.outline
  induction tree.nodes generalizing cs with
  | nil => rfl
  | cons n ns ih =>
    rw [fillNodes, textOfChunks, String.toList_append, n.text_fill, ih, List.flatMap_cons,
      fillSymbols_append, n.directivesOf_outline, List.length_map, List.map_drop]

end Template

end Stencil
